/-
The life of a pilot goes forward only: its state rises in the order of the states, a
pilot that drains takes no new reservation, and a pilot is ready only after a handle of
the scheduler was assigned to it.
-/
import QhpcEcosystem.PilotCapacity

namespace QhpcEcosystem

open PilotStore

/-- The place of a state in the life of a pilot. -/
def PilotState.rank : PilotState → Nat
  | .requested => 0
  | .starting => 1
  | .ready => 2
  | .draining => 3
  | .terminationRequested => 4
  | .terminated => 5

theorem PilotState.terminated_of_rank {state : PilotState}
    (h : PilotState.terminated.rank ≤ state.rank) : state = .terminated := by
  cases state <;> simp [rank] at h ⊢

namespace PilotAllocation

theorem Change.rank_le {row row' : PilotAllocation} (h : Change row row') :
    row.state.rank ≤ row'.state.rank := by
  cases h with
  | kept | beat => exact le_rfl
  | submitted hstate _ =>
      rcases hstate with hstate | hstate <;> simp [submit, hstate, PilotState.rank]
  | readied hstate _ => simp [PilotAllocation.markReady, hstate, PilotState.rank]
  | drained hopen =>
      cases hstate : row.state <;> simp [hstate] at hopen <;>
        simp [drain, PilotState.rank]
  | closed hstate _ =>
      cases hrow : row.state <;> simp [hrow] at hstate <;>
        simp [requestTermination, PilotState.rank]
  | terminated _ =>
      cases hrow : row.state <;> simp [terminate, PilotState.rank]

/-- A pilot becomes ready from starting, with a handle. -/
theorem Change.ready {row row' : PilotAllocation} (h : Change row row')
    (hready : row'.state = .ready) : row.state = .ready ∨
      row.state = .starting ∧ row.schedulerHandle.getD "" ≠ "" := by
  cases h with
  | kept | beat => exact .inl hready
  | readied hstate hhandle => exact .inr ⟨hstate, hhandle⟩
  | submitted _ _ | drained _ | closed _ _ | terminated _ => cases hready

end PilotAllocation

namespace PilotDb

variable {db db' : PilotDb}

/-- The event of an assignment is in the log. -/
def WasSubmitted (db : PilotDb) (pilotId : Uuid) : Prop :=
  ∃ event ∈ db.events, event.pilotId = pilotId ∧ event.eventType = "pilot.submitted"

theorem WasSubmitted.mono {pilotId : Uuid} (h : db.WasSubmitted pilotId)
    (hevents : db.events <+: db'.events) : db'.WasSubmitted pilotId := by
  obtain ⟨event, hevent, hpilot, htype⟩ := h
  exact ⟨event, hevents.mem hevent, hpilot, htype⟩

/-- The handle of a pilot says whether one was assigned. -/
inductive Submission (db : PilotDb) (pilot : PilotAllocation) : Prop
  | none : pilot.schedulerHandle = .none → pilot.state ≠ .starting → pilot.state ≠ .ready →
      Submission db pilot
  | assigned : pilot.schedulerHandle.getD "" ≠ "" → db.WasSubmitted pilot.id →
      Submission db pilot

theorem handle_ne_empty {handle : String} (h : isSchedulerHandle handle = true) :
    handle ≠ "" := by
  rintro rfl
  exact absurd h (by decide)

/-- A change of an allocation keeps what its handle says. -/
theorem Submission.change {row row' : PilotAllocation} (h : db.Submission row)
    (hevents : db.events <+: db'.events) (hchange : PilotAllocation.Change row row')
    (hhandle : row'.schedulerHandle = row.schedulerHandle ∨ db'.WasSubmitted row.id) :
    db'.Submission row' := by
  have hid := hchange.keeps.1
  have hsubmitted : row'.schedulerHandle.getD "" ≠ "" → db'.WasSubmitted row'.id := by
    intro hsome
    rw [hid]
    rcases hhandle with hsame | hnew
    · cases h with
      | none hnone _ _ => simp [hsame, hnone] at hsome
      | assigned _ hold => exact hold.mono hevents
    · exact hnew
  have hkept : row'.schedulerHandle = row.schedulerHandle → row'.state ≠ .starting →
      row'.state ≠ .ready → db'.Submission row' := by
    intro hsame hstarting hready
    cases h with
    | none hnone _ _ => exact .none (hsame.trans hnone) hstarting hready
    | assigned hsome _ =>
        rw [← hsame] at hsome
        exact .assigned hsome (hsubmitted hsome)
  cases hchange with
  | kept | beat =>
      cases h with
      | none hnone hstarting hready => exact .none hnone hstarting hready
      | assigned hsome hold => exact .assigned hsome (hold.mono hevents)
  | submitted _ hvalid =>
      exact .assigned (handle_ne_empty hvalid) (hsubmitted (handle_ne_empty hvalid))
  | readied _ hsome => exact .assigned hsome (hsubmitted hsome)
  | drained _ | closed _ _ | terminated _ => exact hkept rfl nofun nofun

/-- What a call leaves of every pilot and every reservation that was there. -/
structure Follows (db db' : PilotDb) : Prop where
  pilots : ∀ pilot ∈ db.allocations.rows, ∃ later ∈ db'.allocations.rows,
    later.id = pilot.id ∧ pilot.state.rank ≤ later.state.rank
  reservations : ∀ pilot ∈ db.allocations.rows,
    PilotState.draining.rank ≤ pilot.state.rank → ∀ row ∈ db'.reservations.rows,
      row.pilotId = pilot.id → ∃ old ∈ db.reservations.rows,
        old.id = row.id ∧ old.pilotId = row.pilotId ∧ (row.state = .active → old = row)

namespace Follows

theorem refl (db : PilotDb) : db.Follows db :=
  ⟨fun pilot hpilot => ⟨pilot, hpilot, rfl, le_rfl⟩,
    fun _ _ _ row hrow _ => ⟨row, hrow, rfl, rfl, fun _ => rfl⟩⟩

theorem trans {last : PilotDb} (hfirst : db.Follows db') (hsecond : db'.Follows last) :
    db.Follows last := by
  refine ⟨fun pilot hpilot => ?_, fun pilot hpilot hdraining row hrow hof => ?_⟩
  · obtain ⟨mid, hmid, hid, hrank⟩ := hfirst.pilots pilot hpilot
    obtain ⟨later, hlater, hid', hrank'⟩ := hsecond.pilots mid hmid
    exact ⟨later, hlater, hid'.trans hid, hrank.trans hrank'⟩
  · obtain ⟨mid, hmid, hid, hrank⟩ := hfirst.pilots pilot hpilot
    obtain ⟨between, hbetween, hrowId, hrowPilot, hactive⟩ :=
      hsecond.reservations mid hmid (hdraining.trans hrank) row hrow (hof.trans hid.symm)
    obtain ⟨old, hold, holdId, holdPilot, hactive'⟩ :=
      hfirst.reservations pilot hpilot hdraining between hbetween (hrowPilot.trans hof)
    refine ⟨old, hold, holdId.trans hrowId, holdPilot.trans hrowPilot, fun hstate => ?_⟩
    obtain rfl := hactive hstate
    exact hactive' hstate

end Follows

/-- An update in place that keeps ids and does not lower a state. -/
theorem pilots_update {mid : PilotDb} {pilotId : Uuid} {f : RowUpdate PilotAllocation}
    (hstate : ∀ row, (f.apply row).state = row.state)
    (hrows : db'.allocations = mid.allocations.update pilotId f) :
    ∀ pilot ∈ mid.allocations.rows, ∃ later ∈ db'.allocations.rows,
      later.id = pilot.id ∧ later.state = pilot.state := by
  intro pilot hpilot
  refine ⟨(RowUpdate.forKey pilotId f).apply pilot, ?_,
    (RowUpdate.forKey pilotId f).key_apply pilot, ?_⟩
  · rw [hrows, Table.rows_update]
    exact List.mem_map_of_mem hpilot
  · rw [RowUpdate.forKey_apply]
    split
    · exact hstate pilot
    · rfl

theorem Transition.follows (h : db.Transition db') : db.Follows db' := by
  cases h with
  | quiet => exact .refl db
  | requested _ _ _ _ _ hallocations hreservations _ _ =>
      refine ⟨fun pilot hpilot => ⟨pilot, ?_, rfl, le_rfl⟩, fun _ _ _ row hrow _ => ?_⟩
      · rw [hallocations]
        exact List.mem_append_left _ hpilot
      · rw [hreservations] at hrow
        exact ⟨row, hrow, rfl, rfl, fun _ => rfl⟩
  | rewritten hrewrites hchange _ =>
      refine ⟨fun pilot hpilot => ⟨_, hrewrites.mem hpilot, (hchange pilot hpilot).keeps.1,
        (hchange pilot hpilot).rank_le⟩, fun _ _ _ row hrow _ => ?_⟩
      rw [hrewrites.reservations] at hrow
      exact ⟨row, hrow, rfl, rfl, fun _ => rfl⟩
  | @reserved mid _ f taken reservation now hrewrites hchange htaken hready _ _ hpilotId _ _
      hallocations hreservations _ _ =>
      have hstates := pilots_update (fun row => by rfl) hallocations
      refine ⟨fun pilot hpilot => ?_, fun pilot hpilot hdraining row hrow hof => ?_⟩
      · obtain ⟨later, hlater, hid, hstate⟩ := hstates _ (hrewrites.mem hpilot)
        refine ⟨later, hlater, hid.trans (hchange pilot hpilot).1.keeps.1, ?_⟩
        rw [hstate]
        exact (hchange pilot hpilot).1.rank_le
      · rw [hreservations, List.mem_append, List.mem_singleton] at hrow
        rcases hrow with hold | rfl
        · exact ⟨row, hold, rfl, rfl, fun _ => rfl⟩
        · -- the pilot of the reservation is ready after the reconciliation
          have hid := (hchange pilot hpilot).1.keeps.1
          have hrank := (hchange pilot hpilot).1.rank_le
          obtain rfl := mid.allocations.eq_of_key_eq (hrewrites.mem hpilot) htaken
            (hid.trans (hof.symm.trans hpilotId))
          rw [hready] at hrank
          exact absurd (hdraining.trans hrank) (by decide)
  | @released _ reservation now hreservation hactive hallocations hreservations _ _ =>
      have hstates := pilots_update (fun row => by rfl) hallocations
      refine ⟨fun pilot hpilot => ?_, fun _ _ _ row hrow _ => ?_⟩
      · obtain ⟨later, hlater, hid, hstate⟩ := hstates pilot hpilot
        exact ⟨later, hlater, hid, hstate ▸ le_rfl⟩
      · rw [hreservations, Table.rows_update] at hrow
        obtain ⟨old, hold, rfl⟩ := List.mem_map.mp hrow
        refine ⟨old, hold, ?_⟩
        rw [RowUpdate.forKey_apply]
        split
        · exact ⟨rfl, rfl, fun hstate => by cases hstate⟩
        · exact ⟨rfl, rfl, fun _ => rfl⟩

/-- Every pilot after a call was there before it, up to a change, or is new. -/
theorem Transition.origin (h : db.Transition db') :
    ∀ later ∈ db'.allocations.rows,
      (later.state = .requested ∧ later.schedulerHandle = none) ∨
      ∃ pilot ∈ db.allocations.rows, ∃ mid, PilotAllocation.Change pilot mid ∧
        later.id = mid.id ∧ later.state = mid.state ∧
        later.schedulerHandle = mid.schedulerHandle ∧
        (mid.schedulerHandle = pilot.schedulerHandle ∨ db'.WasSubmitted pilot.id) := by
  intro later hlater
  cases h with
  | quiet => exact .inr ⟨later, hlater, later, .kept, rfl, rfl, rfl, .inl rfl⟩
  | requested _ hstate hhandle _ _ hallocations _ _ _ =>
      rw [hallocations, List.mem_append, List.mem_singleton] at hlater
      rcases hlater with hold | rfl
      · exact .inr ⟨later, hold, later, .kept, rfl, rfl, rfl, .inl rfl⟩
      · exact .inl ⟨hstate, hhandle⟩
  | rewritten hrewrites hchange hhandle =>
      rw [hrewrites.allocations] at hlater
      obtain ⟨pilot, hpilot, rfl⟩ := List.mem_map.mp hlater
      exact .inr ⟨pilot, hpilot, _, hchange pilot hpilot, rfl, rfl, rfl, hhandle pilot hpilot⟩
  | reserved hrewrites hchange _ _ _ _ _ _ _ hallocations _ _ _ =>
      rw [hallocations, Table.rows_update] at hlater
      obtain ⟨mid, hmid, rfl⟩ := List.mem_map.mp hlater
      rw [hrewrites.allocations] at hmid
      obtain ⟨pilot, hpilot, rfl⟩ := List.mem_map.mp hmid
      obtain ⟨hstep, hhandle⟩ := hchange pilot hpilot
      refine .inr ⟨pilot, hpilot, _, hstep, ?_⟩
      rw [RowUpdate.forKey_apply]
      split <;> exact ⟨rfl, rfl, rfl, .inl hhandle⟩
  | released _ _ hallocations _ _ _ =>
      rw [hallocations, Table.rows_update] at hlater
      obtain ⟨pilot, hpilot, rfl⟩ := List.mem_map.mp hlater
      refine .inr ⟨pilot, hpilot, pilot, .kept, ?_⟩
      rw [RowUpdate.forKey_apply]
      split <;> exact ⟨rfl, rfl, rfl, .inl rfl⟩

theorem Transition.events (h : db.Transition db') : db.events <+: db'.events := by
  cases h with
  | quiet => exact List.prefix_rfl
  | requested _ _ _ _ _ _ _ _ hevents => exact hevents
  | rewritten hrewrites _ _ => exact hrewrites.events
  | reserved hrewrites _ _ _ _ _ _ _ _ _ _ _ hevents => exact hrewrites.events.trans hevents
  | released _ _ _ _ _ hevents => exact hevents

theorem Submission.transition (h : ∀ pilot ∈ db.allocations.rows, db.Submission pilot)
    (hstep : db.Transition db') : ∀ pilot ∈ db'.allocations.rows, db'.Submission pilot := by
  intro later hlater
  rcases hstep.origin later hlater with ⟨hstate, hnone⟩ |
    ⟨pilot, hpilot, mid, hchange, hid, hstate, hhandle, hsubmitted⟩
  · exact .none hnone (by simp [hstate]) (by simp [hstate])
  · cases (h pilot hpilot).change hstep.events hchange hsubmitted with
    | none hnone hstarting hready =>
        exact .none (hhandle.trans hnone) (hstate ▸ hstarting) (hstate ▸ hready)
    | assigned hsome hwas => exact .assigned (hhandle ▸ hsome) (hid ▸ hwas)

end PilotDb

open TransitionSystem

section Runs

variable {db db' : PilotDb}

theorem PilotDb.submission_of_reachable (h : pilotStore.Reachable anyStep db) :
    ∀ pilot ∈ db.allocations.rows, db.Submission pilot := by
  refine h.invariant (fun db => ∀ pilot ∈ db.allocations.rows, db.Submission pilot)
    (fun db hinitial => ?_) fun db label db' _ hinv _ hstep => ?_
  · obtain rfl : db = {} := hinitial
    exact fun pilot hpilot => by cases hpilot
  · cases hstep
    exact PilotDb.Submission.transition hinv (PilotOperation.transition label.1 label.2 db)

theorem PilotDb.follows_of_leads (hleads : pilotStore.Leads anyStep db db') :
    db.Follows db' := by
  induction hleads with
  | refl => exact .refl db
  | step _ _ hstep ih =>
      cases hstep
      exact ih.trans (PilotOperation.transition _ _ _).follows

/-- A pilot that a call makes ready was submitted before the call. -/
theorem PilotDb.ready_after_call (h : pilotStore.Reachable anyStep db)
    (operation : PilotOperation) (now : Time) :
    ∀ later ∈ (operation.after now db).allocations.rows, later.state = .ready →
      ∃ pilot ∈ db.allocations.rows, pilot.id = later.id ∧
        (pilot.state = .ready ∨ pilot.state = .starting) ∧
        pilot.schedulerHandle.getD "" ≠ "" ∧ db.WasSubmitted pilot.id := by
  intro later hlater hready
  have hstep := operation.transition now db
  rcases hstep.origin later hlater with ⟨hstate, -⟩ |
    ⟨pilot, hpilot, mid, hchange, hid, hstate, -, -⟩
  · rw [hready] at hstate
    cases hstate
  · refine ⟨pilot, hpilot, (hid.trans hchange.keeps.1).symm, ?_⟩
    have hbefore : pilot.state = .ready ∨ pilot.state = .starting :=
      (hchange.ready (hstate.symm.trans hready)).imp_right And.left
    refine ⟨hbefore, ?_⟩
    cases submission_of_reachable h pilot hpilot with
    | none _ hstarting hnotReady => exact absurd hbefore (not_or.mpr ⟨hnotReady, hstarting⟩)
    | assigned hsome hwas => exact ⟨hsome, hwas⟩

/-- The life of a pilot goes forward only, in any interleaving of any calls: its state
does not fall, a pilot that drains takes no reservation, a terminated pilot stays so, and
a pilot becomes ready only after a handle was assigned. -/
theorem pilot_lifecycle (h : pilotStore.Reachable anyStep db)
    (hleads : pilotStore.Leads anyStep db db') :
    (∀ pilot ∈ db.allocations.rows, ∃ later ∈ db'.allocations.rows, later.id = pilot.id ∧
      pilot.state.rank ≤ later.state.rank ∧
      (pilot.state = .terminated → later.state = .terminated)) ∧
    (∀ pilot ∈ db.allocations.rows, PilotState.draining.rank ≤ pilot.state.rank →
      ∀ row ∈ db'.reservations.rows, row.pilotId = pilot.id →
        ∃ old ∈ db.reservations.rows, old.id = row.id ∧ old.pilotId = row.pilotId ∧
          (row.state = .active → old = row)) ∧
    ∀ operation now, ∀ later ∈ (PilotOperation.after now operation db').allocations.rows,
      later.state = .ready → ∃ pilot ∈ db'.allocations.rows, pilot.id = later.id ∧
        (pilot.state = .ready ∨ pilot.state = .starting) ∧
        pilot.schedulerHandle.getD "" ≠ "" ∧ db'.WasSubmitted pilot.id := by
  have hfollows := PilotDb.follows_of_leads hleads
  refine ⟨fun pilot hpilot => ?_, hfollows.reservations,
    PilotDb.ready_after_call (hleads.reachable h)⟩
  obtain ⟨later, hlater, hid, hrank⟩ := hfollows.pilots pilot hpilot
  refine ⟨later, hlater, hid, hrank, fun hterminated => ?_⟩
  rw [hterminated] at hrank
  exact PilotState.terminated_of_rank hrank

end Runs

/-- The pilot is released, found idle and terminated. -/
def samplePilotEnd : List (PilotOperation × Time) :=
  [(.release 1, 2000000), (.reconcile samplePilotProfile, 90000000),
    (.markTerminated 0 "scheduler-confirmed", 91000000)]

theorem pilot_lifecycle_terminated :
    (pilotStore.after (fun _ _ => true)
      (pilotStore.after (fun _ _ => true) {} samplePilotCalls)
        samplePilotEnd).allocations.rows.map PilotAllocation.state = [.terminated] ∧
    ∀ pilot ∈ (pilotStore.after (fun _ _ => true) {} samplePilotCalls).allocations.rows,
      ∃ later ∈ (pilotStore.after (fun _ _ => true)
          (pilotStore.after (fun _ _ => true) {} samplePilotCalls)
            samplePilotEnd).allocations.rows,
        later.id = pilot.id ∧ pilot.state.rank ≤ later.state.rank ∧
          (pilot.state = .terminated → later.state = .terminated) :=
  ⟨by decide, (pilot_lifecycle ((Reachable.initial rfl).after samplePilotCalls).unguarded
    (Leads.after _ _ samplePilotEnd).unguarded).1⟩

end QhpcEcosystem
