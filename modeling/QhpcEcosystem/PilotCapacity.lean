/-
The capacity of pilots.  The counter of an allocation is kept beside the reservations
that it counts; whatever the clients of the store do, and whenever a call is rolled
back, the two agree and the counter stays within the capacity.
-/
import QhpcEcosystem.PilotStore
import QhpcEcosystem.TransitionSystem

namespace QhpcEcosystem

open PilotStore

/-! ## The store as a system -/

/-- A call of a method of `PilotStore`.  The check of `heartbeat` runs outside of its
transaction, so its update may come after the operations of others. -/
inductive PilotOperation where
  | requestAllocation (profile : PilotProfile) (createdBy : String) (metadata : Metadata)
  | assignSchedulerHandle (pilotId : Uuid) (handle : String)
  | markReady (pilotId : Uuid)
  | heartbeat (pilotId : Uuid)
  | heartbeatUpdate (pilotId : Uuid)
  | reserve (profile : PilotProfile) (request : TaskRequest) (requirePilot : Bool)
  | release (reservationId : Uuid)
  | drain (pilotId : Uuid) (reason : String)
  | reconcile (profile : PilotProfile)
  | markTerminated (pilotId : Uuid) (reason : String)

/-- The database after a call. -/
def PilotOperation.after (now : Time) : PilotOperation → PilotDb → PilotDb
  | .requestAllocation profile createdBy metadata, db =>
      (transaction (PilotStore.requestAllocation profile createdBy metadata now) db).2
  | .assignSchedulerHandle pilotId handle, db =>
      (transaction (PilotStore.assignSchedulerHandle pilotId handle) db).2
  | .markReady pilotId, db => (transaction (PilotStore.markReady pilotId now) db).2
  | .heartbeat pilotId, db => (transaction (PilotStore.heartbeat pilotId now) db).2
  | .heartbeatUpdate pilotId, db => db.updatePilot pilotId (PilotAllocation.heartbeat now)
  | .reserve profile request requirePilot, db =>
      (transaction (PilotStore.reserve profile request requirePilot now) db).2
  | .release reservationId, db => (transaction (PilotStore.release reservationId now) db).2
  | .drain pilotId reason, db => (transaction (PilotStore.drain pilotId reason) db).2
  | .reconcile profile, db => (transaction (PilotStore.reconcile profile now) db).2
  | .markTerminated pilotId reason, db =>
      (transaction (PilotStore.markTerminated pilotId reason) db).2

/-- The store over an empty database. -/
def pilotStore : TransitionSystem PilotDb (PilotOperation × Time) where
  Initial db := db = {}
  step db label := some (label.1.after label.2 db)

/-! ## Changes of an allocation -/

/-- What an operation other than a reservation or a release does to an allocation. -/
inductive PilotAllocation.Change (row : PilotAllocation) : PilotAllocation → Prop
  | kept : Change row row
  | submitted {handle : String} : row.state = .requested ∨ row.state = .starting →
      isSchedulerHandle handle = true → Change row ((submit handle).apply row)
  | readied {now : Time} : row.state = .starting → row.schedulerHandle.getD "" ≠ "" →
      Change row ((PilotAllocation.markReady now).apply row)
  | beat {now : Time} : Change row ((heartbeat now).apply row)
  | drained : row.state ∉ [PilotState.draining, .terminationRequested, .terminated] →
      Change row (drain.apply row)
  | closed : row.state ∈ [PilotState.ready, .draining] → row.reserved = 0 →
      Change row (requestTermination.apply row)
  | terminated : row.reserved = 0 → Change row (terminate.apply row)

namespace PilotAllocation.Change

variable {row row' : PilotAllocation} (h : Change row row')

include h

theorem keeps : row'.id = row.id ∧ row'.reserved = row.reserved ∧
    row'.capacity = row.capacity := by
  cases h <;> exact ⟨rfl, rfl, rfl⟩

/-- A pilot is closed only when nothing is reserved. -/
theorem reserved_of_closed
    (hclosed : row'.state ∈ [PilotState.terminationRequested, .terminated]) :
    row.state ∈ [PilotState.terminationRequested, .terminated] ∨ row.reserved = 0 := by
  cases h with
  | kept | beat => exact .inl hclosed
  | submitted _ _ | readied _ _ | drained _ => simp [submit, markReady, drain] at hclosed
  | closed _ hzero | terminated hzero => exact .inr hzero

end PilotAllocation.Change

namespace PilotDb

/-- Every allocation is changed in place, reservations are left alone. -/
structure Rewrites (db db' : PilotDb) (f : RowUpdate PilotAllocation) : Prop where
  allocations : db'.allocations.rows = db.allocations.rows.map f.apply
  reservations : db'.reservations = db.reservations
  uuids : db'.uuids = db.uuids
  events : db.events <+: db'.events

/-- What a call can do to the database. -/
inductive Transition (db : PilotDb) : PilotDb → Prop
  | quiet : Transition db db
  | requested {db' : PilotDb} {pilot : PilotAllocation} : pilot.id = db.uuids →
      pilot.state = .requested → pilot.schedulerHandle = none → pilot.reserved = 0 →
      1 ≤ pilot.capacity → db'.allocations.rows = db.allocations.rows ++ [pilot] →
      db'.reservations = db.reservations → db'.uuids = db.uuids + 1 →
      db.events <+: db'.events → Transition db db'
  | rewritten {db' : PilotDb} {f : RowUpdate PilotAllocation} : db.Rewrites db' f →
      (∀ row ∈ db.allocations.rows, PilotAllocation.Change row (f.apply row)) →
      (∀ row ∈ db.allocations.rows, (f.apply row).schedulerHandle = row.schedulerHandle ∨
        ∃ event ∈ db'.events, event.pilotId = row.id ∧ event.eventType = "pilot.submitted") →
      Transition db db'
  | reserved {mid db' : PilotDb} {f : RowUpdate PilotAllocation} {pilot : PilotAllocation}
      {reservation : PilotReservation} {now : Time} : db.Rewrites mid f →
      (∀ row ∈ db.allocations.rows, PilotAllocation.Change row (f.apply row) ∧
        (f.apply row).schedulerHandle = row.schedulerHandle) →
      pilot ∈ mid.allocations.rows → pilot.state = .ready → pilot.reserved < pilot.capacity →
      reservation.id = db.uuids → reservation.pilotId = pilot.id →
      reservation.state = .active →
      (∀ old ∈ db.reservations.rows, old.state = .active →
        old.attemptId ≠ reservation.attemptId) →
      db'.allocations = mid.allocations.update pilot.id (PilotAllocation.reserve now) →
      db'.reservations.rows = db.reservations.rows ++ [reservation] →
      db'.uuids = db.uuids + 1 → mid.events <+: db'.events → Transition db db'
  | released {db' : PilotDb} {reservation : PilotReservation} {now : Time} :
      reservation ∈ db.reservations.rows → reservation.state = .active →
      db'.allocations =
        db.allocations.update reservation.pilotId (PilotAllocation.release now) →
      db'.reservations =
        db.reservations.update reservation.id (PilotReservation.release now) →
      db'.uuids = db.uuids → db.events <+: db'.events → Transition db db'

section Operations

variable {db db' : PilotDb} {pilotId : Uuid} {pilot : PilotAllocation} {now : Time}

theorem get_ok (h : db.get pilotId = .ok pilot) : db.allocations.row? pilotId = some pilot := by
  unfold get at h
  split at h <;> cases h
  assumption

theorem id_of_get (h : db.get pilotId = .ok pilot) : pilot.id = pilotId :=
  Table.key_of_row? (get_ok h)

theorem mem_of_get (h : db.get pilotId = .ok pilot) : pilot ∈ db.allocations.rows :=
  Table.mem_of_row? (get_ok h)

/-- An update of one allocation. -/
theorem Rewrites.update (db : PilotDb) (pilotId : Uuid) (f : RowUpdate PilotAllocation)
    (events : List PilotEvent) :
    db.Rewrites { db.updatePilot pilotId f with events := db.events ++ events }
      (.forKey pilotId f) :=
  ⟨Table.rows_update _ _ _, rfl, rfl, List.prefix_append _ _⟩

/-- A change of one allocation changes all of them. -/
theorem change_forKey {f : RowUpdate PilotAllocation} (hpilot : pilot ∈ db.allocations.rows)
    (hchange : PilotAllocation.Change pilot (f.apply pilot)) :
    ∀ row ∈ db.allocations.rows,
      PilotAllocation.Change row ((RowUpdate.forKey pilot.id f).apply row) := by
  intro row hrow
  rw [RowUpdate.forKey_apply]
  split
  · next hid =>
      rw [db.allocations.eq_of_key_eq hrow hpilot hid]
      exact hchange
  · exact .kept

theorem Rewrites.trans {next : PilotDb} {f g : RowUpdate PilotAllocation}
    (hfirst : db.Rewrites next f) (hsecond : next.Rewrites db' g) :
    db.Rewrites db' (f.andThen g) where
  allocations := by
    rw [hsecond.allocations, hfirst.allocations, List.map_map]
    rfl
  reservations := hsecond.reservations.trans hfirst.reservations
  uuids := hsecond.uuids.trans hfirst.uuids
  events := hfirst.events.trans hsecond.events

theorem Rewrites.mem {f : RowUpdate PilotAllocation} (h : db.Rewrites db' f)
    (hpilot : pilot ∈ db.allocations.rows) : f.apply pilot ∈ db'.allocations.rows := by
  rw [h.allocations]
  exact List.mem_map_of_mem hpilot

theorem Rewrites.refl (db : PilotDb) (pilotId : Uuid) :
    db.Rewrites db (.forKey pilotId .keep) := by
  refine ⟨?_, rfl, rfl, List.prefix_rfl⟩
  have hkeep : (RowUpdate.forKey pilotId RowUpdate.keep).apply =
      (id : PilotAllocation → PilotAllocation) := by
    funext row
    simp [RowUpdate.forKey_apply]
  rw [hkeep, List.map_id]

/-- The second half of a round closes a drained pilot without reservations. -/
theorem terminateDrained_rewrites (db : PilotDb) (pilot : PilotAllocation) :
    ∃ g, db.Rewrites (terminateDrained db pilot) (.forKey pilot.id g) ∧
      (g = .keep ∨ g = PilotAllocation.requestTermination ∧ pilot.state = .draining ∧
        pilot.reserved = 0) := by
  unfold terminateDrained
  split
  · next hdrained => exact ⟨_, Rewrites.update _ _ _ _, .inr ⟨rfl, hdrained⟩⟩
  · exact ⟨.keep, Rewrites.refl db pilot.id, .inl rfl⟩

/-- A ready pilot that has no reason to be drained is left alone, and only such a pilot is
ready afterwards. -/
structure Reconciled (profile : PilotProfile) (now : Time) (row row' : PilotAllocation) : Prop where
  kept : row.state = .ready → drainReason profile now row = none → row' = row
  ready : row'.state = .ready → row.state = .ready ∧ drainReason profile now row = none

/-- One round of the loop of `_reconcile` changes its pilot. -/
theorem reconcile_round {profile : PilotProfile} (hpilot : pilot ∈ db.allocations.rows) :
    ∃ next g, (∀ rest, reconcilePilots profile now (pilot :: rest) db =
        reconcilePilots profile now rest next) ∧
      db.Rewrites next (.forKey pilot.id g) ∧ PilotAllocation.Change pilot (g.apply pilot) ∧
      (g.apply pilot).schedulerHandle = pilot.schedulerHandle ∧
      Reconciled profile now pilot (g.apply pilot) := by
  cases hreason : if pilot.state = .ready then drainReason profile now pilot else none with
  | none =>
      obtain ⟨g, hrewrites, rfl | ⟨rfl, hdraining, hzero⟩⟩ := terminateDrained_rewrites db pilot
      · refine ⟨_, _, fun rest => by simp only [reconcilePilots, hreason], hrewrites, .kept, rfl,
          fun _ _ => rfl, fun hready => ⟨hready, ?_⟩⟩
        rwa [if_pos (show pilot.state = .ready from hready)] at hreason
      · refine ⟨_, _, fun rest => by simp only [reconcilePilots, hreason], hrewrites,
          .closed (by simp [hdraining]) hzero, rfl, fun hready _ => ?_, fun hready => ?_⟩
        · rw [hready] at hdraining
          cases hdraining
        · cases hready
  | some reason =>
      have hready : pilot.state = .ready := by
        by_contra hother
        rw [if_neg hother] at hreason
        cases hreason
      have hdrains : setDraining db pilot reason = (db.updatePilot pilot.id
          PilotAllocation.drain).event pilot.id "pilot.draining" none
            [("reason", .str reason)] := by
        simp [setDraining, hready]
      have hfound : (setDraining db pilot reason).get pilot.id =
          .ok (PilotAllocation.drain.apply pilot) := by
        have hrow : db.allocations.row? pilot.id = some pilot := Table.row?_of_mem hpilot
        simp [hdrains, get, updatePilot, event, hrow]
      have hfirst : db.Rewrites (setDraining db pilot reason)
          (.forKey pilot.id PilotAllocation.drain) := by
        rw [hdrains]
        exact Rewrites.update _ _ _ _
      obtain ⟨g, hsecond, hcases⟩ := terminateDrained_rewrites (setDraining db pilot reason)
        (PilotAllocation.drain.apply pilot)
      have hboth : db.Rewrites (terminateDrained (setDraining db pilot reason)
          (PilotAllocation.drain.apply pilot))
            (.forKey pilot.id (PilotAllocation.drain.andThen g)) := by
        have htrans := hfirst.trans hsecond
        refine ⟨?_, htrans.reservations, htrans.uuids, htrans.events⟩
        rw [htrans.allocations]
        refine List.map_congr_left fun row _ => ?_
        have hid : (PilotAllocation.drain.apply pilot).id = pilot.id := rfl
        by_cases hrow : Keyed.key row = pilot.id
        · simp [RowUpdate.forKey_apply, RowUpdate.key_apply, hrow, hid]
        · simp [RowUpdate.forKey_apply, hrow, hid]
      refine ⟨_, _, fun rest => by simp only [reconcilePilots, hreason, hfound], hboth, ?_⟩
      rw [if_pos hready] at hreason
      have hdrained : drainReason profile now pilot ≠ none := by
        rw [hreason]
        exact Option.some_ne_none reason
      rcases hcases with rfl | ⟨rfl, -, hzero⟩
      · exact ⟨.drained (by simp [hready]), rfl, fun _ hnone => absurd hnone hdrained,
          fun hstill => by cases hstill⟩
      · exact ⟨.closed (by simp [hready]) hzero, rfl, fun _ hnone => absurd hnone hdrained,
          fun hstill => by cases hstill⟩

/-- The loop of `_reconcile` changes its pilots and no other. -/
theorem reconcilePilots_rewrites (profile : PilotProfile) (now : Time)
    (pilots : List PilotAllocation)
    (hnodup : (pilots.map PilotAllocation.id).Nodup)
    (hpilots : ∀ pilot ∈ pilots, pilot ∈ db.allocations.rows) :
    ∃ db' f, reconcilePilots profile now pilots db = (.ok (), db') ∧ db.Rewrites db' f ∧
      ∀ row ∈ db.allocations.rows, PilotAllocation.Change row (f.apply row) ∧
        (f.apply row).schedulerHandle = row.schedulerHandle ∧
        (row.id ∉ pilots.map PilotAllocation.id → f.apply row = row) ∧
        (row.id ∈ pilots.map PilotAllocation.id → Reconciled profile now row (f.apply row)) := by
  induction pilots generalizing db with
  | nil =>
      refine ⟨db, _, rfl, Rewrites.refl db 0, fun row _ => ?_⟩
      have hkept : (RowUpdate.forKey 0 RowUpdate.keep).apply row = row := by
        rw [RowUpdate.forKey_apply]
        exact ite_self row
      rw [hkept]
      exact ⟨.kept, rfl, fun _ => rfl, fun hmem => by cases hmem⟩
  | cons pilot rest ih =>
      obtain ⟨hfresh, hrest⟩ := List.nodup_cons.mp hnodup
      have hpilot := hpilots pilot List.mem_cons_self
      obtain ⟨next, g, hround, hfirst, hchange, hhandle, hreconciled⟩ := reconcile_round hpilot
      have hother : ∀ row : PilotAllocation, row.id ≠ pilot.id →
          (RowUpdate.forKey pilot.id g).apply row = row := fun row hne => by
        rw [RowUpdate.forKey_apply]
        exact if_neg hne
      have hnext : ∀ other ∈ rest, other ∈ next.allocations.rows := fun other hmem => by
        rw [← hother other fun hid => hfresh (hid ▸ List.mem_map_of_mem hmem)]
        exact hfirst.mem (hpilots other (List.mem_cons_of_mem _ hmem))
      obtain ⟨db', f, hloop, hsecond, hrows⟩ := ih hrest hnext
      refine ⟨db', _, (hround rest).trans hloop, hfirst.trans hsecond, fun row hrow => ?_⟩
      rw [RowUpdate.andThen_apply]
      obtain ⟨hlater, hlaterHandle, hkept, hagain⟩ := hrows _ (hfirst.mem hrow)
      by_cases hid : row.id = pilot.id
      · obtain rfl := db.allocations.eq_of_key_eq hrow hpilot hid
        have happly : (RowUpdate.forKey row.id g).apply row = g.apply row := by
          rw [RowUpdate.forKey_apply]
          exact if_pos rfl
        rw [happly] at hkept ⊢
        rw [hkept (by rwa [show (g.apply row).id = row.id from g.key_apply row])]
        exact ⟨hchange, hhandle, fun hout => absurd List.mem_cons_self hout, fun _ => hreconciled⟩
      · rw [hother row hid] at hlater hlaterHandle hkept hagain ⊢
        exact ⟨hlater, hlaterHandle, fun hout => hkept fun hmem =>
          hout (List.mem_cons_of_mem _ hmem), fun hmem =>
          hagain ((List.mem_cons.mp hmem).resolve_left hid)⟩

/-- What `_reconcile` does. -/
theorem reconcileProfile_rewrites (db : PilotDb) (profile : PilotProfile) (now : Time) :
    ∃ db' f, reconcileProfile profile now db = (.ok (), db') ∧ db.Rewrites db' f ∧
      ∀ row ∈ db.allocations.rows, PilotAllocation.Change row (f.apply row) ∧
        (f.apply row).schedulerHandle = row.schedulerHandle ∧
        (row.profileId = profile.id → Reconciled profile now row (f.apply row)) := by
  have hnodup : ((db.allocations.rows.filter fun pilot => pilot.profileId = profile.id ∧
      pilot.state ∈ [PilotState.ready, .draining]).map PilotAllocation.id).Nodup :=
    (List.filter_sublist.map _).nodup db.allocations.nodup
  obtain ⟨db', f, hloop, hrewrites, hrows⟩ :=
    reconcilePilots_rewrites profile now _ hnodup
      fun pilot hpilot => (List.mem_filter.mp hpilot).1
  refine ⟨db', f, hloop, hrewrites, fun row hrow => ?_⟩
  obtain ⟨hchange, hhandle, hout, hin⟩ := hrows row hrow
  refine ⟨hchange, hhandle, fun hprofile => ?_⟩
  by_cases hstate : row.state ∈ [PilotState.ready, .draining]
  · exact hin (List.mem_map_of_mem (List.mem_filter.mpr ⟨hrow, by simp [hprofile, hstate]⟩))
  · -- the query leaves out pilots in other states
    have hsame : f.apply row = row := hout fun hmem => by
      obtain ⟨other, hother, hid⟩ := List.mem_map.mp hmem
      obtain ⟨hothermem, hfilter⟩ := List.mem_filter.mp hother
      obtain rfl := db.allocations.eq_of_key_eq hothermem hrow hid
      simp [hstate] at hfilter
    have hready : row.state ≠ .ready := fun hready => hstate (by simp [hready])
    rw [hsame]
    exact ⟨fun hstill => absurd hstill hready, fun hstill => absurd hstill hready⟩

/-- A call that raises leaves everything as it was. -/
theorem transition_of_body {α : Type} {body : PilotBody α}
    (h : ∀ value db', body db = (.ok value, db') → db.Transition db') :
    db.Transition (transaction body db).2 := by
  unfold transaction
  split
  · next value db' hbody => exact h value db' hbody
  · exact .quiet

/-- A change of one allocation that keeps its handle. -/
theorem transition_update {f : RowUpdate PilotAllocation} (hpilot : db.get pilotId = .ok pilot)
    (hchange : PilotAllocation.Change pilot (f.apply pilot))
    (hhandle : ∀ row, (f.apply row).schedulerHandle = row.schedulerHandle)
    (events : List PilotEvent) :
    db.Transition { db.updatePilot pilotId f with events := db.events ++ events } := by
  obtain rfl := id_of_get hpilot
  refine .rewritten (Rewrites.update db pilot.id f events)
    (change_forKey (mem_of_get hpilot) hchange) fun row _ => .inl ?_
  rw [RowUpdate.forKey_apply]
  split
  · exact hhandle row
  · rfl

theorem requestAllocation_transition {profile : PilotProfile} {createdBy : String}
    {metadata : Metadata} {value : Uuid}
    (h : requestAllocation profile createdBy metadata now db = (.ok value, db')) :
    db.Transition db' := by
  unfold requestAllocation at h
  split at h
  · cases h
  · split at h
    · cases h
    · next rows hrows =>
        cases h
        exact .requested rfl rfl rfl rfl profile.capacity_pos (Table.insert?_rows hrows) rfl rfl
          (List.prefix_append _ _)

theorem assignSchedulerHandle_transition {handle : String} {value : Unit}
    (h : assignSchedulerHandle pilotId handle db = (.ok value, db')) : db.Transition db' := by
  unfold assignSchedulerHandle at h
  split at h
  · cases h
  · next hvalid =>
      split at h
      · cases h
      · next pilot hpilot =>
          split at h
          · cases h
          · next hstate =>
              cases h
              obtain rfl := id_of_get hpilot
              refine .rewritten (Rewrites.update db pilot.id _ _)
                (change_forKey (mem_of_get hpilot) (.submitted (by simpa using not_not.mp hstate)
                  (by simpa using hvalid))) fun row _ => ?_
              rw [RowUpdate.forKey_apply]
              split
              · next hid =>
                  exact .inr ⟨_, List.mem_append_right _ (List.mem_singleton_self _), hid.symm,
                    rfl⟩
              · exact .inl rfl

theorem markReady_transition {value : Unit}
    (h : PilotStore.markReady pilotId now db = (.ok value, db')) : db.Transition db' := by
  unfold PilotStore.markReady at h
  split at h
  · cases h
  · next pilot hpilot =>
      split at h
      · cases h
      · next hready =>
          cases h
          obtain ⟨hstate, hhandle⟩ := not_or.mp hready
          exact transition_update hpilot (.readied (not_not.mp hstate) hhandle) (fun _ => rfl) _

/-- The update of a heartbeat, whenever its check was made. -/
theorem heartbeatUpdate_transition (db : PilotDb) (pilotId : Uuid) (now : Time) :
    db.Transition (db.updatePilot pilotId (PilotAllocation.heartbeat now)) := by
  refine .rewritten ⟨Table.rows_update _ _ _, rfl, rfl, List.prefix_rfl⟩ (fun row _ => ?_)
    fun row _ => .inl ?_
  · rw [RowUpdate.forKey_apply]
    split
    · exact .beat
    · exact .kept
  · rw [RowUpdate.forKey_apply]
    split <;> rfl

theorem heartbeat_transition {value : Unit}
    (h : PilotStore.heartbeat pilotId now db = (.ok value, db')) : db.Transition db' := by
  unfold PilotStore.heartbeat at h
  split at h
  · cases h
  · split at h
    · cases h
    · cases h
      exact heartbeatUpdate_transition db pilotId now

theorem drain_transition {reason : String} {value : Unit}
    (h : PilotStore.drain pilotId reason db = (.ok value, db')) : db.Transition db' := by
  unfold PilotStore.drain at h
  split at h
  · cases h
  · next pilot hpilot =>
      cases h
      unfold setDraining
      split
      · exact .quiet
      · next hopen =>
          obtain rfl := id_of_get hpilot
          exact transition_update hpilot (.drained hopen) (fun _ => rfl) _

theorem markTerminated_transition {reason : String} {value : Unit}
    (h : markTerminated pilotId reason db = (.ok value, db')) : db.Transition db' := by
  unfold markTerminated at h
  split at h
  · cases h
  · next pilot hpilot =>
      split at h
      · cases h
      · next hzero =>
          cases h
          exact transition_update hpilot (.terminated (not_not.mp hzero)) (fun _ => rfl) _

theorem reconcile_transition {profile : PilotProfile} {value : Unit}
    (h : reconcile profile now db = (.ok value, db')) : db.Transition db' := by
  unfold reconcile at h
  split at h
  · cases h
  · obtain ⟨next, f, hloop, hrewrites, hrows⟩ := reconcileProfile_rewrites db profile now
    rw [hloop] at h
    cases h
    exact .rewritten hrewrites (fun row hrow => (hrows row hrow).1)
      fun row hrow => .inl (hrows row hrow).2.1

theorem release_transition {reservationId : Uuid} {value : Unit}
    (h : PilotStore.release reservationId now db = (.ok value, db')) : db.Transition db' := by
  unfold PilotStore.release at h
  split at h
  · cases h
  · next reservation hreservation =>
      split at h
      · cases h
        exact .quiet
      · next hactive =>
          cases h
          obtain rfl : reservation.id = reservationId := Table.key_of_row? hreservation
          refine .released (Table.mem_of_row? hreservation) ?_ rfl rfl rfl
            (List.prefix_append _ _)
          cases hstate : reservation.state with
          | active => rfl
          | released => exact absurd hstate hactive

/-- A reservation follows a reconciliation and takes a place of a ready pilot. -/
theorem reservePilot_transition {profile : PilotProfile} {request : TaskRequest}
    {requirePilot : Bool} {value : PilotDecision}
    (h : reservePilot profile request requirePilot now db = (.ok value, db')) :
    db.Transition db' := by
  obtain ⟨mid, f, hloop, hrewrites, hrows⟩ := reconcileProfile_rewrites db profile now
  unfold reservePilot at h
  rw [hloop] at h
  have hreconciled : db.Transition mid := .rewritten hrewrites
    (fun row hrow => (hrows row hrow).1) fun row hrow => .inl (hrows row hrow).2.1
  dsimp only at h
  split at h
  · obtain ⟨-, rfl⟩ := Prod.mk.inj h
    exact hreconciled
  · next pilot hpilot =>
      split at h
      · next hready =>
          split at h
          · cases h
          · next inserted hinserted =>
              cases h
              have hmem : pilot ∈ mid.allocations.rows := by
                have hhead := List.mem_of_mem_head? hpilot
                rw [(List.perm_insertionSort _ _).mem_iff] at hhead
                exact (List.mem_filter.mp hhead).1
              unfold insertReservation? at hinserted
              split at hinserted
              · cases hinserted
              · next hfree =>
                  obtain ⟨rows, hinsert, rfl⟩ := Option.map_eq_some_iff.mp hinserted
                  have hstored := Table.insert?_rows hinsert
                  have huuids : mid.uuids = db.uuids := hrewrites.uuids
                  have hsame : (mid.updatePilot pilot.id
                      (PilotAllocation.reserve now)).reservations = db.reservations :=
                    hrewrites.reservations
                  rw [hsame] at hstored hfree
                  refine .reserved hrewrites
                    (fun row hrow => ⟨(hrows row hrow).1, (hrows row hrow).2.1⟩)
                    hmem hready.1 hready.2 huuids ?_ ?_ ?_ rfl
                    hstored (congrArg (· + 1) huuids) (List.prefix_append _ _)
                  · rfl
                  · rfl
                  · intro old hold hactive hattempt
                    exact hfree (List.any_eq_true.mpr ⟨old, hold, by simp [hactive, hattempt]⟩)
      · obtain ⟨-, rfl⟩ := Prod.mk.inj h
        exact hreconciled

theorem reserve_transition {profile : PilotProfile} {request : TaskRequest}
    {requirePilot : Bool} {value : PilotDecision}
    (h : PilotStore.reserve profile request requirePilot now db = (.ok value, db')) :
    db.Transition db' := by
  unfold PilotStore.reserve at h
  split at h
  · cases h
  · split at h
    · obtain ⟨-, rfl⟩ := Prod.mk.inj h
      exact .quiet
    · split at h
      · obtain ⟨-, rfl⟩ := Prod.mk.inj h
        exact .quiet
      · exact reservePilot_transition h

end Operations

end PilotDb

/-- What a call can do. -/
theorem PilotOperation.transition (operation : PilotOperation) (now : Time) (db : PilotDb) :
    db.Transition (operation.after now db) := by
  cases operation with
  | heartbeatUpdate pilotId => exact PilotDb.heartbeatUpdate_transition db pilotId now
  | requestAllocation profile createdBy metadata =>
      exact PilotDb.transition_of_body fun _ _ h => PilotDb.requestAllocation_transition h
  | assignSchedulerHandle pilotId handle =>
      exact PilotDb.transition_of_body fun _ _ h => PilotDb.assignSchedulerHandle_transition h
  | markReady pilotId =>
      exact PilotDb.transition_of_body fun _ _ h => PilotDb.markReady_transition h
  | heartbeat pilotId =>
      exact PilotDb.transition_of_body fun _ _ h => PilotDb.heartbeat_transition h
  | reserve profile request requirePilot =>
      exact PilotDb.transition_of_body fun _ _ h => PilotDb.reserve_transition h
  | release reservationId =>
      exact PilotDb.transition_of_body fun _ _ h => PilotDb.release_transition h
  | drain pilotId reason =>
      exact PilotDb.transition_of_body fun _ _ h => PilotDb.drain_transition h
  | reconcile profile =>
      exact PilotDb.transition_of_body fun _ _ h => PilotDb.reconcile_transition h
  | markTerminated pilotId reason =>
      exact PilotDb.transition_of_body fun _ _ h => PilotDb.markTerminated_transition h

/-! ## Counters -/

/-- The number of active reservations of a pilot. -/
def PilotDb.activeCount (db : PilotDb) (pilotId : Uuid) : Nat :=
  db.reservations.rows.countP fun row => row.pilotId = pilotId ∧ row.state = .active

/-- Counters agree with the reservations that they count, and a closed pilot has none. -/
structure PilotDb.Exact (db : PilotDb) : Prop where
  counted : ∀ pilot ∈ db.allocations.rows, pilot.reserved = db.activeCount pilot.id
  bounded : ∀ pilot ∈ db.allocations.rows, pilot.reserved ≤ pilot.capacity
  closed : ∀ pilot ∈ db.allocations.rows,
    pilot.state ∈ [PilotState.terminationRequested, .terminated] → pilot.reserved = 0
  attempts : ∀ row ∈ db.reservations.rows, ∀ other ∈ db.reservations.rows,
    row.state = .active → other.state = .active → row.attemptId = other.attemptId → row = other
  ids : ∀ pilot ∈ db.allocations.rows, pilot.id < db.uuids
  pilots : ∀ row ∈ db.reservations.rows, row.pilotId < db.uuids

namespace PilotDb.Exact

variable {db db' : PilotDb}

theorem empty : ({} : PilotDb).Exact :=
  ⟨fun _ h => (by cases h), fun _ h => (by cases h), fun _ h => (by cases h),
    fun _ h => (by cases h), fun _ h => (by cases h), fun _ h => (by cases h)⟩

variable (h : db.Exact)

include h

/-- Changes in place keep the counters. -/
theorem rewrites {f : RowUpdate PilotAllocation} (hrewrites : db.Rewrites db' f)
    (hchange : ∀ row ∈ db.allocations.rows, PilotAllocation.Change row (f.apply row)) :
    db'.Exact := by
  have hcount : ∀ pilotId, db'.activeCount pilotId = db.activeCount pilotId := fun pilotId => by
    rw [activeCount, activeCount, hrewrites.reservations]
  have hcases : ∀ pilot ∈ db'.allocations.rows, ∃ row ∈ db.allocations.rows,
      pilot = f.apply row ∧ PilotAllocation.Change row pilot := by
    intro pilot hpilot
    rw [hrewrites.allocations] at hpilot
    obtain ⟨row, hrow, rfl⟩ := List.mem_map.mp hpilot
    exact ⟨row, hrow, rfl, hchange row hrow⟩
  refine ⟨?_, ?_, ?_, ?_, ?_, ?_⟩
  · intro pilot hpilot
    obtain ⟨row, hrow, -, hstep⟩ := hcases pilot hpilot
    obtain ⟨hid, hreserved, -⟩ := hstep.keeps
    rw [hreserved, hid, hcount, h.counted row hrow]
  · intro pilot hpilot
    obtain ⟨row, hrow, -, hstep⟩ := hcases pilot hpilot
    obtain ⟨-, hreserved, hcapacity⟩ := hstep.keeps
    rw [hreserved, hcapacity]
    exact h.bounded row hrow
  · intro pilot hpilot hclosed
    obtain ⟨row, hrow, -, hstep⟩ := hcases pilot hpilot
    rw [hstep.keeps.2.1]
    rcases hstep.reserved_of_closed hclosed with hbefore | hzero
    · exact h.closed row hrow hbefore
    · exact hzero
  · rw [hrewrites.reservations]
    exact h.attempts
  · intro pilot hpilot
    obtain ⟨row, hrow, -, hstep⟩ := hcases pilot hpilot
    rw [hstep.keeps.1, hrewrites.uuids]
    exact h.ids row hrow
  · rw [hrewrites.reservations, hrewrites.uuids]
    exact h.pilots

/-- A new allocation has no reservations. -/
theorem requested {pilot : PilotAllocation} (hid : pilot.id = db.uuids)
    (hstate : pilot.state = .requested) (hzero : pilot.reserved = 0)
    (hcapacity : 1 ≤ pilot.capacity)
    (hallocations : db'.allocations.rows = db.allocations.rows ++ [pilot])
    (hreservations : db'.reservations = db.reservations) (huuids : db'.uuids = db.uuids + 1) :
    db'.Exact := by
  have hcount : ∀ pilotId, db'.activeCount pilotId = db.activeCount pilotId := fun pilotId => by
    rw [activeCount, activeCount, hreservations]
  have hnone : db.activeCount pilot.id = 0 := by
    refine List.countP_eq_zero.mpr fun row hrow hsame => ?_
    have hbelow := h.pilots row hrow
    rw [(of_decide_eq_true hsame).1, hid] at hbelow
    exact lt_irrefl _ hbelow
  have hcases : ∀ other ∈ db'.allocations.rows, other ∈ db.allocations.rows ∨ other = pilot := by
    intro other hother
    rw [hallocations, List.mem_append, List.mem_singleton] at hother
    exact hother
  refine ⟨?_, ?_, ?_, ?_, ?_, ?_⟩
  · intro other hother
    rw [hcount]
    rcases hcases other hother with hold | rfl
    · exact h.counted other hold
    · rw [hnone, hzero]
      rfl
  · intro other hother
    rcases hcases other hother with hold | rfl
    · exact h.bounded other hold
    · omega
  · intro other hother hclosed
    rcases hcases other hother with hold | rfl
    · exact h.closed other hold hclosed
    · exact hzero
  · rw [hreservations]
    exact h.attempts
  · intro other hother
    rw [huuids]
    rcases hcases other hother with hold | rfl
    · exact (h.ids other hold).trans (Nat.lt_succ_self _)
    · rw [hid]
      exact Nat.lt_succ_self _
  · intro row hrow
    rw [hreservations] at hrow
    rw [huuids]
    exact (h.pilots row hrow).trans (Nat.lt_succ_self _)

/-- A reservation takes a free place of a ready pilot for an attempt that has none. -/
theorem reserved {pilot : PilotAllocation} {reservation : PilotReservation} {now : Time}
    (hpilot : pilot ∈ db.allocations.rows) (hready : pilot.state = .ready)
    (hfree : pilot.reserved < pilot.capacity)
    (hpilotId : reservation.pilotId = pilot.id) (hactive : reservation.state = .active)
    (hattempts : ∀ old ∈ db.reservations.rows, old.state = .active →
      old.attemptId ≠ reservation.attemptId)
    (hallocations :
      db'.allocations = db.allocations.update pilot.id (PilotAllocation.reserve now))
    (hreservations : db'.reservations.rows = db.reservations.rows ++ [reservation])
    (huuids : db'.uuids = db.uuids + 1) : db'.Exact := by
  have hcount : ∀ pilotId, db'.activeCount pilotId =
      db.activeCount pilotId + if pilot.id = pilotId then 1 else 0 := fun pilotId => by
    simp [activeCount, hreservations, List.countP_cons, hpilotId, hactive]
  have hcases : ∀ other ∈ db'.allocations.rows, ∃ row ∈ db.allocations.rows,
      (row.id ≠ pilot.id ∧ other = row) ∨
        row = pilot ∧ other = (PilotAllocation.reserve now).apply row := by
    intro other hother
    rw [hallocations, Table.rows_update] at hother
    obtain ⟨row, hrow, rfl⟩ := List.mem_map.mp hother
    refine ⟨row, hrow, ?_⟩
    rw [RowUpdate.forKey_apply]
    split
    · next hid => exact .inr ⟨db.allocations.eq_of_key_eq hrow hpilot hid, rfl⟩
    · next hid => exact .inl ⟨hid, rfl⟩
  have hmem : ∀ row ∈ db'.reservations.rows, row ∈ db.reservations.rows ∨ row = reservation := by
    intro row hrow
    rw [hreservations, List.mem_append, List.mem_singleton] at hrow
    exact hrow
  refine ⟨?_, ?_, ?_, ?_, ?_, ?_⟩
  · intro other hother
    rw [hcount]
    obtain ⟨row, hrow, ⟨hid, rfl⟩ | ⟨rfl, rfl⟩⟩ := hcases other hother
    · have hne : ¬ pilot.id = other.id := fun heq => hid heq.symm
      rw [h.counted other hrow, if_neg hne]
      rfl
    · have hcounted := h.counted row hrow
      simp only [PilotAllocation.reserve, ↓reduceIte]
      omega
  · intro other hother
    obtain ⟨row, hrow, ⟨-, rfl⟩ | ⟨rfl, rfl⟩⟩ := hcases other hother
    · exact h.bounded other hrow
    · simp only [PilotAllocation.reserve]
      omega
  · intro other hother hclosed
    obtain ⟨row, hrow, ⟨-, rfl⟩ | ⟨rfl, rfl⟩⟩ := hcases other hother
    · exact h.closed other hrow hclosed
    · simp [PilotAllocation.reserve, hready] at hclosed
  · intro row hrow other hother hrowActive hotherActive hattempt
    rcases hmem row hrow with hold | rfl
    · rcases hmem other hother with hold' | rfl
      · exact h.attempts row hold other hold' hrowActive hotherActive hattempt
      · exact absurd hattempt (hattempts row hold hrowActive)
    · rcases hmem other hother with hold' | rfl
      · exact absurd hattempt.symm (hattempts other hold' hotherActive)
      · rfl
  · intro other hother
    rw [huuids]
    obtain ⟨row, hrow, ⟨-, rfl⟩ | ⟨rfl, rfl⟩⟩ := hcases other hother
    · exact (h.ids other hrow).trans (Nat.lt_succ_self _)
    · exact (h.ids row hrow).trans (Nat.lt_succ_self _)
  · intro row hrow
    rw [huuids]
    rcases hmem row hrow with hold | rfl
    · exact (h.pilots row hold).trans (Nat.lt_succ_self _)
    · rw [hpilotId]
      exact (h.ids pilot hpilot).trans (Nat.lt_succ_self _)

/-- A release gives the place of an active reservation back. -/
theorem released {reservation : PilotReservation} {now : Time}
    (hreservation : reservation ∈ db.reservations.rows) (hactive : reservation.state = .active)
    (hallocations : db'.allocations =
      db.allocations.update reservation.pilotId (PilotAllocation.release now))
    (hreservations : db'.reservations =
      db.reservations.update reservation.id (PilotReservation.release now))
    (huuids : db'.uuids = db.uuids) : db'.Exact := by
  have hcount : ∀ pilotId, db'.activeCount pilotId +
      (if reservation.pilotId = pilotId then 1 else 0) = db.activeCount pilotId := by
    intro pilotId
    have hupdate := db.reservations.countP_update hreservation (PilotReservation.release now)
      fun row => row.pilotId = pilotId ∧ row.state = .active
    rw [show (Keyed.key reservation : Uuid) = reservation.id from rfl] at hupdate
    rw [activeCount, hreservations, activeCount]
    simpa [hactive, PilotReservation.release] using hupdate
  have hcases : ∀ other ∈ db'.allocations.rows, ∃ row ∈ db.allocations.rows,
      (row.id ≠ reservation.pilotId ∧ other = row) ∨
        row.id = reservation.pilotId ∧ other = (PilotAllocation.release now).apply row := by
    intro other hother
    rw [hallocations, Table.rows_update] at hother
    obtain ⟨row, hrow, rfl⟩ := List.mem_map.mp hother
    refine ⟨row, hrow, ?_⟩
    rw [RowUpdate.forKey_apply]
    split
    · next hid => exact .inr ⟨hid, rfl⟩
    · next hid => exact .inl ⟨hid, rfl⟩
  -- the counter was positive, so that the clamp does nothing
  have hrelease : ∀ row ∈ db.allocations.rows, row.id = reservation.pilotId →
      1 ≤ row.reserved ∧
        ((PilotAllocation.release now).apply row).reserved = db'.activeCount row.id := by
    intro row hrow hid
    have hcounted := h.counted row hrow
    have hless := hcount row.id
    rw [if_pos hid.symm] at hless
    simp only [PilotAllocation.release]
    omega
  have hmem : ∀ row ∈ db'.reservations.rows, ∃ old ∈ db.reservations.rows,
      row.id = old.id ∧ row.pilotId = old.pilotId ∧ row.attemptId = old.attemptId ∧
        (row.state = .active → row = old) := by
    intro row hrow
    rw [hreservations, Table.rows_update] at hrow
    obtain ⟨old, hold, rfl⟩ := List.mem_map.mp hrow
    refine ⟨old, hold, ?_⟩
    rw [RowUpdate.forKey_apply]
    split
    · exact ⟨rfl, rfl, rfl, fun hstate => by cases hstate⟩
    · exact ⟨rfl, rfl, rfl, fun _ => rfl⟩
  refine ⟨?_, ?_, ?_, ?_, ?_, ?_⟩
  · intro other hother
    obtain ⟨row, hrow, ⟨hid, rfl⟩ | ⟨hid, rfl⟩⟩ := hcases other hother
    · have hsame := hcount other.id
      rw [if_neg fun heq => hid heq.symm] at hsame
      rw [h.counted other hrow, ← hsame]
      rfl
    · exact (hrelease row hrow hid).2
  · intro other hother
    obtain ⟨row, hrow, ⟨-, rfl⟩ | ⟨hid, rfl⟩⟩ := hcases other hother
    · exact h.bounded other hrow
    · have hbounded := h.bounded row hrow
      have hpositive := (hrelease row hrow hid).1
      simp only [PilotAllocation.release]
      omega
  · intro other hother hclosed
    obtain ⟨row, hrow, ⟨-, rfl⟩ | ⟨hid, rfl⟩⟩ := hcases other hother
    · exact h.closed other hrow hclosed
    · have hzero := h.closed row hrow hclosed
      have hpositive := (hrelease row hrow hid).1
      omega
  · intro row hrow other hother hrowActive hotherActive hattempt
    obtain ⟨old, hold, -, -, -, hkept⟩ := hmem row hrow
    obtain ⟨old', hold', -, -, -, hkept'⟩ := hmem other hother
    obtain rfl := hkept hrowActive
    obtain rfl := hkept' hotherActive
    exact h.attempts row hold other hold' hrowActive hotherActive hattempt
  · intro other hother
    rw [huuids]
    obtain ⟨row, hrow, ⟨-, rfl⟩ | ⟨-, rfl⟩⟩ := hcases other hother
    · exact h.ids other hrow
    · exact h.ids row hrow
  · intro row hrow
    obtain ⟨old, hold, -, hpilot, -⟩ := hmem row hrow
    rw [huuids, hpilot]
    exact h.pilots old hold

/-- No call breaks the agreement. -/
theorem transition (hstep : db.Transition db') : db'.Exact := by
  cases hstep with
  | quiet => exact h
  | requested hid hstate _ hzero hcapacity hallocations hreservations huuids _ =>
      exact h.requested hid hstate hzero hcapacity hallocations hreservations huuids
  | rewritten hrewrites hchange _ => exact h.rewrites hrewrites hchange
  | reserved hrewrites hchange hpilot hready hfree _ hpilotId hactive hattempts hallocations
      hreservations huuids _ =>
      have hmid := h.rewrites hrewrites fun row hrow => (hchange row hrow).1
      rw [← hrewrites.reservations] at hattempts hreservations
      rw [← hrewrites.uuids] at huuids
      exact hmid.reserved hpilot hready hfree hpilotId hactive hattempts hallocations
        hreservations huuids
  | released hreservation hactive hallocations hreservations huuids _ =>
      exact h.released hreservation hactive hallocations hreservations huuids

end PilotDb.Exact

open TransitionSystem in
/-- Counters agree with reservations in every run. -/
theorem PilotDb.exact_of_reachable {db : PilotDb} (hreach : pilotStore.Reachable anyStep db) :
    db.Exact := by
  refine hreach.invariant PilotDb.Exact (fun db hinitial => ?_) fun db label db' _ h _ hstep => ?_
  · obtain rfl : db = {} := hinitial
    exact PilotDb.Exact.empty
  · cases hstep
    exact h.transition (PilotOperation.transition label.1 label.2 db)

/-- A raised error leaves the database as it was. -/
theorem transaction_error {α : Type} {body : PilotBody α} {db db' : PilotDb} {error : Exn}
    (h : transaction body db = (.error error, db')) : db' = db := by
  unfold transaction at h
  split at h <;> cases h
  rfl

open TransitionSystem in
/-- The capacity of pilots is exact, in any interleaving of any calls. -/
theorem pilot_capacity_exact {db : PilotDb} (hreach : pilotStore.Reachable anyStep db) :
    (∀ pilot ∈ db.allocations.rows, pilot.reserved = db.activeCount pilot.id ∧
      0 ≤ pilot.reserved ∧ pilot.reserved ≤ pilot.capacity) ∧
    (∀ row ∈ db.reservations.rows, ∀ other ∈ db.reservations.rows,
      row.state = .active → other.state = .active → row.attemptId = other.attemptId →
        row = other) ∧
    (∀ pilot ∈ db.allocations.rows,
      pilot.state ∈ [PilotState.terminationRequested, .terminated] →
        ∀ row ∈ db.reservations.rows, row.pilotId = pilot.id → row.state ≠ .active) ∧
    ∀ profile request requirePilot now error db',
      transaction (PilotStore.reserve profile request requirePilot now) db = (.error error, db') →
        db'.allocations = db.allocations ∧ db'.reservations = db.reservations := by
  have hexact := PilotDb.exact_of_reachable hreach
  refine ⟨fun pilot hpilot => ?_, hexact.attempts, fun pilot hpilot hclosed row hrow hof => ?_, ?_⟩
  · have hcounted := hexact.counted pilot hpilot
    exact ⟨hcounted, by omega, hexact.bounded pilot hpilot⟩
  · have hnone : db.activeCount pilot.id = 0 := by
      have hcounted := hexact.counted pilot hpilot
      have hzero := hexact.closed pilot hpilot hclosed
      omega
    intro hactive
    exact List.countP_eq_zero.mp hnone row hrow (decide_eq_true ⟨hof, hactive⟩)
  · intro profile request requirePilot now error db' hraised
    rw [transaction_error hraised]
    exact ⟨rfl, rfl⟩

/-! ## A pilot with one place -/

def samplePilotProfile : PilotProfile where
  id := "qchem-pilot"
  version := "1.0.0"
  executionTarget := "cluster"
  status := .active
  evidence := ["measured"]
  account := some "project"
  capacity := 1
  maxLifetimeSeconds := 3600
  idleTimeoutSeconds := 60
  drainBeforeExpirySeconds := 300
  healthTimeoutSeconds := 30
  maxCpu := 4
  maxMemoryMb := 8192
  maxGpu := 0
  maxWalltimeSeconds := 900
  allowedOperations := ["qchem@1.0.0/energy"]
  runtimeDigests := ["sha256:runtime"]
  fallback := .batchHpc
  digest := "sha256:profile"
  capacity_pos := by decide

def samplePilotRequest (attemptId : Uuid) : TaskRequest where
  runId := 0
  nodeId := "energy"
  capabilityId := "qchem"
  capabilityVersion := "1.0.0"
  operationId := "energy"
  runtimeReference := "image.sif"
  runtimeDigest := "sha256:runtime"
  parameters := Table.empty
  inputs := Table.empty
  outputTypes := Table.empty
  workDirectory := []
  project := "project"
  attemptId := attemptId
  executionTarget := "cluster"
  executionClass := "batch-hpc"
  runtimeType := "apptainer"
  entrypoint := []
  arguments := []
  resources := Table.empty

/-- Two attempts for one place. -/
def samplePilotCalls : List (PilotOperation × Time) :=
  [(.requestAllocation samplePilotProfile "user" Table.empty, 0),
    (.assignSchedulerHandle 0 "51001", 0), (.markReady 0, 0),
    (.reserve samplePilotProfile (samplePilotRequest 7) false, 1000000),
    (.reserve samplePilotProfile (samplePilotRequest 8) false, 1000000)]

open TransitionSystem in
theorem pilot_capacity_exact_onePlace :
    (pilotStore.after (fun _ _ => true) {} samplePilotCalls).allocations.rows.map
      PilotAllocation.reserved = [1] ∧
    ∀ pilot ∈ (pilotStore.after (fun _ _ => true) {} samplePilotCalls).allocations.rows,
      pilot.reserved =
          (pilotStore.after (fun _ _ => true) {} samplePilotCalls).activeCount pilot.id ∧
        0 ≤ pilot.reserved ∧ pilot.reserved ≤ pilot.capacity :=
  ⟨by decide, (pilot_capacity_exact ((Reachable.initial rfl).after _).unguarded).1⟩

end QhpcEcosystem
