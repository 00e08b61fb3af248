/-
The choice of a pilot for a reservation.  `_reconcile` decides with datetimes which
pilots stay ready and the query of `reserve` decides with texts which of them it
takes.  The two agree unless the clock shows a whole second.
-/
import QhpcEcosystem.PilotCapacity

namespace QhpcEcosystem

open PilotStore

/-- A ready pilot of the profile and the target with a free place. -/
def PilotProfile.Offers (profile : PilotProfile) (request : TaskRequest)
    (pilot : PilotAllocation) : Prop :=
  pilot.profileId = profile.id ∧ pilot.profileVersion = profile.version ∧
    pilot.profileDigest = profile.digest ∧ pilot.executionTarget = request.executionTarget ∧
    pilot.state = .ready ∧ pilot.reserved < pilot.capacity

instance (profile : PilotProfile) (request : TaskRequest) (pilot : PilotAllocation) :
    Decidable (profile.Offers request pilot) := by
  unfold PilotProfile.Offers
  infer_instance

/-- The texts of the expiration and of the heartbeat follow their instants, beside the
two instants that the query compares them with. -/
def PilotProfile.Legible (profile : PilotProfile) (now : Time) (pilot : PilotAllocation) : Prop :=
  WrittenAlike (now + timedelta profile.drainBeforeExpirySeconds) pilot.expiresAt ∧
    ∀ heartbeat, pilot.lastHeartbeatAt = some heartbeat →
      WrittenAlike heartbeat (now - timedelta profile.healthTimeoutSeconds)

section Selection

variable {profile : PilotProfile} {request : TaskRequest} {now : Time} {pilot : PilotAllocation}

/-- A pilot that stays ready has reported lately and expires late enough. -/
theorem drainReason_eq_none (h : drainReason profile now pilot = none) :
    (∃ heartbeat, pilot.lastHeartbeatAt = some heartbeat ∧
      (now : Int) - timedelta profile.healthTimeoutSeconds ≤ heartbeat) ∧
    (now : Int) + timedelta profile.drainBeforeExpirySeconds < pilot.expiresAt := by
  unfold drainReason at h
  split at h
  · cases h
  · next hheartbeat =>
      split at h
      · cases h
      · next hexpiry =>
          constructor
          · cases hlast : pilot.lastHeartbeatAt with
            | none => simp [hlast] at hheartbeat
            | some heartbeat =>
                have hlate : ¬ timedelta profile.healthTimeoutSeconds < (now : Int) - heartbeat := by
                  simpa [hlast] using hheartbeat
                exact ⟨heartbeat, rfl, by omega⟩
          · omega

/-- The condition of the query on a pilot that has reported. -/
theorem usable_of_heartbeat {heartbeat : Time} (hlast : pilot.lastHeartbeatAt = some heartbeat) :
    usable profile request now pilot = true ↔ profile.Offers request pilot ∧
      timestampLt (now + timedelta profile.drainBeforeExpirySeconds) pilot.expiresAt = true ∧
      timestampLt heartbeat (now - timedelta profile.healthTimeoutSeconds) = false := by
  -- the last report as an integer, for whatever it is compared with
  have hany : ∀ test : Int → Bool,
      Option.any test (do let last ← some heartbeat; pure (last : Int)) = test heartbeat :=
    fun _ => rfl
  rw [usable, hlast, hany]
  simp only [PilotProfile.Offers, Bool.and_eq_true, decide_eq_true_eq, Bool.not_eq_true', and_assoc]

/-- Among the pilots that stay ready, the query takes those whose texts follow the
instants. -/
theorem usable_iff (hkept : drainReason profile now pilot = none) :
    usable profile request now pilot = true ↔
      profile.Offers request pilot ∧ profile.Legible now pilot := by
  obtain ⟨⟨heartbeat, hlast, hrecent⟩, hexpires⟩ := drainReason_eq_none hkept
  have hexpiry : timestampLt (now + timedelta profile.drainBeforeExpirySeconds) pilot.expiresAt =
      true ↔ WrittenAlike (now + timedelta profile.drainBeforeExpirySeconds) pilot.expiresAt := by
    rw [← timestampLt_iff]
    exact (iff_true_right hexpires).symm
  have hheartbeat : timestampLt heartbeat (now - timedelta profile.healthTimeoutSeconds) = false ↔
      WrittenAlike heartbeat (now - timedelta profile.healthTimeoutSeconds) := by
    rw [← timestampLt_iff, ← Bool.not_eq_true]
    exact (iff_false_right (Int.not_lt.mpr hrecent)).symm
  have hlegible : profile.Legible now pilot ↔
      WrittenAlike (now + timedelta profile.drainBeforeExpirySeconds) pilot.expiresAt ∧
      WrittenAlike heartbeat (now - timedelta profile.healthTimeoutSeconds) := by
    simp only [PilotProfile.Legible, hlast, Option.some.injEq, forall_eq']
  rw [usable_of_heartbeat hlast, hlegible, hexpiry, hheartbeat]

end Selection

theorem PilotAllocation.Change.profileId_eq {row row' : PilotAllocation}
    (h : PilotAllocation.Change row row') : row'.profileId = row.profileId := by
  cases h <;> rfl

namespace PilotDb

open TransitionSystem

variable {db mid : PilotDb} {profile : PilotProfile} {request : TaskRequest}
  {requirePilot : Bool} {now : Time} {pilot : PilotAllocation}

/-- The identifiers of reservations were drawn before. -/
theorem reservation_ids (hreach : pilotStore.Reachable anyStep db) :
    ∀ row ∈ db.reservations.rows, row.id < db.uuids := by
  refine hreach.invariant (fun db => ∀ row ∈ db.reservations.rows, row.id < db.uuids)
    (fun db hinitial => ?_) fun db label db' _ hids _ hstep => ?_
  · obtain rfl : db = {} := hinitial
    intro row hrow
    cases hrow
  · cases hstep
    have htransition := PilotOperation.transition label.1 label.2 db
    generalize label.1.after label.2 db = db' at htransition
    cases htransition with
    | quiet => exact hids
    | requested _ _ _ _ _ _ hreservations huuids _ =>
        rw [hreservations, huuids]
        exact fun row hrow => Nat.lt_succ_of_lt (hids row hrow)
    | rewritten hrewrites _ _ =>
        rw [hrewrites.reservations, hrewrites.uuids]
        exact hids
    | reserved _ _ _ _ _ hid _ _ _ _ hreservations huuids _ =>
        rw [hreservations, huuids]
        intro row hrow
        rcases List.mem_append.mp hrow with hold | hnew
        · exact Nat.lt_succ_of_lt (hids row hold)
        · rw [List.mem_singleton.mp hnew, hid]
          exact Nat.lt_succ_self _
    | @released _ reservation time _ _ _ hreservations huuids _ =>
        rw [hreservations, huuids, Table.rows_update]
        intro row hrow
        obtain ⟨old, hold, rfl⟩ := List.mem_map.mp hrow
        have hkey := (RowUpdate.forKey reservation.id (PilotReservation.release time)).key_apply old
        exact hkey.trans_lt (hids old hold)

theorem rewrites_of_reconcileProfile (hreconcile : reconcileProfile profile now db = (.ok (), mid)) :
    ∃ f, db.Rewrites mid f ∧ ∀ row ∈ db.allocations.rows,
      PilotAllocation.Change row (f.apply row) ∧
      (f.apply row).schedulerHandle = row.schedulerHandle ∧
      (row.profileId = profile.id → Reconciled profile now row (f.apply row)) := by
  obtain ⟨next, f, hloop, hrewrites, hrows⟩ := reconcileProfile_rewrites db profile now
  obtain rfl : mid = next := congrArg Prod.snd (hreconcile.symm.trans hloop)
  exact ⟨f, hrewrites, hrows⟩

/-- The pilots that are offered after a reconciliation are those that had no reason to be
drained. -/
theorem offered_iff (hreconcile : reconcileProfile profile now db = (.ok (), mid)) :
    pilot ∈ mid.allocations.rows ∧ profile.Offers request pilot ↔
      pilot ∈ db.allocations.rows ∧ profile.Offers request pilot ∧
        drainReason profile now pilot = none := by
  obtain ⟨f, hrewrites, hrows⟩ := rewrites_of_reconcileProfile hreconcile
  rw [hrewrites.allocations]
  constructor
  · rintro ⟨hmem, hoffers⟩
    obtain ⟨row, hrow, rfl⟩ := List.mem_map.mp hmem
    obtain ⟨hchange, -, hreconciled⟩ := hrows row hrow
    have hprofile : row.profileId = profile.id := hchange.profileId_eq ▸ hoffers.1
    obtain ⟨hready, hkept⟩ := (hreconciled hprofile).ready hoffers.2.2.2.2.1
    have hsame := (hreconciled hprofile).kept hready hkept
    rw [hsame] at hoffers ⊢
    exact ⟨hrow, hoffers, hkept⟩
  · rintro ⟨hmem, hoffers, hkept⟩
    have hsame := ((hrows pilot hmem).2.2 hoffers.1).kept hoffers.2.2.2.2.1 hkept
    exact ⟨List.mem_map.mpr ⟨pilot, hmem, hsame⟩, hoffers⟩

/-- The query takes a pilot when there is one that it can use. -/
theorem reservePilot_of_usable (requirePilot : Bool)
    (hids : ∀ row ∈ db.reservations.rows, row.id < db.uuids)
    (hfree : ∀ row ∈ db.reservations.rows, row.state = .active →
      row.attemptId ≠ request.attemptId)
    (hreconcile : reconcileProfile profile now db = (.ok (), mid))
    (husable : ∃ pilot ∈ mid.allocations.rows, usable profile request now pilot = true) :
    ∃ pilot ∈ mid.allocations.rows, usable profile request now pilot = true ∧ ∃ db',
      reservePilot profile request requirePilot now db =
        (.ok ⟨"interactive-hpc-pilot", "ready-capacity", some pilot.id, some db.uuids⟩, db') := by
  obtain ⟨f, hrewrites, -⟩ := rewrites_of_reconcileProfile hreconcile
  obtain ⟨candidate, hcandidate, hgood⟩ := husable
  have hperm := List.perm_insertionSort readyBefore
    (mid.allocations.rows.filter (usable profile request now))
  have hmem : candidate ∈ (mid.allocations.rows.filter
      (usable profile request now)).insertionSort readyBefore :=
    hperm.mem_iff.mpr (List.mem_filter.mpr ⟨hcandidate, hgood⟩)
  obtain ⟨pilot, others, hsorted⟩ := List.exists_cons_of_ne_nil (List.ne_nil_of_mem hmem)
  obtain ⟨hpilot, hchosen⟩ := List.mem_filter.mp
    (hperm.mem_iff.mp (hsorted ▸ List.mem_cons_self))
  have hplace : pilot.state = .ready ∧ pilot.reserved < pilot.capacity := by
    simp only [usable, Bool.and_eq_true, decide_eq_true_eq] at hchosen
    exact ⟨hchosen.1.1.1.2, hchosen.1.1.2⟩
  have hfresh : ∀ row : PilotReservation, row.attemptId = request.attemptId → row.id = db.uuids →
      ∃ inserted, (mid.updatePilot pilot.id (PilotAllocation.reserve now)).insertReservation?
        row = some inserted := by
    intro row hattempt hid
    have hnone : mid.reservations.row? (Keyed.key row) = none := by
      rw [hrewrites.reservations, Table.row?_eq_none_iff]
      intro old hold hsame
      exact Nat.ne_of_lt (hids old hold) (hsame.trans hid)
    obtain ⟨rows, hrows⟩ := Table.insert?_isSome hnone
    have hother : ¬ (mid.reservations.rows.any fun old =>
        old.state = .active ∧ row.state = .active ∧ old.attemptId = row.attemptId) = true := by
      rw [hrewrites.reservations, List.any_eq_true]
      rintro ⟨old, hold, hclash⟩
      obtain ⟨hactive, -, hsame⟩ := of_decide_eq_true hclash
      exact hfree old hold hactive (hsame.trans hattempt)
    unfold insertReservation?
    rw [show (mid.updatePilot pilot.id (PilotAllocation.reserve now)).reservations =
      mid.reservations from rfl, if_neg hother, hrows]
    exact ⟨_, rfl⟩
  refine ⟨pilot, hpilot, hchosen, ?_⟩
  obtain ⟨inserted, hinserted⟩ := hfresh {
    id := db.uuids
    pilotId := pilot.id
    runId := request.runId
    nodeId := request.nodeId
    attemptId := request.attemptId
    createdAt := now } rfl rfl
  have huuids : (mid.updatePilot pilot.id (PilotAllocation.reserve now)).uuids = db.uuids :=
    hrewrites.uuids
  simp only [reservePilot, hreconcile, hsorted, List.head?_cons, if_pos hplace, huuids]
  rw [hinserted]
  exact ⟨_, rfl⟩

theorem reservePilot_of_unusable (requirePilot : Bool)
    (hreconcile : reconcileProfile profile now db = (.ok (), mid))
    (hunusable : ∀ pilot ∈ mid.allocations.rows, usable profile request now pilot = false) :
    reservePilot profile request requirePilot now db =
      (profile.fallbackTo "no-ready-capacity" requirePilot, mid) := by
  have hnone : mid.allocations.rows.filter (usable profile request now) = [] :=
    List.filter_eq_nil_iff.mpr fun pilot hpilot => by simp [hunusable pilot hpilot]
  simp [reservePilot, hreconcile, hnone]

/-- What a reservation should do with the pilots that a reconciliation leaves. -/
structure FindsCapacity (db mid : PilotDb) (profile : PilotProfile) (request : TaskRequest)
    (requirePilot : Bool) (now : Time) : Prop where
  reserves : (∃ pilot ∈ mid.allocations.rows, profile.Offers request pilot) →
    ∃ pilot ∈ mid.allocations.rows, profile.Offers request pilot ∧ ∃ reservationId db',
      transaction (PilotStore.reserve profile request requirePilot now) db =
        (.ok ⟨"interactive-hpc-pilot", "ready-capacity", some pilot.id, some reservationId⟩, db')
  fallsBack : (transaction (PilotStore.reserve profile request requirePilot now) db).1 =
      profile.fallbackTo "no-ready-capacity" requirePilot →
    ¬ ∃ pilot ∈ mid.allocations.rows, profile.Offers request pilot
  selected : ∀ pilot ∈ mid.allocations.rows, usable profile request now pilot = true →
    pilot ∈ db.allocations.rows ∧ drainReason profile now pilot = none

/-- A fallback is no decision for a pilot. -/
theorem fallbackTo_ne {reason : String} {pilotId reservationId : Uuid} :
    profile.fallbackTo reason requirePilot ≠
      .ok ⟨"interactive-hpc-pilot", "ready-capacity", some pilotId, some reservationId⟩ := by
  unfold PilotProfile.fallbackTo
  split
  · intro heq
    cases heq
  · intro heq
    have hclass : "batch-hpc" = "interactive-hpc-pilot" :=
      congrArg PilotDecision.executionClass (Except.ok.inj heq)
    exact absurd hclass (by decide)

theorem usable_offers (h : usable profile request now pilot = true) :
    profile.Offers request pilot := by
  simp only [usable, Bool.and_eq_true, decide_eq_true_eq, and_assoc] at h
  exact ⟨h.1, h.2.1, h.2.2.1, h.2.2.2.1, h.2.2.2.2.1, h.2.2.2.2.2.1⟩

/-- An eligible request goes to the query. -/
theorem reserve_eq (requirePilot : Bool) (now : Time) (hactive : profile.activeProfile = .ok ())
    (htarget : request.executionTarget = profile.executionTarget)
    (heligible : profile.ineligible request = none) (db : PilotDb) :
    PilotStore.reserve profile request requirePilot now db =
      reservePilot profile request requirePilot now db := by
  simp [PilotStore.reserve, hactive, htarget, heligible]

/-- A reservation finds a pilot whenever one is offered exactly when the texts of one of
the offered pilots, if there are any, follow their instants. -/
theorem reserve_finds_capacity (hreach : pilotStore.Reachable anyStep db)
    (hactive : profile.activeProfile = .ok ())
    (htarget : request.executionTarget = profile.executionTarget)
    (heligible : profile.ineligible request = none)
    (hfree : ∀ row ∈ db.reservations.rows, row.state = .active →
      row.attemptId ≠ request.attemptId)
    (hreconcile : reconcileProfile profile now db = (.ok (), mid)) :
    FindsCapacity db mid profile request requirePilot now ↔
      ((∃ pilot ∈ db.allocations.rows, profile.Offers request pilot ∧
          drainReason profile now pilot = none) →
        ∃ pilot ∈ db.allocations.rows, profile.Offers request pilot ∧
          drainReason profile now pilot = none ∧ profile.Legible now pilot) := by
  have hids := reservation_ids hreach
  have hreserve := reserve_eq requirePilot now hactive htarget heligible
    db
  -- either the query takes a pilot, or the call falls back
  have hcases : (∃ pilot ∈ mid.allocations.rows, usable profile request now pilot = true ∧ ∃ db',
        transaction (PilotStore.reserve profile request requirePilot now) db =
          (.ok ⟨"interactive-hpc-pilot", "ready-capacity", some pilot.id, some db.uuids⟩, db')) ∨
      ((∀ pilot ∈ mid.allocations.rows, usable profile request now pilot = false) ∧
        (transaction (PilotStore.reserve profile request requirePilot now) db).1 =
          profile.fallbackTo "no-ready-capacity" requirePilot) := by
    by_cases husable : ∃ pilot ∈ mid.allocations.rows, usable profile request now pilot = true
    · obtain ⟨pilot, hpilot, hchosen, db', hresult⟩ :=
        reservePilot_of_usable requirePilot hids hfree hreconcile husable
      refine .inl ⟨pilot, hpilot, hchosen, db', ?_⟩
      rw [transaction, hreserve, hresult]
    · have hunusable : ∀ pilot ∈ mid.allocations.rows,
          usable profile request now pilot = false := by
        intro pilot hpilot
        by_contra hchosen
        exact husable ⟨pilot, hpilot, by simpa using hchosen⟩
      refine .inr ⟨hunusable, ?_⟩
      have hresult := reservePilot_of_unusable requirePilot hreconcile hunusable
      rw [transaction, hreserve, hresult]
      cases profile.fallbackTo "no-ready-capacity" requirePilot <;> rfl
  have hselected : ∀ pilot ∈ mid.allocations.rows, usable profile request now pilot = true →
      pilot ∈ db.allocations.rows ∧ profile.Offers request pilot ∧
        drainReason profile now pilot = none :=
    fun pilot hpilot hchosen => (offered_iff hreconcile).mp ⟨hpilot, usable_offers hchosen⟩
  constructor
  · rintro hfinds ⟨pilot, hpilot, hoffers, hkept⟩
    have hoffered := (offered_iff hreconcile).mpr ⟨hpilot, hoffers, hkept⟩
    rcases hcases with ⟨chosen, hmem, hchosen, -⟩ | ⟨-, hfallback⟩
    · obtain ⟨hstored, hchosenOffers, hchosenKept⟩ := hselected chosen hmem hchosen
      exact ⟨chosen, hstored, hchosenOffers, hchosenKept,
        ((usable_iff hchosenKept).mp hchosen).2⟩
    · exact absurd ⟨pilot, hoffered⟩ (hfinds.fallsBack hfallback)
  · intro hlegible
    have hnone (hunusable : ∀ pilot ∈ mid.allocations.rows,
        usable profile request now pilot = false) :
        ¬ ∃ pilot ∈ mid.allocations.rows, profile.Offers request pilot := by
      rintro ⟨pilot, hoffered⟩
      obtain ⟨chosen, hstored, hoffers, hkept, htexts⟩ :=
        hlegible ⟨pilot, (offered_iff hreconcile).mp hoffered⟩
      have hmem := ((offered_iff hreconcile).mpr ⟨hstored, hoffers, hkept⟩).1
      have htaken := (usable_iff hkept).mpr ⟨hoffers, htexts⟩
      rw [hunusable chosen hmem] at htaken
      cases htaken
    refine ⟨fun hoffered => ?_, fun hfallback => ?_, fun pilot hpilot hchosen => ?_⟩
    · rcases hcases with ⟨chosen, hmem, hchosen, db', hresult⟩ | ⟨hunusable, -⟩
      · exact ⟨chosen, hmem, usable_offers hchosen, db.uuids, db', hresult⟩
      · exact absurd hoffered (hnone hunusable)
    · rcases hcases with ⟨chosen, -, -, db', hresult⟩ | ⟨hunusable, -⟩
      · rw [hresult] at hfallback
        exact absurd hfallback.symm fallbackTo_ne
      · exact hnone hunusable
    · obtain ⟨hstored, -, hkept⟩ := hselected pilot hpilot hchosen
      exact ⟨hstored, hkept⟩

end PilotDb

/-! ## A ready pilot at a whole second -/

/-- A pilot that expires half a second after a whole second. -/
def halfSecondPilot : PilotDb :=
  pilotStore.after (fun _ _ => true) {}
    [(.requestAllocation samplePilotProfile "user" Table.empty, 500000),
      (.assignSchedulerHandle 0 "51001", 500000), (.markReady 0, 3299000001)]

/-- The state of that pilot after a reconciliation. -/
def halfSecondReconciled (now : Time) : PilotDb :=
  (reconcileProfile samplePilotProfile now halfSecondPilot).2

theorem halfSecondPilot_reachable :
    pilotStore.Reachable TransitionSystem.anyStep halfSecondPilot :=
  ((TransitionSystem.Reachable.initial rfl).after _).unguarded

theorem reserve_finds_capacity_halfSecond :
    PilotDb.FindsCapacity halfSecondPilot (halfSecondReconciled 3299999999) samplePilotProfile
        (samplePilotRequest 7) false 3299999999 ↔
      ((∃ pilot ∈ halfSecondPilot.allocations.rows,
          samplePilotProfile.Offers (samplePilotRequest 7) pilot ∧
          drainReason samplePilotProfile 3299999999 pilot = none) →
        ∃ pilot ∈ halfSecondPilot.allocations.rows,
          samplePilotProfile.Offers (samplePilotRequest 7) pilot ∧
          drainReason samplePilotProfile 3299999999 pilot = none ∧
          samplePilotProfile.Legible 3299999999 pilot) :=
  PilotDb.reserve_finds_capacity halfSecondPilot_reachable rfl rfl (by decide) (by decide) rfl

/-- At the whole second 3300 the pilot, which expires at 3600.5, stays ready and the
reservation, which needs a pilot that expires after 3600, falls back. -/
theorem ready_pilot_refused :
    ¬ ∀ db mid : PilotDb, ∀ profile request requirePilot now,
      pilotStore.Reachable TransitionSystem.anyStep db → profile.activeProfile = .ok () →
      request.executionTarget = profile.executionTarget → profile.ineligible request = none →
      (∀ row ∈ db.reservations.rows, row.state = .active →
        row.attemptId ≠ request.attemptId) →
      reconcileProfile profile now db = (.ok (), mid) →
      PilotDb.FindsCapacity db mid profile request requirePilot now := by
  intro h
  have hreconcile : reconcileProfile samplePilotProfile 3300000000 halfSecondPilot =
      (.ok (), halfSecondReconciled 3300000000) := rfl
  have hfinds := h halfSecondPilot (halfSecondReconciled 3300000000) samplePilotProfile
    (samplePilotRequest 7) false 3300000000 halfSecondPilot_reachable rfl rfl (by decide)
    (by decide) hreconcile
  have hoffers : ∃ pilot ∈ (halfSecondReconciled 3300000000).allocations.rows,
      samplePilotProfile.Offers (samplePilotRequest 7) pilot := by decide
  have hresult := PilotDb.reservePilot_of_unusable false hreconcile
    (show ∀ pilot ∈ (halfSecondReconciled 3300000000).allocations.rows,
      usable samplePilotProfile (samplePilotRequest 7) 3300000000 pilot = false by decide)
  refine hfinds.fallsBack ?_ hoffers
  rw [transaction, PilotDb.reserve_eq false _ rfl rfl (by decide), hresult]
  rfl

end QhpcEcosystem
