/-
The cancellation of a run under its workers.  `cancel_run` does not select the
attempts that are being submitted, so it reaches every live attempt exactly
while it is not called between the submission intent and the recorded handle.
-/
import QhpcEcosystem.TaskChange
import QhpcEcosystem.WorkerPhases

namespace QhpcEcosystem

/-- No attempt of the run is being submitted. -/
def noSubmission (db : Db) (runId : Uuid) : Bool :=
  db.taskAttempts.rows.all fun attempt =>
    !(attempt.runId = runId && attempt.state = .submitting)

/-- No run is retried. -/
def noRetries (_ : Db) : Operation × Time → Bool
  | (.retryTask _ _, _) => false
  | _ => true

/-- No run is retried, and none is canceled while an attempt of it is being
submitted. -/
def cancelsOutsideSubmission (db : Db) : Operation × Time → Bool
  | (.retryTask _ _, _) => false
  | (.cancelRun runId, _) =>
      (db.run? runId).all fun run => run.state.terminal || noSubmission db runId
  | _ => true

theorem noRetries_of_cancelsOutsideSubmission {db : Db} {label : Operation × Time}
    (h : cancelsOutsideSubmission db label = true) : noRetries db label = true := by
  obtain ⟨operation, now⟩ := label
  cases operation with
  | retryTask runId nodeId => cases h
  | _ => rfl

theorem retriesSettled_of_noRetries {db : Db} {label : Operation × Time}
    (h : noRetries db label = true) : retriesSettled db label = true := by
  obtain ⟨operation, now⟩ := label
  cases operation with
  | retryTask runId nodeId => cases h
  | _ => rfl

/-- The cancellation has reached the live attempts of canceled runs. -/
def Db.CancellationReached (db : Db) : Prop :=
  ∀ attempt ∈ db.taskAttempts.rows, attempt.state.live = true → ∀ run,
    db.run? attempt.runId = some run → run.state = .canceled →
    attempt.state = .cancelRequested

/-- A worker can claim the attempt, or the expiry of its lease closes it or
makes it claimable. -/
def Db.Reconcilable (db : Db) (attempt : Attempt) : Prop :=
  db.Claimable attempt ∨ ∃ expires, attempt.leaseExpiresAt = some expires ∧
    ∀ now, lapsed now (some expires) = true → ∃ swept ∈ (resetExpiredLeases db now).taskAttempts.rows,
      swept.id = attempt.id ∧
        (swept.state = .canceled ∨ (resetExpiredLeases db now).Claimable swept)

/-- The selection of `cancel_run` applies to a run that has not ended. -/
theorem cancelRun_after {db : Db} (now : Time) {runId : Uuid} {run : Run}
    (hrun : db.run? runId = some run) (hlive : run.state.terminal = false) :
    db.Changes (.cancelRun runId now) ((Operation.cancelRun runId).after now db) := by
  cases hok : cancelRun db now runId with
  | error _ => simp [cancelRun, hrun, hlive] at hok
  | ok db' =>
      obtain ⟨found, hfound, ⟨hterminal, -⟩ | ⟨-, hchanges⟩⟩ := cancelRun_ok hok
      · obtain rfl := Option.some.inj (hrun.symm.trans hfound)
        simp [hlive] at hterminal
      · simpa [Operation.after, perform, hok, Except.map] using hchanges

/-- The expiry of the lease of a canceled attempt closes it or makes it
claimable. -/
theorem Db.Integrity.sweep_reconciles {db : Db} (h : db.Integrity) (hcurrent : db.Current)
    {attempt : Attempt} (hattempt : attempt ∈ db.taskAttempts.rows)
    (hrequested : attempt.state = .cancelRequested)
    (hstates : attempt.LeaseStates) {run : Run} (hrun : db.run? attempt.runId = some run)
    (hcanceled : run.state = .canceled) {expires now : Time}
    (hexpires : attempt.leaseExpiresAt = some expires)
    (hlapsed : lapsed now (some expires) = true) :
    ∃ swept ∈ (resetExpiredLeases db now).taskAttempts.rows, swept.id = attempt.id ∧
      (swept.state = .canceled ∨ (resetExpiredLeases db now).Claimable swept) := by
  obtain ⟨task, htask, -⟩ := h.attemptTask attempt hattempt
  obtain ⟨hnumber, -⟩ := hcurrent attempt hattempt (by rw [hrequested]; rfl) task htask
  obtain ⟨htaskRun, htaskNode⟩ := Db.place_of_task? htask
  have hfound := h.numberedAttempt?_eq hattempt
  have hexpired : db.expiredLease? now task =
      some ⟨task, .canceled, some attempt⟩ := by
    rw [← htaskRun] at hrun hfound
    rw [← htaskNode, hnumber] at hfound
    simp [Db.expiredLease?, hrun, hfound, hcanceled, hexpires, hlapsed, hrequested]
  have hchanges := resetExpiredLeases_changes db now
  have hmem : (db.sweepAttempt now).apply attempt ∈
      (resetExpiredLeases db now).taskAttempts.rows :=
    hchanges.mem_attempts.mpr (.inl ⟨attempt, hattempt, rfl⟩)
  refine ⟨_, hmem, Attempt.apply_id _ _, ?_⟩
  have hswept : (db.sweepAttempt now).apply attempt =
      ((ExpiredLease.expiry ⟨task, .canceled, some attempt⟩).attemptUpdate now).apply
        attempt := by
    simp [Db.sweepAttempt, Db.expiredAttempt?, htask, hexpired, Option.filter]
  by_cases hhandle : attempt.targetHandle = none
  · refine .inl ?_
    rw [hswept]
    simp [ExpiredLease.expiry, hhandle, Expiry.attemptUpdate, Attempt.closeCanceled]
  · -- the handle is kept, so the attempt can be claimed to cancel its job
    have hexpiry : ExpiredLease.expiry ⟨task, .canceled, some attempt⟩ = .keepTarget := by
      simp [ExpiredLease.expiry, hhandle, Option.isSome_iff_ne_none]
    refine .inr ((h.sweep now).claimable hmem ?_)
    have hafter := hstates.sweep hattempt now
    rw [hswept, hexpiry] at hafter ⊢
    refine hafter.unleased ?_ rfl
    have hstate : (((Expiry.attemptUpdate now .keepTarget)).apply attempt).state =
        attempt.state := rfl
    rw [hstate, hrequested]
    rfl

namespace Workers

variable {ι : Type} [DecidableEq ι] {profile : ι → WorkerProfile} {s : Workers ι}

theorem cancellationReached (h : (workerSystem profile).Reachable
    (fun s label => s.lifted profile cancelsOutsideSubmission label = true) s) :
    s.db.CancellationReached := by
  refine db_invariant Db.CancellationReached (fun _ hattempt => by cases hattempt)
    ?_ h
  intro s label now operation hreach hinv hguard hop hcaller attempt' hattempt' hlive'
    run' hrun' hcanceled'
  have htransition := operation.transition now s.db
  have htokens := tokens hreach
  obtain ⟨run, hrun, hwas⟩ := htransition.run_canceled hrun' hcanceled'
  obtain ⟨attempt, hattempt, hid, hchange⟩ | hadded :=
    htransition.attemptChanges.new attempt' hattempt'
  · have hlive := hchange.live htokens hlive'
    obtain ⟨-, hattemptRun, -⟩ := hchange.keeps
    rw [hattemptRun] at hrun hwas
    rcases hwas with hcanceled | ⟨rfl, hopen⟩
    · have hrequested := hinv attempt hattempt hlive run hrun hcanceled
      have hswept : ((s.db.sweepAttempt now).apply attempt).state.live =
          true → ((s.db.sweepAttempt now).apply attempt).state = attempt.state := by
        intro hlive
        simp only [Db.sweepAttempt] at hlive ⊢
        split at hlive
        · next expired _ =>
            cases hexpiry : expired.expiry <;> simp only [hexpiry] at hlive ⊢
            · cases hlive
            · rfl
            · cases hlive
        · rfl
      cases hchange with
      | kept => exact hrequested
      | renewed _ => exact hrequested
      | marked _ hstate => simp [hrequested] at hstate
      | recorded _ _ => simp [Attempt.submit, hrequested]
      | @observed lease state metadata _ target hholds _ =>
          -- a worker observes a job only while no cancellation is requested
          obtain ⟨worker, hworker⟩ := hcaller.resolve_left (by simp [Operation.isClient])
          obtain ⟨work, handle, status, hpc, rfl⟩ := Pc.call_recordTargetStatus hworker
          have hmatches := held_matches hreach worker work.lease (by rw [hpc]; rfl)
            attempt hattempt hholds.token
          rw [hpc] at hmatches
          exact absurd hrequested hmatches.2
      | released _ => exact hrequested
      | markedCanceled _ => cases hlive'
      | completed _ _ _ _ => cases hlive'
      | failed _ _ _ _ => cases hlive'
      | @expired _ _ _ _ expired hexpired =>
          have hsame := hswept
          simp only [Db.sweepAttempt, hexpired] at hsame
          rw [hsame hlive', hrequested]
      | recovered hrecoverable =>
          have hsame := hswept (Attempt.live_of_recoverable _ hrecoverable)
          exact hsame.trans hrequested
      | requested _ _ _ =>
          simp only [Attempt.requestCancel]
          split <;> rfl
    · -- the run is canceled now: its live attempts are selected
      have hchanges := cancelRun_after now hrun hopen
      obtain ⟨old, hold, rfl⟩ | hnew := hchanges.mem_attempts.mp hattempt'
      · have hsame : old = attempt := by
          apply s.db.taskAttempts.eq_of_key_eq hold hattempt
          rw [Attempt.apply_id] at hid
          exact hid
        subst hsame
        simp only [Effect.cancelRun, RowUpdate.onlyIf_apply]
        split
        · simp only [Attempt.requestCancel]
          split <;> rfl
        · next hselected =>
            simp only [lifted, hop, Option.all_some, cancelsOutsideSubmission, hrun, hopen,
              Bool.false_or, noSubmission, List.all_eq_true, Bool.not_eq_true'] at hguard
            have hsubmitting := hguard old hattempt
            simp only [Attempt.selectedForCancel] at hselected
            cases hstate : old.state <;> simp_all [AttemptState.live]
      · cases hnew
  · cases hadded with
    | @started workerId leaseSeconds admission task hready =>
        obtain ⟨owner, howner, hlive, -⟩ := hready.run
        have hruns : (resetExpiredLeases s.db now).runs = s.db.runs :=
          (others_foldl_expireLease now
            (s.db.tasks.rows.filterMap (s.db.expiredLease? now)) s.db).1
        have howner : s.db.run? task.runId = some owner := by
          rw [Db.run?, ← hruns]
          exact howner
        have hrun : s.db.run? task.runId = some run := hrun
        obtain rfl := Option.some.inj (howner.symm.trans hrun)
        rcases hwas with hcanceled | ⟨hcancel, -⟩
        · simp [hcanceled, RunState.live] at hlive
        · cases hcancel

/-- While no run is canceled during a submission, the cancellation of a run
reaches every live attempt: the attempt waits for its cancellation until it
ends, and a worker or the expiry of its lease can end it. -/
theorem cancellation_reaches (h : (workerSystem profile).Reachable
    (fun s label => s.lifted profile cancelsOutsideSubmission label = true) s) :
    (∀ attempt ∈ s.db.taskAttempts.rows, attempt.state.live = true → ∀ run,
      s.db.run? attempt.runId = some run → run.state = .canceled →
      attempt.state = .cancelRequested ∧ s.db.Reconcilable attempt) ∧
    ∀ label s', s.lifted profile cancelsOutsideSubmission label = true →
      s.step profile label = some s' → ∀ attempt ∈ s.db.taskAttempts.rows,
      attempt.state.live = true → ∀ run, s.db.run? attempt.runId = some run →
      run.state = .canceled → ∃ attempt' ∈ s'.db.taskAttempts.rows,
        attempt'.id = attempt.id ∧
          (attempt'.state = .cancelRequested ∨ attempt'.state.live = false) := by
  refine ⟨?_, ?_⟩
  · intro attempt hattempt hlive run hrun hcanceled
    have hrequested := cancellationReached h attempt hattempt hlive run hrun hcanceled
    have hintegrity := integrity h
    have hstates := leaseStates h attempt hattempt
    have hcurrent : s.db.Current := engine_current
      ((engine_reachable_lifted h).weaken fun _ _ hguard =>
        retriesSettled_of_noRetries (noRetries_of_cancelsOutsideSubmission hguard))
    refine ⟨hrequested, ?_⟩
    by_cases htoken : attempt.leaseToken = none
    · exact .inl (hintegrity.claimable hattempt (hstates.unleased hlive htoken))
    · obtain ⟨expires, hexpires⟩ := Option.ne_none_iff_exists'.mp (hstates.expires htoken)
      exact .inr ⟨expires, hexpires, fun now hlapsed => hintegrity.sweep_reconciles hcurrent
        hattempt hrequested hstates hrun hcanceled hexpires hlapsed⟩
  · intro label s' hguard hstep attempt hattempt hlive run hrun hcanceled
    have hreached := cancellationReached (h.step hguard hstep)
    obtain hdb | ⟨operation, now, hop, -, hdb⟩ := db_step hstep
    · refine ⟨attempt, by rw [hdb]; exact hattempt, rfl, .inl ?_⟩
      exact cancellationReached h attempt hattempt hlive run hrun hcanceled
    · have htransition := operation.transition now s.db
      rw [← hdb] at htransition
      obtain ⟨attempt', hattempt', hid, hchange⟩ :=
        htransition.attemptChanges.old attempt hattempt
      obtain ⟨-, hattemptRun, -⟩ := hchange.keeps
      obtain ⟨run', hrun', hcanceled'⟩ := htransition.run_stays_canceled (canceledRuns h) hrun
        hcanceled (by
          rintro nodeId rfl
          simp [lifted, hop, cancelsOutsideSubmission] at hguard)
      refine ⟨attempt', hattempt', hid, ?_⟩
      by_cases hlive' : attempt'.state.live = true
      · exact .inl (hreached attempt' hattempt' hlive' run' (by rw [hattemptRun, hrun'])
          hcanceled')
      · exact .inr (by simpa using hlive')

/-- A run that is canceled while a worker holds its leased attempt. -/
def canceledLease : List (WorkerLabel (Fin 2)) :=
  clientSteps sampleSubmission ++ engineSteps 0 1 2 ++ [.client (.cancelRun 0) 3]

theorem cancellation_reaches_lease :
    let profile := sampleProfile .async
    let s := (workerSystem profile).after
      (fun s => s.lifted profile cancelsOutsideSubmission) {} canceledLease
    s.db.taskAttempts.rows.map Attempt.state = [.cancelRequested] ∧
      s.db.runs.rows.map Run.state = [.canceled] ∧
      ∀ attempt ∈ s.db.taskAttempts.rows, attempt.state.live = true → ∀ run,
        s.db.run? attempt.runId = some run → run.state = .canceled →
        attempt.state = .cancelRequested ∧ s.db.Reconcilable attempt := by
  refine ⟨by decide, by decide, ?_⟩
  exact (cancellation_reaches
    ((TransitionSystem.Reachable.initial rfl).after canceledLease)).1

/-- A run that is canceled while its job is being submitted. -/
def canceledSubmission : List (WorkerLabel (Fin 2)) :=
  clientSteps sampleSubmission ++ engineSteps 0 1 4 ++
    [.client (.cancelRun 0) 5, .submit 0, .runner 0 0 sampleJob] ++ engineSteps 0 6 2

/-- An attempt of a canceled run can go on as a submitted one. -/
theorem cancellation_misses_submission :
    ¬ ∀ s, (workerSystem (sampleProfile .async)).Reachable
        (fun s label => s.lifted (sampleProfile .async) noRetries label = true) s →
      s.db.CancellationReached := by
  intro h
  have hreached := h _ ((TransitionSystem.Reachable.initial rfl).after canceledSubmission)
  have hrows : (((workerSystem (sampleProfile .async)).after
      (fun s => s.lifted (sampleProfile .async) noRetries) {}
      canceledSubmission).db.taskAttempts.rows.map
        fun attempt => (attempt.runId, attempt.state)) = [(0, .submitted)] := by decide
  have hruns : ((((workerSystem (sampleProfile .async)).after
      (fun s => s.lifted (sampleProfile .async) noRetries) {}
      canceledSubmission).db.run? 0).map Run.state) = some .canceled := by decide
  obtain ⟨attempt, rest, hcons, hattempt, -⟩ := List.map_eq_cons_iff.mp hrows
  obtain ⟨run, hrun, hcanceled⟩ := Option.map_eq_some_iff.mp hruns
  simp only [Prod.mk.injEq] at hattempt
  have hrequested := hreached attempt (by rw [hcons]; exact List.mem_cons_self)
    (by rw [hattempt.2]; rfl) run (by rw [hattempt.1]; exact hrun) hcanceled
  rw [hattempt.2] at hrequested
  cases hrequested

end Workers

end QhpcEcosystem
