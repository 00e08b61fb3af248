/-
The end of a canceled attempt.  `mark_attempt_canceled` writes the row of the
task whatever has happened to it, so it is safe exactly while a retry cannot
overtake the cancellation of an attempt.
-/
import QhpcEcosystem.AttemptSuccession

namespace QhpcEcosystem

/-! ## Canceled runs -/

/-- A canceled run has no unfinished task. -/
def Db.CanceledRuns (db : Db) : Prop :=
  ∀ task ∈ db.tasks.rows, ∀ run, db.run? task.runId = some run → run.state = .canceled →
    task.state ≠ .pending ∧ task.state ≠ .running

namespace Db.CanceledRuns

variable {db db' : Db}

theorem rewrite (hintegrity : db.Integrity) {e : Effect} (hchanges : db.Changes e db')
    (hnew : e.newTasks = [])
    (hpair : ∀ task ∈ db.tasks.rows, ∀ run, db.run? task.runId = some run →
      (e.run.apply run).state = .canceled →
      (e.task.apply task).state ≠ .pending ∧ (e.task.apply task).state ≠ .running) :
    db'.CanceledRuns := by
  intro task htask run hrun hcanceled
  obtain ⟨old, hold, rfl⟩ | hadded := hchanges.mem_tasks.mp htask
  · obtain ⟨found, hfound⟩ := hintegrity.taskRun old hold
    rw [Task.apply_runId, hchanges.run?_some hfound] at hrun
    cases hrun
    exact hpair old hold found hfound hcanceled
  · simp [hnew] at hadded

variable (h : db.CanceledRuns)

include h

/-- A change that keeps the run and the states of the tasks. -/
theorem steady (hintegrity : db.Integrity) {e : Effect} (hchanges : db.Changes e db')
    (hnew : e.newTasks = []) (hrun : e.run = .keep)
    (htask : ∀ task, (e.task.apply task).state = task.state ∨
      (e.task.apply task).state ≠ .pending ∧ (e.task.apply task).state ≠ .running) :
    db'.CanceledRuns := by
  refine rewrite hintegrity hchanges hnew fun task hmem run hfound hcanceled => ?_
  rw [hrun] at hcanceled
  rcases htask task with hsame | hfinal
  · rw [hsame]
    exact h task hmem run hfound hcanceled
  · exact hfinal

theorem sweep (hintegrity : db.Integrity) (now : Time) :
    (resetExpiredLeases db now).CanceledRuns := by
  refine rewrite hintegrity (resetExpiredLeases_changes db now) rfl
    fun task htask run hrun hcanceled => ?_
  have hcanceled : run.state = .canceled := hcanceled
  obtain ⟨hpending, hrunning⟩ := h task htask run hrun hcanceled
  simp only [Effect.sweep, Db.sweepTask]
  split
  · next row hrow =>
      obtain ⟨found, hfound, -, hstate, -, -⟩ := expiredLease?_spec hrow
      rw [hrun] at hfound
      cases hfound
      -- a canceled run is closed or keeps its target, it is never reopened
      have hexpiry : row.expiry ≠ .reopen := by
        unfold ExpiredLease.expiry
        split
        · simp
        · next hopen =>
            split
            · simp
            · next htarget =>
                exfalso
                rw [hstate, hcanceled] at hopen
                cases hattempt : row.attempt with
                | none => simp [hattempt] at hopen
                | some attempt =>
                    cases hhandle : attempt.targetHandle <;>
                      simp [hattempt, hhandle] at hopen htarget
      cases hcase : row.expiry with
      | closeCanceled => exact ⟨hpending, hrunning⟩
      | keepTarget => exact ⟨hpending, hrunning⟩
      | reopen => exact absurd hcase hexpiry
  · exact ⟨hpending, hrunning⟩

theorem claims (hintegrity : db.Integrity) {now : Time} {workerId : String}
    {leaseSeconds : Int} {admission : Admission} {claimed : Option TaskLease}
    (hclaims : db.Claims now workerId leaseSeconds admission claimed db') :
    db'.CanceledRuns := by
  cases hclaims with
  | idle _ _ => exact h
  | @recovered row _ =>
      refine h.steady hintegrity (recoverAttempt_changes _ _ _ _ row.attempt) rfl rfl fun task => ?_
      simp only [Effect.recover, RowUpdate.forKey_apply]
      split <;> exact .inl rfl
  | @started started _ _ _ hready hlease =>
      obtain ⟨-, -, -, -, -, -, -, -, hchanges⟩ := leaseTask_ok hlease
      refine rewrite hintegrity hchanges rfl fun task htask run hrun hcanceled => ?_
      simp only [Effect.start, RowUpdate.forKey_apply] at hcanceled ⊢
      split at hcanceled
      · cases hcanceled
      · next helsewhere =>
          split
          · next hkey =>
              have hrunId := Db.id_of_run? hrun
              simp only [Task.key_eq, Prod.mk.injEq] at hkey
              exact absurd (hrunId.trans hkey.1) helsewhere
          · exact h task htask run hrun hcanceled

/-- Every operation keeps canceled runs finished. -/
theorem step (hintegrity : db.Integrity) {now : Time} {operation : Operation}
    (hstep : db.Transition now operation db') : db'.CanceledRuns := by
  cases hstep with
  | quiet hchanges => exact h.steady hintegrity hchanges rfl rfl fun _ => .inl rfl
  | @submitted _ _ _ _ row run tasks hsubmits _ hchanges =>
      intro task htask found hfound hcanceled
      obtain ⟨old, hold, rfl⟩ | hadded := hchanges.mem_tasks.mp htask
      · obtain ⟨owner, howner⟩ := hintegrity.taskRun old hold
        have hfound' := hchanges.run?_some howner
        rw [Task.apply_runId, hfound'] at hfound
        cases hfound
        exact h old hold owner howner hcanceled
      · obtain ⟨executionTarget, inputs, hrun⟩ := hsubmits.run_eq
        obtain ⟨_, _, _, _, _, _, htask⟩ := hsubmits.tasks_eq task hadded
        have hstored : db'.run? run.id = some run :=
          Table.row?_of_mem (hchanges.mem_runs.mpr (.inr List.mem_cons_self))
        rw [htask] at hfound
        have hfound : db'.run? run.id = some found := hfound
        rw [hstored] at hfound
        cases hfound
        rw [hrun] at hcanceled
        cases hcanceled
  | claimed hclaims => exact (h.sweep hintegrity now).claims (hintegrity.sweep now) hclaims
  | renewed _ hchanges =>
      refine h.steady hintegrity hchanges rfl rfl fun task => ?_
      simp only [Effect.ofToken, RowUpdate.onlyIf_apply]
      split <;> exact .inl rfl
  | marked _ _ hchanges => exact h.steady hintegrity hchanges rfl rfl fun _ => .inl rfl
  | recorded _ _ hchanges => exact h.steady hintegrity hchanges rfl rfl fun _ => .inl rfl
  | observed _ _ hchanges => exact h.steady hintegrity hchanges rfl rfl fun _ => .inl rfl
  | released _ hchanges =>
      refine h.steady hintegrity hchanges rfl rfl fun task => ?_
      simp only [Effect.ofToken, RowUpdate.onlyIf_apply]
      split <;> exact .inl rfl
  | markedCanceled _ hchanges =>
      refine h.steady hintegrity hchanges rfl rfl fun task => ?_
      simp only [Effect.finish, RowUpdate.forKey_apply]
      split
      · exact .inr ⟨by simp [Task.cancel], by simp [Task.cancel]⟩
      · exact .inl rfl
  | completed htask hrunning _ _ _ _ _ _ hfinished _ hchanges =>
      refine rewrite hintegrity hchanges rfl fun task hmem run hrun hcanceled => ?_
      have hcanceled : run.state = .canceled := by
        cases hfinished with
        | unfinished _ _ _ => exact hcanceled
        | finished _ _ _ =>
            simp only [Effect.complete, Effect.finish, RowUpdate.forKey_apply] at hcanceled
            split at hcanceled
            · cases hcanceled
            · exact hcanceled
      simp only [Effect.complete, Effect.finish, RowUpdate.forKey_apply]
      split
      · exact ⟨by simp [Task.succeed], by simp [Task.succeed]⟩
      · exact h task hmem run hrun hcanceled
  | failed _ _ _ _ hchanges =>
      refine rewrite hintegrity hchanges rfl fun task hmem run hrun hcanceled => ?_
      simp only [Effect.finish, RowUpdate.forKey_apply] at hcanceled ⊢
      split at hcanceled
      · cases hcanceled
      · split
        · exact ⟨by simp [Task.fail], by simp [Task.fail]⟩
        · exact h task hmem run hrun hcanceled
  | @runCanceled runId _ _ _ _ hchanges =>
      refine rewrite hintegrity hchanges rfl fun task hmem run hrun hcanceled => ?_
      simp only [Effect.cancelRun, RowUpdate.forKey_apply, RowUpdate.onlyIf_apply]
        at hcanceled ⊢
      split
      · exact ⟨by simp [Task.cancel], by simp [Task.cancel]⟩
      · next hopen =>
          split at hcanceled
          · next hid =>
              have htaskRun : task.runId = runId := (Db.id_of_run? hrun).symm.trans hid
              simpa [Task.unfinishedIn, htaskRun] using hopen
          · exact h task hmem run hrun hcanceled
  | @retried runId nodeId _ definition _ _ _ _ hchanges =>
      refine rewrite hintegrity hchanges rfl fun task hmem run hrun hcanceled => ?_
      simp only [Effect.retry, RowUpdate.forKey_apply, RowUpdate.onlyIf_apply] at hcanceled ⊢
      split at hcanceled
      · cases hcanceled
      · next helsewhere =>
          split
          · next hreset =>
              simp only [Bool.and_eq_true, decide_eq_true_eq] at hreset
              exact absurd ((Db.id_of_run? hrun).trans hreset.1) helsewhere
          · exact h task hmem run hrun hcanceled

end Db.CanceledRuns

theorem engine_canceledRuns {guard : Db → Operation × Time → Prop} {db : Db}
    (hreach : engine.Reachable guard db) : db.CanceledRuns :=
  engine_invariant (fun _ htask => by cases htask)
    (fun _ _ _ _ hreach h _ hstep => h.step (engine_integrity hreach) hstep) hreach

/-! ## Cancellations in progress -/

/-- No attempt of the run waits for its cancellation. -/
def noCancellation (db : Db) (runId : Uuid) : Bool :=
  db.taskAttempts.rows.all fun attempt =>
    !(attempt.runId = runId && attempt.state = .cancelRequested)

/-- A run is not retried while an attempt of it waits for its cancellation. -/
def retriesReconciled (db : Db) : Operation × Time → Bool
  | (.retryTask runId _, _) => noCancellation db runId
  | _ => true

/-- An attempt waits for its cancellation only when its run was canceled. -/
def Db.CancelRequests (db : Db) : Prop :=
  ∀ attempt ∈ db.taskAttempts.rows, attempt.state = .cancelRequested → ∀ run,
    db.run? attempt.runId = some run → run.state = .canceled

namespace Db.CancelRequests

variable {db db' : Db}

theorem rewrite (hintegrity : db.Integrity) {e : Effect} (hchanges : db.Changes e db')
    (hkeeps : Attempt.Keeps e.attempt)
    (hnew : ∀ attempt ∈ e.newAttempts, attempt.state ≠ .cancelRequested)
    (hpair : ∀ attempt ∈ db.taskAttempts.rows, ∀ run, db.run? attempt.runId = some run →
      (e.attempt.apply attempt).state = .cancelRequested →
      (e.run.apply run).state = .canceled) : db'.CancelRequests := by
  intro attempt hattempt hrequested run hrun
  obtain ⟨old, hold, rfl⟩ | hadded := hchanges.mem_attempts.mp hattempt
  · obtain ⟨found, hfound⟩ := hintegrity.attemptRun hold
    rw [(hkeeps old).1, hchanges.run?_some hfound] at hrun
    cases hrun
    exact hpair old hold found hfound hrequested
  · exact absurd hrequested (hnew attempt hadded)

variable (h : db.CancelRequests)

include h

/-- A change that keeps the run and requests no cancellation. -/
theorem steady (hintegrity : db.Integrity) {e : Effect} (hchanges : db.Changes e db')
    (hkeeps : Attempt.Keeps e.attempt)
    (hnew : ∀ attempt ∈ e.newAttempts, attempt.state ≠ .cancelRequested)
    (hrun : e.run = .keep)
    (hattempt : ∀ attempt ∈ db.taskAttempts.rows,
      (e.attempt.apply attempt).state = .cancelRequested →
      attempt.state = .cancelRequested) : db'.CancelRequests := by
  refine rewrite hintegrity hchanges hkeeps hnew fun attempt hmem run hfound hafter => ?_
  rw [hrun]
  exact h attempt hmem (hattempt attempt hmem hafter) run hfound

/-- A run that changes its state was not canceled. -/
theorem openRun (hintegrity : db.Integrity) {e : Effect} (hchanges : db.Changes e db')
    (hkeeps : Attempt.Keeps e.attempt)
    (hnew : ∀ attempt ∈ e.newAttempts, attempt.state ≠ .cancelRequested) {runId : Uuid}
    {f : RowUpdate Run} (hrun : e.run = .forKey runId f)
    (hopen : ∀ run, db.run? runId = some run → run.state ≠ .canceled)
    (hattempt : ∀ attempt ∈ db.taskAttempts.rows,
      (e.attempt.apply attempt).state = .cancelRequested →
      attempt.state = .cancelRequested) : db'.CancelRequests := by
  refine rewrite hintegrity hchanges hkeeps hnew fun attempt hmem run hfound hafter => ?_
  have hcanceled := h attempt hmem (hattempt attempt hmem hafter) run hfound
  rw [hrun, RowUpdate.forKey_apply]
  split
  · next hid =>
      refine absurd hcanceled (hopen run ?_)
      have hid : run.id = runId := hid
      rw [← hid, Db.id_of_run? hfound, hfound]
  · exact hcanceled

theorem sweep (hintegrity : db.Integrity) (now : Time) :
    (resetExpiredLeases db now).CancelRequests := by
  refine h.steady hintegrity (resetExpiredLeases_changes db now) (Attempt.keeps_sweep db now)
    (by simp [Effect.sweep]) rfl fun attempt _ hafter => ?_
  simp only [Effect.sweep, Db.sweepAttempt] at hafter
  split at hafter
  · next row _ =>
      cases hexpiry : row.expiry with
      | closeCanceled =>
          simp [hexpiry, Expiry.attemptUpdate, Attempt.closeCanceled] at hafter
      | reopen => simp [hexpiry, Expiry.attemptUpdate, Attempt.abandon] at hafter
      | keepTarget =>
          rw [hexpiry] at hafter
          exact hafter
  · exact hafter

theorem claims (hintegrity : db.Integrity) {now : Time} {workerId : String}
    {leaseSeconds : Int} {admission : Admission} {claimed : Option TaskLease}
    (hclaims : db.Claims now workerId leaseSeconds admission claimed db') :
    db'.CancelRequests := by
  cases hclaims with
  | idle _ _ => exact h
  | @recovered row _ =>
      refine h.steady hintegrity (recoverAttempt_changes _ _ _ _ row.attempt)
        (Effect.keeps_recover _ _ _ _).attempt (by simp [Effect.recover]) rfl
        fun attempt _ hafter => ?_
      simp only [Effect.recover, RowUpdate.forKey_apply] at hafter
      split at hafter <;> exact hafter
  | @started started _ _ _ hready hlease =>
      obtain ⟨-, -, -, -, -, -, -, -, hchanges⟩ := leaseTask_ok hlease
      refine h.openRun hintegrity hchanges (Effect.keeps_start _ _ _ _ _ _).attempt
        (by simp [Effect.start, freshAttempt]) rfl ?_ fun _ _ hafter => hafter
      intro run hrun hcanceled
      obtain ⟨found, hfound, hlive, -⟩ := hready.run
      rw [hrun] at hfound
      cases hfound
      simp [hcanceled, RunState.live] at hlive

/-- Every operation that retries reconciled runs only keeps cancellations within
canceled runs. -/
theorem step (hintegrity : db.Integrity) (hruns : db.CanceledRuns) {now : Time}
    {operation : Operation} (hguard : retriesReconciled db (operation, now) = true)
    (hstep : db.Transition now operation db') : db'.CancelRequests := by
  have hheld : ∀ {lease : TaskLease} {row : Attempt} {f : RowUpdate Attempt},
      db.Leased lease row →
      ((f.apply row).state = .cancelRequested → row.state = .cancelRequested) →
      ∀ attempt ∈ db.taskAttempts.rows,
        ((RowUpdate.forKey lease.attemptId f).apply attempt).state = .cancelRequested →
        attempt.state = .cancelRequested := by
    intro lease row f hleased hf attempt hattempt hafter
    rw [RowUpdate.forKey_apply] at hafter
    split at hafter
    · next hid =>
        rw [db.taskAttempts.eq_of_key_eq hattempt (Table.mem_of_row? hleased.found)
          (hid.trans (Db.id_of_attempt? hleased.found).symm)] at hafter ⊢
        exact hf hafter
    · exact hafter
  have hopen : ∀ {lease : TaskLease} {task : Task},
      db.task? lease.runId lease.nodeId = some task → task.state = .running →
      ∀ run, db.run? lease.runId = some run → run.state ≠ .canceled := by
    intro lease task htask hrunning run hrun hcanceled
    rw [← (Db.place_of_task? htask).1] at hrun
    exact (hruns task (Table.mem_of_row? htask) run hrun hcanceled).2 hrunning
  cases hstep with
  | quiet hchanges =>
      exact h.steady hintegrity hchanges Attempt.keeps_keep (by simp [Effect.quiet]) rfl
        fun _ _ hafter => hafter
  | submitted _ _ hchanges =>
      refine rewrite hintegrity hchanges Attempt.keeps_keep (by simp [Effect.submit])
        fun attempt hmem run hfound hafter => ?_
      exact h attempt hmem hafter run hfound
  | claimed hclaims => exact (h.sweep hintegrity now).claims (hintegrity.sweep now) hclaims
  | renewed hholds hchanges =>
      exact h.steady hintegrity hchanges
        (Attempt.keeps_onlyIf (fun _ => ⟨rfl, rfl, rfl, rfl⟩) _) (by simp [Effect.ofToken])
        rfl (hheld hholds.toLeased fun hafter => hafter)
  | marked hholds _ hchanges =>
      exact h.steady hintegrity hchanges
        (Attempt.keeps_onlyIf (fun _ => ⟨rfl, rfl, rfl, rfl⟩) _) (by simp [Effect.ofLease])
        rfl (hheld hholds.toLeased fun hafter => by cases hafter)
  | @recorded _ _ _ _ row target _ hholds _ hchanges =>
      refine h.steady hintegrity hchanges
        (Attempt.keeps_onlyIf (fun _ => ⟨rfl, rfl, rfl, rfl⟩) _) (by simp [Effect.ofLease])
        rfl (hheld hholds.toLeased fun hafter => ?_)
      simp only [Attempt.submit] at hafter
      split at hafter
      · assumption
      · cases target <;> cases hafter
  | @observed _ _ _ row target _ hholds _ hchanges =>
      refine h.steady hintegrity hchanges
        (Attempt.keeps_onlyIf (fun _ => ⟨rfl, rfl, rfl, rfl⟩) _) (by simp [Effect.ofLease])
        rfl (hheld hholds.toLeased fun hafter => ?_)
      cases target <;> first | exact hafter | cases hafter
  | released hholds hchanges =>
      exact h.steady hintegrity hchanges
        (Attempt.keeps_onlyIf (fun _ => ⟨rfl, rfl, rfl, rfl⟩) _) (by simp [Effect.ofToken])
        rfl (hheld hholds.toLeased fun hafter => hafter)
  | markedCanceled hholds hchanges =>
      exact h.steady hintegrity hchanges
        (Attempt.keeps_onlyIf (fun _ => ⟨rfl, rfl, rfl, rfl⟩) _) (by simp [Effect.finish])
        rfl (hheld hholds.toLeased fun hafter => by cases hafter)
  | completed htask hrunning _ hleased _ _ _ _ hfinished _ hchanges =>
      cases hfinished with
      | unfinished _ _ _ =>
          exact h.steady hintegrity hchanges
            (Attempt.keeps_onlyIf (fun _ => ⟨rfl, rfl, rfl, rfl⟩) _)
            (by simp [Effect.complete, Effect.finish]) rfl
            (hheld hleased fun hafter => by cases hafter)
      | finished _ _ _ =>
          exact h.openRun hintegrity hchanges
            (Attempt.keeps_onlyIf (fun _ => ⟨rfl, rfl, rfl, rfl⟩) _)
            (by simp [Effect.complete, Effect.finish]) rfl (hopen htask hrunning)
            (hheld hleased fun hafter => by cases hafter)
  | failed htask hrunning _ hleased hchanges =>
      exact h.openRun hintegrity hchanges
        (Attempt.keeps_onlyIf (fun _ => ⟨rfl, rfl, rfl, rfl⟩) _)
        (by simp [Effect.finish]) rfl (hopen htask hrunning)
        (hheld hleased fun hafter => by cases hafter)
  | @runCanceled runId _ _ _ _ hchanges =>
      refine rewrite hintegrity hchanges (Effect.keeps_cancelRun runId now).attempt
        (by simp [Effect.cancelRun]) fun attempt hmem run hfound hafter => ?_
      simp only [Effect.cancelRun, RowUpdate.forKey_apply, RowUpdate.onlyIf_apply] at hafter ⊢
      split
      · rfl
      · next helsewhere =>
          split at hafter
          · next hselected =>
              simp only [Attempt.selectedForCancel, Bool.and_eq_true,
                decide_eq_true_eq] at hselected
              exact absurd ((Db.id_of_run? hfound).trans hselected.1) helsewhere
          · exact h attempt hmem hafter run hfound
  | @retried runId _ _ _ _ _ _ _ hchanges =>
      refine rewrite hintegrity hchanges Attempt.keeps_keep (by simp [Effect.retry])
        fun attempt hmem run hfound hafter => ?_
      simp only [Effect.retry, RowUpdate.forKey_apply] at hafter ⊢
      split
      · next hid =>
          simp only [retriesReconciled, noCancellation, List.all_eq_true] at hguard
          have hrunId : attempt.runId = runId := (Db.id_of_run? hfound).symm.trans hid
          have hafter : attempt.state = .cancelRequested := hafter
          have := hguard attempt hmem
          simp [hrunId, hafter] at this
      · exact h attempt hmem hafter run hfound

end Db.CancelRequests

/-! ## The effect on the task -/

/-- `mark_attempt_canceled` is called on an attempt that waits for its
cancellation, as the asynchronous worker does, or whose run has come to an end
without success. -/
def marksRequested (db : Db) : Operation × Time → Bool
  | (.markAttemptCanceled lease _ _, _) =>
      match assertLease db lease with
      | .ok row => row.state = .cancelRequested ||
          (db.run? row.runId).any fun run => run.state = .failed || run.state = .canceled
      | .error _ => true
  | _ => true

/-- The guard of runs in which no retry overtakes a cancellation. -/
def cancellationsOrdered (db : Db) (label : Operation × Time) : Bool :=
  retriesSettled db label && retriesReconciled db label && marksRequested db label

/-- The end of a canceled attempt changes its task only while the attempt is
current, takes back no later state of the task, and leaves no canceled task in
a run that goes on or has succeeded. -/
structure Db.CancelsCurrent (db : Db) (attempt : Attempt) (db' : Db) : Prop where
  changed : ∀ task, db.task? attempt.runId attempt.nodeId = some task →
    db'.task? attempt.runId attempt.nodeId ≠ some task →
    attempt.number = task.attempt ∧ task.state ≠ .pending
  kept : ∀ task task', db.task? attempt.runId attempt.nodeId = some task →
    db'.task? attempt.runId attempt.nodeId = some task' → task'.state = .canceled →
    task.state ≠ .pending ∧ task.state ≠ .succeeded ∧
      ¬ (task.state = .running ∧ attempt.number < task.attempt)
  run : ∀ run, db'.run? attempt.runId = some run →
    run.state = .queued ∨ run.state = .running ∨ run.state = .succeeded →
    ∀ task ∈ db'.tasks.rows, task.runId = attempt.runId → task.state ≠ .canceled

theorem engine_cancelRequests {db : Db}
    (hreach : engine.Reachable (fun db label => retriesReconciled db label = true) db) :
    db.CancelRequests :=
  engine_invariant (fun _ hattempt => by cases hattempt)
    (fun _ _ _ _ hreach h hguard hstep => h.step (engine_integrity hreach)
      (engine_canceledRuns hreach) hguard hstep) hreach

/-- In runs whose steps keep the order, every valid lease cancels the current
attempt of a task or leaves the task alone. -/
theorem markAttemptCanceled_current {db : Db}
    (hreach : engine.Reachable (fun db label => cancellationsOrdered db label = true) db)
    {lease : TaskLease} {row : Attempt} (hholds : db.Holds lease row) {now : Time}
    {log : String} {details : List (String × Value)} {db' : Db}
    (hordered : cancellationsOrdered db (.markAttemptCanceled lease log details, now) = true)
    (hok : markAttemptCanceled db now lease log details = .ok db') :
    db.CancelsCurrent row db' := by
  have hcurrent : db.Current := engine_current (hreach.weaken fun _ _ hguard => by
    simp only [cancellationsOrdered, Bool.and_eq_true] at hguard
    exact hguard.1.1)
  have hrequests : db.CancelRequests := engine_cancelRequests
    (hreach.weaken fun _ _ hguard => by
      simp only [cancellationsOrdered, Bool.and_eq_true] at hguard
      exact hguard.1.2)
  have hintegrity := engine_integrity hreach
  have hmem := Table.mem_of_row? hholds.found
  have hlive := (engine_tokens hreach).held_live hholds.toLeased
  obtain ⟨-, hchanges⟩ := markAttemptCanceled_ok hok
  obtain ⟨run, hrun⟩ := hintegrity.attemptRun hmem
  have hended : run.state = .failed ∨ run.state = .canceled := by
    simp only [cancellationsOrdered, marksRequested, assertLease_eq_ok.mpr hholds,
      Bool.and_eq_true, Bool.or_eq_true, decide_eq_true_eq] at hordered
    rcases hordered.2 with hrequested | hended
    · exact .inr (hrequests row hmem hrequested run hrun)
    · simpa [hrun] using hended
  refine ⟨?_, ?_, ?_⟩
  · intro task htask _
    obtain ⟨hnumber, hstate⟩ := hcurrent row hmem hlive task htask
    refine ⟨hnumber, ?_⟩
    rcases hstate with hstate | hstate <;> simp [hstate]
  · intro task task' htask _ _
    obtain ⟨hnumber, hstate⟩ := hcurrent row hmem hlive task htask
    refine ⟨?_, ?_, fun hsuperseded => ?_⟩
    · rcases hstate with hstate | hstate <;> simp [hstate]
    · rcases hstate with hstate | hstate <;> simp [hstate]
    · exact absurd hnumber hsuperseded.2.ne
  · intro run' hrun' hopen
    rw [hchanges.run?_some hrun] at hrun'
    cases hrun'
    have hopen : run.state = .queued ∨ run.state = .running ∨ run.state = .succeeded := hopen
    rcases hended with hstate | hstate <;> simp [hstate] at hopen

/-- A submitted job of the sample run that is canceled with its run and then
taken over by a worker. -/
def reconciledCancellation : List (Operation × Time) :=
  let lease := sampleLease 2 1 1 "w1" 300000001 .leased none
  sampleSubmission ++
    [(sampleClaim "w1", 1), (.markSubmitting lease, 2),
     (.recordSubmission lease "42" "queued" Table.empty, 3), (.releaseLease lease, 4),
     (.cancelRun 0, 5), (sampleClaim "w2", 6)]

/-- The lease of the worker that takes it over. -/
def reconcilingLease : TaskLease :=
  sampleLease 2 3 1 "w2" 300000006 .cancelRequested (some "42")

theorem markAttemptCanceled_current_sample :
    let db := engine.after cancellationsOrdered {} reconciledCancellation
    ∃ row db', db.Holds reconcilingLease row ∧
      markAttemptCanceled db 7 reconcilingLease "" [] = .ok db' ∧
      db.CancelsCurrent row db' := by
  intro db
  have hheld : (assertLease db reconcilingLease).isOk = true := by decide
  have hok : (markAttemptCanceled db 7 reconcilingLease "" []).isOk = true := by decide
  cases hrow : assertLease db reconcilingLease with
  | error _ => simp [hrow, Except.isOk, Except.toBool] at hheld
  | ok row =>
      cases hdb : markAttemptCanceled db 7 reconcilingLease "" [] with
      | error _ => simp [hdb, Except.isOk, Except.toBool] at hok
      | ok db' =>
          exact ⟨row, db', assertLease_eq_ok.mp hrow, rfl, markAttemptCanceled_current
            ((TransitionSystem.Reachable.initial rfl).after reconciledCancellation)
            (assertLease_eq_ok.mp hrow) (by decide) hdb⟩

/-- The same job when the task is retried before its cancellation is
reconciled. -/
def overtakenCancellation : List (Operation × Time) :=
  let lease := sampleLease 2 1 1 "w1" 300000001 .leased none
  sampleSubmission ++
    [(sampleClaim "w1", 1), (.markSubmitting lease, 2),
     (.recordSubmission lease "42" "queued" Table.empty, 3), (.releaseLease lease, 4),
     (.cancelRun 0, 5), (.retryTask 0 "a", 6), (sampleClaim "w2", 6)]

/-- A late cancellation turns a task that is pending again into a canceled one. -/
theorem lateCancellation_overtaken :
    ¬ ∀ db, engine.Reachable TransitionSystem.anyStep db →
      ∀ lease row now log details db', db.Holds lease row →
        markAttemptCanceled db now lease log details = .ok db' →
        db.CancelsCurrent row db' := by
  intro h
  let db := engine.after (fun _ _ => true) {} overtakenCancellation
  have hreach : engine.Reachable TransitionSystem.anyStep db :=
    ((TransitionSystem.Reachable.initial rfl).after overtakenCancellation).unguarded
  have hrow : ((assertLease db reconcilingLease).toOption.map fun row =>
      (row.runId, row.nodeId)) = some (0, "a") := by decide
  have hbefore : ((db.task? 0 "a").map Task.state) = some .pending := by decide
  have hafter : (markAttemptCanceled db 7 reconcilingLease "" []).toOption.bind
      (fun db' => (db'.task? 0 "a").map Task.state) = some .canceled := by decide
  cases hheld : assertLease db reconcilingLease with
  | error _ => simp [hheld, Except.toOption] at hrow
  | ok row =>
      cases hok : markAttemptCanceled db 7 reconcilingLease "" [] with
      | error _ => simp [hok, Except.toOption] at hafter
      | ok db' =>
          have hcancels := h db hreach reconcilingLease row 7 "" [] db'
            (assertLease_eq_ok.mp hheld) hok
          simp only [hheld, Except.toOption, Option.map_some, Option.some.injEq,
            Prod.mk.injEq] at hrow
          simp only [hok, Except.toOption, Option.bind_some] at hafter
          obtain ⟨task, htask, hpending⟩ := Option.map_eq_some_iff.mp hbefore
          obtain ⟨task', htask', hcanceled⟩ := Option.map_eq_some_iff.mp hafter
          rw [← hrow.1, ← hrow.2] at htask htask'
          exact (hcancels.kept task task' htask htask' hcanceled).1 hpending

end QhpcEcosystem
