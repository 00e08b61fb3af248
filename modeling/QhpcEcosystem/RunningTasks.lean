/-
The attempt of a running task.  Whatever is retried, expires or is taken over, a
running task has a live attempt under its current number, so the sweep and the
operations of a lease never find an attempt that has ended.
-/
import QhpcEcosystem.TaskChange

namespace QhpcEcosystem

/-- A running task has a live attempt under its current number. -/
def Db.RunningHeld (db : Db) : Prop :=
  ∀ task ∈ db.tasks.rows, task.state = .running →
    ∃ attempt ∈ db.taskAttempts.rows, attempt.runId = task.runId ∧
      attempt.nodeId = task.nodeId ∧ attempt.number = task.attempt ∧
      attempt.state.live = true

/-- The sweep closes an attempt only when its run is canceled. -/
theorem ExpiredLease.runState_of_closeCanceled {row : ExpiredLease}
    (h : row.expiry = .closeCanceled) : row.runState = .canceled := by
  unfold ExpiredLease.expiry at h
  split at h
  · next hclosed => exact hclosed.1
  · split at h <;> cases h

namespace Db.RunningHeld

variable {db db' : Db} (h : db.RunningHeld)

include h

/-- Rewriting rows keeps running tasks held when no task starts and the attempt
of a task that stays running stays live. -/
theorem rewrite {e : Effect} (hchanges : db.Changes e db') (hkeeps : e.Keeps)
    (hnew : ∀ task ∈ e.newTasks, task.state ≠ .running)
    (hpair : ∀ task ∈ db.tasks.rows, (e.task.apply task).state = .running →
      task.state = .running ∧ (e.task.apply task).attempt = task.attempt ∧
        ∀ attempt ∈ db.taskAttempts.rows, attempt.runId = task.runId →
          attempt.nodeId = task.nodeId → attempt.number = task.attempt →
          attempt.state.live = true → (e.attempt.apply attempt).state.live = true) :
    db'.RunningHeld := by
  intro task htask hrunning
  obtain ⟨old, hold, rfl⟩ | hadded := hchanges.mem_tasks.mp htask
  · obtain ⟨hstate, hcounter, hlive⟩ := hpair old hold hrunning
    obtain ⟨attempt, hattempt, hrun, hnode, hnumber, hheld⟩ := h old hold hstate
    obtain ⟨hkeptRun, hkeptNode, hkeptNumber, -⟩ := hkeeps.attempt attempt
    refine ⟨e.attempt.apply attempt, hchanges.mem_attempts.mpr (.inl ⟨attempt, hattempt, rfl⟩),
      ?_, ?_, ?_, hlive attempt hattempt hrun hnode hnumber hheld⟩
    · rw [hkeptRun, Task.apply_runId, hrun]
    · rw [hkeptNode, Task.apply_nodeId, hnode]
    · rw [hkeptNumber, hcounter, hnumber]
  · exact absurd hrunning (hnew task hadded)

/-- Tasks keep their states, and attempts stay live. -/
theorem steady {e : Effect} (hchanges : db.Changes e db') (hkeeps : e.Keeps)
    (hnew : e.newTasks = [])
    (htask : ∀ task, (e.task.apply task).state = task.state ∧
      (e.task.apply task).attempt = task.attempt)
    (hattempt : ∀ attempt ∈ db.taskAttempts.rows, attempt.state.live = true →
      (e.attempt.apply attempt).state.live = true) : db'.RunningHeld := by
  refine h.rewrite hchanges hkeeps (by simp [hnew]) fun task _ hrunning => ?_
  obtain ⟨hstate, hcounter⟩ := htask task
  exact ⟨by rw [← hstate, hrunning], hcounter,
    fun attempt hmem _ _ _ hlive => hattempt attempt hmem hlive⟩

/-- The end of an attempt ends its task. -/
theorem finish {e : Effect} {lease : TaskLease} {f : RowUpdate Attempt} {g : RowUpdate Task}
    {row : Attempt} (hleased : db.Leased lease row)
    (hattempt : e.attempt = .forKey lease.attemptId f)
    (htask : e.task = .forKey (lease.runId, lease.nodeId) g) (hnew : e.newTasks = [])
    (hended : ∀ task, (g.apply task).state ≠ .running) (hchanges : db.Changes e db')
    (hkeeps : e.Keeps) : db'.RunningHeld := by
  refine h.rewrite hchanges hkeeps (by simp [hnew]) fun task _ hrunning => ?_
  rw [htask, RowUpdate.forKey_apply] at hrunning ⊢
  split at hrunning
  · exact absurd hrunning (hended task)
  · next helsewhere =>
      rw [if_neg helsewhere]
      refine ⟨hrunning, rfl, fun attempt hmem hrun hnode _ hlive => ?_⟩
      rw [hattempt, RowUpdate.forKey_apply]
      split
      · next hid =>
          have hsame : attempt = row := db.taskAttempts.eq_of_key_eq hmem
            (Table.mem_of_row? hleased.found)
            (hid.trans (Db.id_of_attempt? hleased.found).symm)
          refine absurd ?_ helsewhere
          rw [Task.key_eq, ← hrun, ← hnode, hsame, hleased.runId, hleased.nodeId]
      · exact hlive

theorem sweep (hintegrity : db.Integrity) (hcanceled : db.CanceledRuns) (now : Time) :
    (resetExpiredLeases db now).RunningHeld := by
  refine h.rewrite (resetExpiredLeases_changes db now) (Effect.keeps_sweep db now)
    (by simp [Effect.sweep]) fun task htask hrunning => ?_
  simp only [Effect.sweep] at hrunning ⊢
  have hstate : task.state = .running ∧ ((db.sweepTask now).apply task).attempt = task.attempt := by
    simp only [Db.sweepTask] at hrunning ⊢
    split at hrunning
    · next row _ =>
        cases hexpiry : row.expiry <;> rw [hexpiry] at hrunning
        · exact ⟨hrunning, rfl⟩
        · exact ⟨hrunning, rfl⟩
        · cases hrunning
    · exact ⟨hrunning, rfl⟩
  refine ⟨hstate.1, hstate.2, fun attempt hattempt hrun hnode hnumber hlive => ?_⟩
  have hplace : db.task? attempt.runId attempt.nodeId = some task := by
    rw [hrun, hnode]
    exact Table.row?_of_mem htask
  obtain ⟨hsame, -⟩ | ⟨row, hrow, htaskUpdate, ⟨-, -, hupdate⟩ | ⟨-, hsame⟩⟩ :=
    hintegrity.sweep_cases now hattempt hplace
  · rwa [hsame]
  · rw [hupdate]
    cases hexpiry : row.expiry with
    | closeCanceled =>
        -- a canceled run has no running task
        obtain ⟨run, hfound, -, hrunState, -⟩ := expiredLease?_spec hrow
        have hclosed := ExpiredLease.runState_of_closeCanceled hexpiry
        rw [hrunState] at hclosed
        exact absurd hstate.1 (hcanceled task htask run hfound hclosed).2
    | keepTarget => exact hlive
    | reopen =>
        rw [htaskUpdate, hexpiry] at hrunning
        cases hrunning
  · rwa [hsame]

theorem claims {now : Time} {workerId : String} {leaseSeconds : Int} {admission : Admission}
    {claimed : Option TaskLease}
    (hclaims : db.Claims now workerId leaseSeconds admission claimed db') :
    db'.RunningHeld := by
  cases hclaims with
  | idle _ _ => exact h
  | @recovered row _ =>
      refine h.steady (recoverAttempt_changes _ _ _ _ row.attempt)
        (Effect.keeps_recover _ _ _ _) rfl (fun task => ?_) fun attempt _ hlive => ?_
      · simp only [Effect.recover, RowUpdate.forKey_apply]
        split <;> exact ⟨rfl, rfl⟩
      · simp only [Effect.recover, RowUpdate.forKey_apply]
        split <;> exact hlive
  | @started started _ _ _ hready hlease =>
      obtain ⟨-, -, -, -, -, -, -, -, hchanges⟩ := leaseTask_ok hlease
      intro task htask hrunning
      obtain ⟨old, hold, rfl⟩ | hadded := hchanges.mem_tasks.mp htask
      · simp only [Effect.start, RowUpdate.forKey_apply] at hrunning ⊢
        split at hrunning
        · next hkey =>
            rw [if_pos hkey]
            have hsame : old = started := db.tasks.eq_of_key_eq hold hready.mem hkey
            exact ⟨_, hchanges.mem_attempts.mpr (.inr List.mem_cons_self),
              by rw [hsame]; exact ⟨rfl, rfl, rfl, rfl⟩⟩
        · next hkey =>
            rw [if_neg hkey]
            obtain ⟨attempt, hattempt, hheld⟩ := h old hold hrunning
            exact ⟨attempt, hchanges.mem_attempts.mpr (.inl ⟨attempt, hattempt, rfl⟩), hheld⟩
      · cases hadded

/-- Every operation keeps running tasks held. -/
theorem step (hintegrity : db.Integrity) (htokens : db.Tokens) (hcanceled : db.CanceledRuns)
    {now : Time} {operation : Operation} (hstep : db.Transition now operation db') :
    db'.RunningHeld := by
  have hheld : ∀ {lease : TaskLease} {f : RowUpdate Attempt},
      (∀ row, row.state.live = true → (f.apply row).state.live = true) →
      ∀ attempt ∈ db.taskAttempts.rows, attempt.state.live = true →
        ((RowUpdate.forKey lease.attemptId f).apply attempt).state.live = true := by
    intro lease f hf attempt _ hlive
    rw [RowUpdate.forKey_apply]
    split
    · exact hf attempt hlive
    · exact hlive
  have hsteady : ∀ {lease : TaskLease} {g : RowUpdate Task},
      (∀ task, (g.apply task).state = task.state ∧ (g.apply task).attempt = task.attempt) →
      ∀ task, ((RowUpdate.onlyIf (Task.leasedBy lease) g).apply task).state = task.state ∧
        ((RowUpdate.onlyIf (Task.leasedBy lease) g).apply task).attempt = task.attempt := by
    intro lease g hg task
    rw [RowUpdate.onlyIf_apply]
    split
    · exact hg task
    · exact ⟨rfl, rfl⟩
  cases hstep with
  | quiet hchanges =>
      exact h.steady hchanges Effect.keeps_quiet rfl (fun _ => ⟨rfl, rfl⟩)
        fun _ _ hlive => hlive
  | submitted hsubmits _ hchanges =>
      refine h.rewrite hchanges (Effect.keeps_submit _ _) (fun task htask => ?_)
        fun task _ hrunning => ⟨hrunning, rfl, fun _ _ _ _ _ hlive => hlive⟩
      obtain ⟨_, _, _, _, _, _, heq⟩ := hsubmits.tasks_eq task htask
      rw [heq]
      simp [newTask]
  | claimed hclaims => exact (h.sweep hintegrity hcanceled now).claims hclaims
  | renewed _ hchanges =>
      exact h.steady hchanges (Effect.keeps_ofToken (fun _ => ⟨rfl, rfl, rfl, rfl⟩)
        (fun _ => ⟨rfl, rfl, le_rfl⟩) _) rfl (hsteady fun _ => ⟨rfl, rfl⟩)
        (hheld fun _ hlive => hlive)
  | marked _ _ hchanges =>
      exact h.steady hchanges (Effect.keeps_ofLease (fun _ => ⟨rfl, rfl, rfl, rfl⟩) _) rfl
        (fun _ => ⟨rfl, rfl⟩) (hheld fun _ _ => rfl)
  | @recorded _ _ _ _ row target _ _ _ hchanges =>
      refine h.steady hchanges (Effect.keeps_ofLease (fun _ => ⟨rfl, rfl, rfl, rfl⟩) _) rfl
        (fun _ => ⟨rfl, rfl⟩) (hheld fun _ _ => ?_)
      simp only [Attempt.submit]
      split
      · rfl
      · cases target <;> rfl
  | @observed _ _ _ row target _ hholds _ hchanges =>
      refine h.steady hchanges (Effect.keeps_ofLease (fun _ => ⟨rfl, rfl, rfl, rfl⟩) _) rfl
        (fun _ => ⟨rfl, rfl⟩) (hheld fun _ _ => ?_)
      have hlive := htokens.held_live hholds.toLeased
      cases target <;> first | rfl | exact hlive
  | released _ hchanges =>
      exact h.steady hchanges (Effect.keeps_ofToken (fun _ => ⟨rfl, rfl, rfl, rfl⟩)
        (fun _ => ⟨rfl, rfl, le_rfl⟩) _) rfl (hsteady fun _ => ⟨rfl, rfl⟩)
        (hheld fun _ hlive => hlive)
  | markedCanceled hholds hchanges =>
      exact h.finish hholds.toLeased rfl rfl rfl (by simp [Task.cancel]) hchanges
        (Effect.keeps_finish (fun _ => ⟨rfl, rfl, rfl, rfl⟩) (fun _ => ⟨rfl, rfl, le_rfl⟩)
          Run.keeps_keep _)
  | completed _ _ _ hleased _ _ _ _ hfinished _ hchanges =>
      exact h.finish hleased rfl rfl rfl (by simp [Task.succeed]) hchanges
        (Effect.keeps_complete hfinished.keeps _)
  | failed _ _ _ hleased hchanges =>
      exact h.finish hleased rfl rfl rfl (by simp [Task.fail]) hchanges
        (Effect.keeps_finish (fun _ => ⟨rfl, rfl, rfl, rfl⟩) (fun _ => ⟨rfl, rfl, le_rfl⟩)
          (Run.keeps_onlyIf (fun _ => ⟨rfl, rfl, rfl, rfl, rfl⟩) _) _)
  | runCanceled _ _ hchanges =>
      refine h.rewrite hchanges (Effect.keeps_cancelRun _ _) (by simp [Effect.cancelRun])
        fun task _ hrunning => ?_
      simp only [Effect.cancelRun, RowUpdate.onlyIf_apply] at hrunning ⊢
      split at hrunning
      · cases hrunning
      · next hkept =>
          rw [if_neg hkept]
          refine ⟨hrunning, rfl, fun attempt _ _ _ _ hlive => ?_⟩
          split
          · simp only [Attempt.requestCancel]
            split <;> rfl
          · exact hlive
  | retried _ _ _ hchanges =>
      refine h.rewrite hchanges (Effect.keeps_retry _ _) (by simp [Effect.retry])
        fun task _ hrunning => ?_
      simp only [Effect.retry, RowUpdate.onlyIf_apply] at hrunning ⊢
      split at hrunning
      · cases hrunning
      · next hkept =>
          rw [if_neg hkept]
          exact ⟨hrunning, rfl, fun _ _ _ _ _ hlive => hlive⟩

end Db.RunningHeld

theorem engine_runningHeld {guard : Db → Operation × Time → Prop} {db : Db}
    (hreach : engine.Reachable guard db) : db.RunningHeld :=
  engine_invariant (fun _ htask => by cases htask)
    (fun _ _ _ _ hreach h _ hstep => h.step (engine_integrity hreach) (engine_tokens hreach)
      (engine_canceledRuns hreach) hstep) hreach

end QhpcEcosystem
