/-
When the attempts of a task follow each other: as long as `retry_task` resets
no task that still has a live attempt, every task has at most one live attempt
and it is the one that the counter of the task names.
-/
import QhpcEcosystem.EngineInvariants

namespace QhpcEcosystem

/-- `retry_task` would reset no task with a live attempt. -/
def retrySettled (db : Db) (runId : Uuid) (nodeId : String) : Bool :=
  match db.definition? runId with
  | none => true
  | some definition => db.taskAttempts.rows.all fun attempt =>
      !(attempt.runId = runId && attempt.nodeId ∈ descendants definition nodeId &&
        attempt.state.live)

/-- The guard of runs that retry settled tasks only. -/
def retriesSettled (db : Db) : Operation × Time → Bool
  | (.retryTask runId nodeId, _) => retrySettled db runId nodeId
  | _ => true

/-- A live attempt is the current one of its task, which is running or was
canceled under it. -/
def Db.Current (db : Db) : Prop :=
  ∀ attempt ∈ db.taskAttempts.rows, attempt.state.live = true → ∀ task,
    db.task? attempt.runId attempt.nodeId = some task →
    attempt.number = task.attempt ∧ (task.state = .running ∨ task.state = .canceled)

namespace Db.Current

variable {db db' : Db} (h : db.Current)

include h

/-- Two live attempts of one task are the same. -/
theorem unique (hintegrity : db.Integrity) {attempt other : Attempt}
    (hattempt : attempt ∈ db.taskAttempts.rows) (hother : other ∈ db.taskAttempts.rows)
    (hlive : attempt.state.live = true) (hlive' : other.state.live = true)
    (hrun : attempt.runId = other.runId) (hnode : attempt.nodeId = other.nodeId) :
    attempt = other := by
  obtain ⟨task, htask, -⟩ := hintegrity.attemptTask attempt hattempt
  obtain ⟨hnumber, -⟩ := h attempt hattempt hlive task htask
  obtain ⟨hnumber', -⟩ := h other hother hlive' task (by rwa [← hrun, ← hnode])
  exact hintegrity.number_inj attempt hattempt other hother hrun hnode
    (hnumber.trans hnumber'.symm)

/-- Rewriting rows keeps attempts current when no attempt comes to life and the
task of a live one stays with it. -/
theorem rewrite (hintegrity : db.Integrity) {e : Effect} (hchanges : db.Changes e db')
    (hkeeps : e.Keeps) (hnew : e.newAttempts = [])
    (hpair : ∀ attempt ∈ db.taskAttempts.rows, ∀ task,
      db.task? attempt.runId attempt.nodeId = some task →
      (e.attempt.apply attempt).state.live = true →
      attempt.state.live = true ∧ (e.task.apply task).attempt = task.attempt ∧
        (task.state = .running ∨ task.state = .canceled →
          (e.task.apply task).state = .running ∨ (e.task.apply task).state = .canceled)) :
    db'.Current := by
  intro attempt hattempt hlive task htask
  obtain ⟨old, hold, rfl⟩ | hadded := hchanges.mem_attempts.mp hattempt
  · obtain ⟨hrun, hnode, hnumber, -⟩ := hkeeps.attempt old
    obtain ⟨found, hfound, -⟩ := hintegrity.attemptTask old hold
    rw [hrun, hnode, hchanges.task?_some hfound] at htask
    cases htask
    obtain ⟨hlive, hcounter, hstate⟩ := hpair old hold found hfound hlive
    obtain ⟨hcurrent, hrunning⟩ := h old hold hlive found hfound
    exact ⟨by rw [hnumber, hcounter, hcurrent], hstate hrunning⟩
  · simp [hnew] at hadded

/-- A task update that keeps state and counter leaves its attempts current. -/
theorem steady (hintegrity : db.Integrity) {e : Effect} (hchanges : db.Changes e db')
    (hkeeps : e.Keeps) (hnew : e.newAttempts = [])
    (hlive : ∀ attempt ∈ db.taskAttempts.rows,
      (e.attempt.apply attempt).state.live = true → attempt.state.live = true)
    (htask : ∀ task, (e.task.apply task).state = task.state ∧
      (e.task.apply task).attempt = task.attempt) : db'.Current := by
  refine h.rewrite hintegrity hchanges hkeeps hnew fun attempt hattempt task _ hafter => ?_
  obtain ⟨hstate, hcounter⟩ := htask task
  exact ⟨hlive attempt hattempt hafter, hcounter, fun hrunning => by rwa [hstate]⟩

/-- The end of the held attempt leaves no live attempt at its task. -/
theorem finish (hintegrity : db.Integrity) (htokens : db.Tokens) {e : Effect}
    {lease : TaskLease} {f : RowUpdate Attempt} {g : RowUpdate Task} {row : Attempt}
    (hleased : db.Leased lease row) (hattempt : e.attempt = .forKey lease.attemptId f)
    (htask : e.task = .forKey (lease.runId, lease.nodeId) g) (hnew : e.newAttempts = [])
    (hended : (f.apply row).state.live = false) (hchanges : db.Changes e db')
    (hkeeps : e.Keeps) : db'.Current := by
  refine h.rewrite hintegrity hchanges hkeeps hnew fun attempt hmem task hfound hafter => ?_
  rw [hattempt, RowUpdate.forKey_apply] at hafter
  rw [htask, RowUpdate.forKey_apply]
  have hrow := Table.mem_of_row? hleased.found
  split at hafter
  · next hid =>
      have hsame : attempt = row :=
        db.taskAttempts.eq_of_key_eq hmem hrow (hid.trans (Db.id_of_attempt? hleased.found).symm)
      rw [hsame, hended] at hafter
      cases hafter
  · next hid =>
      have helsewhere : ¬ Keyed.key task = (lease.runId, lease.nodeId) := by
        simp only [Task.key_eq, Prod.mk.injEq]
        obtain ⟨hrun, hnode⟩ := Db.place_of_task? hfound
        rintro ⟨hleaseRun, hleaseNode⟩
        apply hid
        rw [h.unique hintegrity hmem hrow hafter (htokens.held_live hleased)
          (by rw [← hrun, hleaseRun, hleased.runId])
          (by rw [← hnode, hleaseNode, hleased.nodeId])]
        exact Db.id_of_attempt? hleased.found
      rw [if_neg helsewhere]
      exact ⟨hafter, rfl, fun hstate => hstate⟩

theorem sweep (hintegrity : db.Integrity) (now : Time) :
    (resetExpiredLeases db now).Current := by
  refine h.rewrite hintegrity (resetExpiredLeases_changes db now) (Effect.keeps_sweep db now) rfl
    fun attempt hattempt task htask hafter => ?_
  simp only [Effect.sweep] at hafter ⊢
  obtain ⟨hsame, hsame'⟩ | ⟨row, -, htaskUpdate, ⟨-, -, hupdate⟩ | ⟨hnumber, hsame⟩⟩ :=
    hintegrity.sweep_cases now hattempt htask
  · rw [hsame] at hafter
    rw [hsame']
    exact ⟨hafter, rfl, fun hstate => hstate⟩
  · rw [hupdate] at hafter
    rw [htaskUpdate]
    cases hexpiry : row.expiry with
    | closeCanceled => simp [hexpiry, Expiry.attemptUpdate, Attempt.closeCanceled,
        AttemptState.live] at hafter
    | reopen => simp [hexpiry, Expiry.attemptUpdate, Attempt.abandon,
        AttemptState.live] at hafter
    | keepTarget =>
        rw [hexpiry] at hafter
        exact ⟨hafter, rfl, fun hstate => hstate⟩
  · rw [hsame] at hafter
    exact absurd (h attempt hattempt hafter task htask).1 hnumber

theorem claims (hintegrity : db.Integrity) {now : Time} {workerId : String}
    {leaseSeconds : Int} {admission : Admission} {claimed : Option TaskLease}
    (hclaims : db.Claims now workerId leaseSeconds admission claimed db') :
    db'.Current := by
  cases hclaims with
  | idle _ _ => exact h
  | @recovered row _ =>
      refine h.steady hintegrity (recoverAttempt_changes _ _ _ _ row.attempt)
        (Effect.keeps_recover _ _ _ _) rfl ?_ ?_
      · intro attempt _ hafter
        simp only [Effect.recover, RowUpdate.forKey_apply] at hafter
        split at hafter <;> exact hafter
      · intro task
        simp only [Effect.recover, RowUpdate.forKey_apply]
        split <;> exact ⟨rfl, rfl⟩
  | @started started _ _ _ hready hlease =>
      obtain ⟨-, -, -, -, -, -, -, -, hchanges⟩ := leaseTask_ok hlease
      have hfound : db.task? started.runId started.nodeId = some started :=
        Table.row?_of_mem hready.mem
      intro attempt hattempt hlive task htask
      obtain ⟨old, hold, rfl⟩ | hadded := hchanges.mem_attempts.mp hattempt
      · obtain ⟨found, hplace, -⟩ := hintegrity.attemptTask old hold
        obtain ⟨hcurrent, hstate⟩ := h old hold hlive found hplace
        have htask' := hchanges.task?_some hplace
        simp only [Effect.start, RowUpdate.keep_apply] at htask
        rw [htask'] at htask
        cases htask
        have helsewhere : ¬ Keyed.key found = (started.runId, started.nodeId) := by
          intro hkey
          have hsame : found = started :=
            db.tasks.eq_of_key_eq (Table.mem_of_row? hplace) hready.mem hkey
          rw [hsame, hready.pending] at hstate
          simp at hstate
        rw [Effect.start, RowUpdate.forKey_apply, if_neg helsewhere]
        exact ⟨hcurrent, hstate⟩
      · obtain rfl := List.mem_singleton.mp hadded
        have htask : db'.task? started.runId started.nodeId = some task := htask
        rw [hchanges.task?_some hfound] at htask
        cases htask
        simp only [Effect.start, RowUpdate.forKey_apply, Task.key_eq, ↓reduceIte]
        exact ⟨rfl, .inl rfl⟩

theorem cancelRun (hintegrity : db.Integrity) {runId : Uuid} {now : Time}
    (hchanges : db.Changes (.cancelRun runId now) db') : db'.Current := by
  refine h.rewrite hintegrity hchanges (Effect.keeps_cancelRun runId now) rfl
    fun attempt hattempt task _ hafter => ⟨?_, ?_, ?_⟩
  · simp only [Effect.cancelRun, RowUpdate.onlyIf_apply] at hafter
    split at hafter
    · next hselected =>
        simp only [Attempt.selectedForCancel, Bool.and_eq_true, decide_eq_true_eq,
          List.mem_cons, List.not_mem_nil, or_false] at hselected
        rcases hselected.2 with hstate | hstate | hstate | hstate | hstate <;>
          rw [hstate] <;> rfl
    · exact hafter
  · simp only [Effect.cancelRun, RowUpdate.onlyIf_apply]
    split <;> rfl
  · intro hstate
    simp only [Effect.cancelRun, RowUpdate.onlyIf_apply]
    split
    · exact .inr rfl
    · exact hstate

/-- A retry that resets settled tasks only. -/
theorem retry (hintegrity : db.Integrity) {runId : Uuid} {nodeId : String}
    {definition : Workflow} (hdefinition : db.definition? runId = some definition)
    (hsettled : retrySettled db runId nodeId = true)
    (hchanges : db.Changes (.retry runId (descendants definition nodeId)) db') :
    db'.Current := by
  refine h.rewrite hintegrity hchanges (Effect.keeps_retry _ _) rfl
    fun attempt hattempt task htask hafter => ⟨hafter, ?_, ?_⟩
  · simp only [Effect.retry, RowUpdate.onlyIf_apply]
    split <;> rfl
  · intro hstate
    simp only [Effect.retry, RowUpdate.onlyIf_apply]
    split
    · next hreset =>
        obtain ⟨hrun, hnode⟩ := Db.place_of_task? htask
        simp only [retrySettled, hdefinition, List.all_eq_true] at hsettled
        have := hsettled attempt hattempt
        simp only [Effect.retry, RowUpdate.keep_apply] at hafter
        simp only [Bool.and_eq_true, decide_eq_true_eq] at hreset
        simp [← hrun, ← hnode, hreset, hafter] at this
    · exact hstate

/-- Every operation that retries settled tasks only keeps attempts current. -/
theorem step (hintegrity : db.Integrity) (htokens : db.Tokens) {now : Time}
    {operation : Operation} (hguard : retriesSettled db (operation, now) = true)
    (hstep : db.Transition now operation db') : db'.Current := by
  have hheld : ∀ {lease : TaskLease} {row : Attempt} {f : RowUpdate Attempt},
      db.Leased lease row → ∀ attempt ∈ db.taskAttempts.rows,
        ((RowUpdate.forKey lease.attemptId f).apply attempt).state.live = true →
        attempt.state.live = true := by
    intro lease row f hleased attempt hattempt hafter
    rw [RowUpdate.forKey_apply] at hafter
    split at hafter
    · next hid =>
        rw [db.taskAttempts.eq_of_key_eq hattempt (Table.mem_of_row? hleased.found)
          (hid.trans (Db.id_of_attempt? hleased.found).symm)]
        exact htokens.held_live hleased
    · exact hafter
  have hsteady : ∀ {lease : TaskLease} {g : RowUpdate Task},
      (∀ task, (g.apply task).state = task.state ∧ (g.apply task).attempt = task.attempt) →
      ∀ task, ((RowUpdate.onlyIf (Task.leasedBy lease) g).apply task).state = task.state ∧
        ((RowUpdate.onlyIf (Task.leasedBy lease) g).apply task).attempt = task.attempt := by
    intro lease g hg task
    rw [RowUpdate.onlyIf_apply]
    split
    · exact hg task
    · exact ⟨rfl, rfl⟩
  cases hstep with
  | quiet hchanges =>
      exact h.steady hintegrity hchanges Effect.keeps_quiet rfl (fun _ _ hlive => hlive)
        fun _ => ⟨rfl, rfl⟩
  | submitted _ _ hchanges =>
      exact h.steady hintegrity hchanges (Effect.keeps_submit _ _) rfl
        (fun _ _ hlive => hlive) fun _ => ⟨rfl, rfl⟩
  | claimed hclaims => exact (h.sweep hintegrity now).claims (hintegrity.sweep now) hclaims
  | renewed hholds hchanges =>
      exact h.steady hintegrity hchanges (Effect.keeps_ofToken (fun _ => ⟨rfl, rfl, rfl, rfl⟩)
        (fun _ => ⟨rfl, rfl, le_rfl⟩) _) rfl (hheld hholds.toLeased)
        (hsteady fun _ => ⟨rfl, rfl⟩)
  | marked hholds _ hchanges =>
      exact h.steady hintegrity hchanges
        (Effect.keeps_ofLease (fun _ => ⟨rfl, rfl, rfl, rfl⟩) _) rfl (hheld hholds.toLeased)
        fun _ => ⟨rfl, rfl⟩
  | recorded hholds _ hchanges =>
      exact h.steady hintegrity hchanges
        (Effect.keeps_ofLease (fun _ => ⟨rfl, rfl, rfl, rfl⟩) _) rfl (hheld hholds.toLeased)
        fun _ => ⟨rfl, rfl⟩
  | observed hholds _ hchanges =>
      exact h.steady hintegrity hchanges
        (Effect.keeps_ofLease (fun _ => ⟨rfl, rfl, rfl, rfl⟩) _) rfl (hheld hholds.toLeased)
        fun _ => ⟨rfl, rfl⟩
  | released hholds hchanges =>
      exact h.steady hintegrity hchanges (Effect.keeps_ofToken (fun _ => ⟨rfl, rfl, rfl, rfl⟩)
        (fun _ => ⟨rfl, rfl, le_rfl⟩) _) rfl (hheld hholds.toLeased)
        (hsteady fun _ => ⟨rfl, rfl⟩)
  | markedCanceled hholds hchanges =>
      exact h.finish hintegrity htokens hholds.toLeased rfl rfl rfl rfl hchanges
        (Effect.keeps_finish (fun _ => ⟨rfl, rfl, rfl, rfl⟩) (fun _ => ⟨rfl, rfl, le_rfl⟩)
          Run.keeps_keep _)
  | completed _ _ _ hleased _ _ _ _ hfinished _ hchanges =>
      exact h.finish hintegrity htokens hleased rfl rfl rfl rfl hchanges
        (Effect.keeps_complete hfinished.keeps _)
  | failed _ _ _ hleased hchanges =>
      exact h.finish hintegrity htokens hleased rfl rfl rfl rfl hchanges
        (Effect.keeps_finish (fun _ => ⟨rfl, rfl, rfl, rfl⟩) (fun _ => ⟨rfl, rfl, le_rfl⟩)
          (Run.keeps_onlyIf (fun _ => ⟨rfl, rfl, rfl, rfl, rfl⟩) _) _)
  | runCanceled _ _ hchanges => exact h.cancelRun hintegrity hchanges
  | retried _ hdefinition _ hchanges => exact h.retry hintegrity hdefinition hguard hchanges

end Db.Current

theorem engine_current {db : Db}
    (hreach : engine.Reachable (fun db label => retriesSettled db label = true) db) :
    db.Current :=
  engine_invariant (fun _ hattempt => by cases hattempt)
    (fun _ _ _ _ hreach h hguard hstep =>
      h.step (engine_integrity hreach) (engine_tokens hreach) hguard hstep) hreach

/-- The attempt of a lease is not superseded: it is the last one of its task. -/
def Db.NotSuperseded (db : Db) (lease : TaskLease) : Prop :=
  ∃ attempt, db.attempt? lease.attemptId = some attempt ∧
    ∀ other ∈ db.taskAttempts.rows, other.runId = attempt.runId →
      other.nodeId = attempt.nodeId → other.number ≤ attempt.number

/-- While `retry_task` is called on settled tasks only, a task has at most one
live attempt, numbered by the counter of the task, and `complete_task` commits
outputs from no attempt that a newer one has superseded. -/
theorem live_attempt_unique {db : Db}
    (hreach : engine.Reachable (fun db label => retriesSettled db label = true) db) :
    (∀ attempt ∈ db.taskAttempts.rows, ∀ other ∈ db.taskAttempts.rows,
      attempt.runId = other.runId → attempt.nodeId = other.nodeId →
      attempt.state.live = true → other.state.live = true → attempt = other) ∧
    (∀ attempt ∈ db.taskAttempts.rows, attempt.state.live = true →
      ∃ task, db.task? attempt.runId attempt.nodeId = some task ∧
        attempt.number = task.attempt) ∧
    ∀ now lease result db', completeTask db now lease result = .ok db' →
      db'.task? lease.runId lease.nodeId ≠ db.task? lease.runId lease.nodeId →
      db.NotSuperseded lease := by
  have hintegrity := engine_integrity hreach
  have htokens := engine_tokens hreach
  have hcurrent := engine_current hreach
  refine ⟨?_, ?_, ?_⟩
  · intro attempt hattempt other hother hrun hnode hlive hlive'
    exact hcurrent.unique hintegrity hattempt hother hlive hlive' hrun hnode
  · intro attempt hattempt hlive
    obtain ⟨task, htask, -⟩ := hintegrity.attemptTask attempt hattempt
    exact ⟨task, htask, (hcurrent attempt hattempt hlive task htask).1⟩
  · intro now lease result db' hok hcommitted
    obtain ⟨_, _, _, rfl⟩ | ⟨task, row, _, _, _, _, htask, -, -, hleased, -⟩ :=
      completeTask_ok hok
    · exact absurd rfl hcommitted
    · refine ⟨row, hleased.found, fun other hother hrun hnode => ?_⟩
      have hplace : db.task? row.runId row.nodeId = some task := by
        rw [hleased.runId, hleased.nodeId, htask]
      obtain ⟨hnumber, -⟩ := hcurrent row (Table.mem_of_row? hleased.found)
        (htokens.held_live hleased) task hplace
      obtain ⟨found, hfound, hle⟩ := hintegrity.attemptTask other hother
      rw [hrun, hnode, hplace] at hfound
      cases hfound
      exact hle.trans hnumber.ge

/-- A retry after a failure: the sample run after its first attempt failed and a
second one was claimed. -/
def settledRetry : List (Operation × Time) :=
  sampleSubmission ++
    [(sampleClaim "w1", 1),
     (.failTask (sampleLease 2 1 1 "w1" 300000001 .leased none) (runtimeError "boom"), 2),
     (.retryTask 0 "a", 3), (sampleClaim "w2", 4)]

theorem live_attempt_unique_settledRetry :
    let db := engine.after retriesSettled {} settledRetry
    (db.taskAttempts.rows.map fun attempt => (attempt.nodeId, attempt.number, attempt.state)) =
      [("a", 1, .failed), ("a", 2, .leased)] ∧
    ∀ attempt ∈ db.taskAttempts.rows, attempt.state.live = true →
      ∃ task, db.task? attempt.runId attempt.nodeId = some task ∧
        attempt.number = task.attempt := by
  refine ⟨by decide, ?_⟩
  exact (live_attempt_unique ((TransitionSystem.Reachable.initial rfl).after settledRetry)).2.1

/-- A retry of a running task: the sample run with a task that is claimed, reset
and claimed again. -/
def unsettledRetry : List (Operation × Time) :=
  sampleSubmission ++ [(sampleClaim "w1", 1), (.retryTask 0 "a", 2), (sampleClaim "w2", 3)]

/-- A task can have two live attempts, neither of them expired. -/
theorem live_attempts_overlap :
    ¬ ∀ db, engine.Reachable TransitionSystem.anyStep db →
      ∀ attempt ∈ db.taskAttempts.rows, ∀ other ∈ db.taskAttempts.rows,
        attempt.runId = other.runId → attempt.nodeId = other.nodeId →
        attempt.state.live = true → other.state.live = true → attempt = other := by
  intro h
  have hrows : ((engine.after (fun _ _ => true) {} unsettledRetry).taskAttempts.rows.map
      fun attempt => (attempt.runId, attempt.nodeId, attempt.number, attempt.state)) =
      [(0, "a", 1, .leased), (0, "a", 2, .leased)] := by decide
  obtain ⟨first, rest, hcons, hfirst, hrest⟩ := List.map_eq_cons_iff.mp hrows
  obtain ⟨second, _, rfl, hsecond, -⟩ := List.map_eq_cons_iff.mp hrest
  simp only [Prod.mk.injEq] at hfirst hsecond
  have hempty : engine.Reachable (fun _ _ => true = true) {} := .initial rfl
  have hreach := (hempty.after unsettledRetry).unguarded
  have hsame := h _ hreach first (by rw [hcons]; exact List.mem_cons_self) second
    (by rw [hcons]; exact List.mem_cons_of_mem _ List.mem_cons_self)
    (by rw [hfirst.1, hsecond.1]) (by rw [hfirst.2.1, hsecond.2.1])
    (by rw [hfirst.2.2.2]; rfl) (by rw [hsecond.2.2.2]; rfl)
  have hnumber := hfirst.2.2.1
  rw [hsame, hsecond.2.2.1] at hnumber
  cases hnumber

end QhpcEcosystem
