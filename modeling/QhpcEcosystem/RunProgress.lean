/-
The progress of live runs.  While no task of a live run has failed or was canceled, one of its
tasks is unfinished, and one of these has parents that all succeeded.  A retry that leaves a
failed or canceled task of the run behind ends this, and so does the cancellation of an attempt in
a live run.
-/
import QhpcEcosystem.Descendants
import QhpcEcosystem.LeaseStates
import QhpcEcosystem.RunningTasks

namespace QhpcEcosystem

/-! ## Runs that go on -/

def TaskState.unfinished : TaskState → Bool
  | .pending | .running => true
  | .succeeded | .failed | .canceled => false

/-- A task in this state runs again only after a retry. -/
def TaskState.stopped : TaskState → Bool
  | .failed | .canceled => true
  | .pending | .running | .succeeded => false

/-- No failed or canceled task of the run is left outside of a node and its descendants. -/
def stopsWithin (db : Db) (runId : Uuid) (nodeId : String) : Bool :=
  match db.definition? runId with
  | some definition => db.tasks.rows.all fun task =>
      !(task.runId = runId && task.state.stopped) || task.nodeId ∈ descendants definition nodeId
  | none => true

/-- The lease is not valid, or its run is neither queued nor running. -/
def cancelsEnded (db : Db) (lease : TaskLease) : Bool :=
  match assertLease db lease with
  | .ok _ => !(db.run? lease.runId).any fun run => run.state.live
  | .error _ => true

/-- `release_lease` is called on an attempt that was submitted or is being
submitted. -/
def releasesSubmitted (db : Db) (lease : TaskLease) : Bool :=
  match assertLease db lease with
  | .ok row => row.targetHandle.isSome || row.state = .submitting
  | .error _ => true

/-- The guard of runs that leave no failed or canceled task in a live run. -/
def stopsNoLiveRun (db : Db) : Operation × Time → Bool
  | (.markAttemptCanceled lease _ _, _) => cancelsEnded db lease
  | (.retryTask runId nodeId, _) => stopsWithin db runId nodeId
  | (.releaseLease lease, _) => releasesSubmitted db lease
  | _ => true

theorem TaskState.unfinished_of_not_stopped {state : TaskState} (h : state.stopped = false)
    (hsucceeded : state ≠ .succeeded) : state.unfinished = true := by
  cases state with
  | pending => rfl
  | running => rfl
  | succeeded => exact absurd rfl hsucceeded
  | failed => cases h
  | canceled => cases h

/-- No task of the run has failed or was canceled, and some task is unfinished. -/
structure Db.GoesOn (db : Db) (runId : Uuid) : Prop where
  unstopped : ∀ task ∈ db.tasks.rows, task.runId = runId → task.state.stopped = false
  unfinished : ∃ task ∈ db.tasks.rows, task.runId = runId ∧ task.state.unfinished = true

/-- Every live run goes on. -/
def Db.RunsGoOn (db : Db) : Prop :=
  ∀ run ∈ db.runs.rows, run.state.live = true → db.GoesOn run.id

namespace Db.RunsGoOn

variable {db db' : Db}

/-- Rewriting rows keeps live runs going when none of their tasks is stopped and one is
unfinished. -/
theorem rewrite {e : Effect} (hchanges : db.Changes e db') (hnew : e.newTasks = [])
    (hnewRuns : e.newRuns = [])
    (hruns : ∀ run ∈ db.runs.rows, (e.run.apply run).state.live = true →
      (∀ task ∈ db.tasks.rows, task.runId = run.id →
        (e.task.apply task).state.stopped = false) ∧
      ∃ task ∈ db.tasks.rows, task.runId = run.id ∧
        (e.task.apply task).state.unfinished = true) : db'.RunsGoOn := by
  intro run hrun hlive
  obtain ⟨old, hold, rfl⟩ | hadded := hchanges.mem_runs.mp hrun
  · rw [Run.apply_id]
    obtain ⟨hunstopped, task, htask, htaskRun, hunfinished⟩ := hruns old hold hlive
    constructor
    · intro other hother hotherRun
      obtain ⟨before, hbefore, rfl⟩ | hadded := hchanges.mem_tasks.mp hother
      · rw [Task.apply_runId] at hotherRun
        exact hunstopped before hbefore hotherRun
      · simp [hnew] at hadded
    · exact ⟨e.task.apply task, hchanges.mem_tasks.mpr (.inl ⟨task, htask, rfl⟩),
        by rw [Task.apply_runId, htaskRun], hunfinished⟩
  · simp [hnewRuns] at hadded

variable (h : db.RunsGoOn)

include h

/-- An operation leaves a live run going when it leaves its tasks alone. -/
theorem elsewhere {e : Effect} {run : Run} (hrun : run ∈ db.runs.rows)
    (hlive : run.state.live = true)
    (htasks : ∀ task ∈ db.tasks.rows, task.runId = run.id → e.task.apply task = task) :
    (∀ task ∈ db.tasks.rows, task.runId = run.id → (e.task.apply task).state.stopped = false) ∧
      ∃ task ∈ db.tasks.rows, task.runId = run.id ∧
        (e.task.apply task).state.unfinished = true := by
  obtain ⟨task, htask, htaskRun, hunfinished⟩ := (h run hrun hlive).unfinished
  constructor
  · intro other hother hotherRun
    rw [htasks other hother hotherRun]
    exact (h run hrun hlive).unstopped other hother hotherRun
  · exact ⟨task, htask, htaskRun, by rwa [htasks task htask htaskRun]⟩

/-- Runs do not come to life, unfinished tasks stay unfinished, and no task is
stopped. -/
theorem steady {e : Effect} (hchanges : db.Changes e db') (hnew : e.newTasks = [])
    (hnewRuns : e.newRuns = [])
    (hrun : ∀ run ∈ db.runs.rows, (e.run.apply run).state.live = true →
      run.state.live = true)
    (htask : ∀ task ∈ db.tasks.rows,
      (task.state.unfinished = true → (e.task.apply task).state.unfinished = true) ∧
      (task.state.stopped = false → (e.task.apply task).state.stopped = false)) :
    db'.RunsGoOn := by
  refine rewrite hchanges hnew hnewRuns fun run hmem hlive => ?_
  have hgoes := h run hmem (hrun run hmem hlive)
  obtain ⟨task, htaskMem, htaskRun, hunfinished⟩ := hgoes.unfinished
  constructor
  · exact fun other hother hotherRun =>
      (htask other hother).2 (hgoes.unstopped other hother hotherRun)
  · exact ⟨task, htaskMem, htaskRun, (htask task htaskMem).1 hunfinished⟩

theorem sweep (now : Time) : (resetExpiredLeases db now).RunsGoOn := by
  refine h.steady (resetExpiredLeases_changes db now) rfl rfl (fun _ _ hlive => hlive)
    fun task _ => ?_
  simp only [Effect.sweep, Db.sweepTask]
  split
  · next row _ =>
      cases row.expiry with
      | closeCanceled => exact ⟨fun hstate => hstate, fun hstate => hstate⟩
      | keepTarget => exact ⟨fun hstate => hstate, fun hstate => hstate⟩
      | reopen => exact ⟨fun _ => rfl, fun _ => rfl⟩
  · exact ⟨fun hstate => hstate, fun hstate => hstate⟩

theorem claims {now : Time} {workerId : String} {leaseSeconds : Int} {admission : Admission}
    {claimed : Option TaskLease}
    (hclaims : db.Claims now workerId leaseSeconds admission claimed db') : db'.RunsGoOn := by
  cases hclaims with
  | idle _ _ => exact h
  | @recovered row _ =>
      refine h.steady (recoverAttempt_changes _ _ _ _ row.attempt) rfl rfl
        (fun _ _ hlive => hlive) fun task _ => ?_
      simp only [Effect.recover, RowUpdate.forKey_apply]
      split <;> exact ⟨fun hstate => hstate, fun hstate => hstate⟩
  | @started started _ _ _ hready hlease =>
      obtain ⟨-, -, -, -, -, -, -, -, hchanges⟩ := leaseTask_ok hlease
      refine h.steady hchanges rfl rfl (fun run hrun hlive => ?_) fun task _ => ?_
      · simp only [Effect.start, RowUpdate.forKey_apply] at hlive
        split at hlive
        · next hid =>
            obtain ⟨owner, howner, hlive, -⟩ := hready.run
            have hfound := Table.row?_of_mem hrun
            rw [hid] at hfound
            rwa [Option.some.inj (hfound.symm.trans howner)]
        · exact hlive
      · simp only [Effect.start, RowUpdate.forKey_apply]
        split
        · exact ⟨fun _ => rfl, fun _ => rfl⟩
        · exact ⟨fun hstate => hstate, fun hstate => hstate⟩

/-- All tasks of a new run are pending. -/
theorem submit (hintegrity : db.Integrity) {row : WorkflowRow} {run : Run}
    {tasks : List Task} {now : Time} (hsubmits : db.Submits now row run tasks)
    (hchanges : db.Changes (.submit run tasks) db') : db'.RunsGoOn := by
  have hpending := hsubmits.pending
  have hnew := Db.Submits.fresh hchanges
  have holdTasks := Db.Submits.elsewhere hintegrity hchanges
  intro live hlive hstate
  obtain ⟨old, hold, rfl⟩ | hadded := hchanges.mem_runs.mp hlive
  · have hgoes := h old hold hstate
    constructor
    · intro other hother hotherRun
      obtain ⟨before, hbefore, rfl⟩ | hadded := hchanges.mem_tasks.mp hother
      · exact hgoes.unstopped before hbefore hotherRun
      · exact absurd (hotherRun.symm.trans (hpending other hadded).1) (hnew old hold)
    · obtain ⟨task, htask, htaskRun, hunfinished⟩ := hgoes.unfinished
      exact ⟨task, hchanges.mem_tasks.mpr (.inl ⟨task, htask, rfl⟩), htaskRun, hunfinished⟩
  · obtain rfl := List.mem_singleton.mp hadded
    constructor
    · intro other hother hotherRun
      obtain ⟨before, hbefore, rfl⟩ | hadded := hchanges.mem_tasks.mp hother
      · exact absurd hotherRun (holdTasks before hbefore)
      · rw [(hpending other hadded).2]
        rfl
    · obtain ⟨task, htask⟩ := hsubmits.exists_task hintegrity
      exact ⟨task, hchanges.mem_tasks.mpr (.inr htask), (hpending task htask).1,
        by rw [(hpending task htask).2]; rfl⟩

/-- A valid lease is canceled in a run that has ended. -/
theorem markCanceled {lease : TaskLease} {f : RowUpdate Attempt} {row : Attempt} {now : Time}
    (hholds : db.Holds lease row) (hguard : cancelsEnded db lease = true)
    (hchanges : db.Changes (.finish lease f (Task.cancel now)) db') : db'.RunsGoOn := by
  refine rewrite hchanges rfl rfl fun run hrun hlive => ?_
  refine h.elsewhere hrun hlive fun task _ htaskRun => ?_
  simp only [Effect.finish, RowUpdate.forKey_apply]
  split
  · next hkey =>
      have hid : run.id = lease.runId := htaskRun.symm.trans (Prod.mk.inj hkey).1
      have hfound : db.run? lease.runId = some run := by
        rw [← hid]
        exact Table.row?_of_mem hrun
      have hlive : run.state.live = true := hlive
      simp [cancelsEnded, assertLease_eq_ok.mpr hholds, hfound, hlive] at hguard
  · rfl

/-- The completion of a task ends its run, or another task of the run has not succeeded. -/
theorem complete {lease : TaskLease} {outputIds : ArtifactIds} {update : RowUpdate Run}
    {added : List Artifact} {now : Time} {log : String}
    (hfinished : FinishedRun db db'.tasks now lease.runId update)
    (hchanges : db.Changes (.complete lease now outputIds log update added) db') :
    db'.RunsGoOn := by
  have helsewhere : ∀ other : Task, (other.runId, other.nodeId) ≠ (lease.runId, lease.nodeId) →
      (Effect.complete lease now outputIds log update added).task.apply other = other := by
    intro other hother
    simp only [Effect.complete, Effect.finish, RowUpdate.forKey_apply, Task.key_eq, hother,
      ↓reduceIte]
  have hstops : ∀ other : Task, other.state.stopped = false →
      ((Effect.complete lease now outputIds log update added).task.apply other).state.stopped =
        false := by
    intro other hstopped
    simp only [Effect.complete, Effect.finish, RowUpdate.forKey_apply]
    split
    · rfl
    · exact hstopped
  refine rewrite hchanges rfl rfl fun run hrun hlive => ?_
  by_cases hid : run.id = lease.runId
  · have hunfinished : run.state.live = true ∧ ∃ other ∈ db'.tasks.rows,
        other.runId = lease.runId ∧ other.state ≠ .succeeded := by
      cases hfinished with
      | unfinished hother hotherRun hstate => exact ⟨hlive, _, hother, hotherRun, hstate⟩
      | finished _ _ _ =>
          simp only [Effect.complete, Effect.finish, RowUpdate.forKey_apply, Run.key_eq, hid,
            ↓reduceIte] at hlive
          cases hlive
    obtain ⟨hlive, other, hother, hotherRun, hstate⟩ := hunfinished
    have hgoes := h run hrun hlive
    obtain ⟨before, hbefore, rfl⟩ | hadded := hchanges.mem_tasks.mp hother
    · rw [Task.apply_runId, ← hid] at hotherRun
      have hunstopped := hstops before (hgoes.unstopped before hbefore hotherRun)
      exact ⟨fun task htask htaskRun => hstops task (hgoes.unstopped task htask htaskRun),
        before, hbefore, hotherRun, TaskState.unfinished_of_not_stopped hunstopped hstate⟩
    · cases hadded
  · have hlive : run.state.live = true := by
      cases hfinished with
      | unfinished _ _ _ => exact hlive
      | finished _ _ _ =>
          simpa only [Effect.complete, Effect.finish, RowUpdate.forKey_apply, Run.key_eq, hid,
            ↓reduceIte] using hlive
    refine h.elsewhere hrun hlive fun other _ hotherRun => helsewhere other ?_
    intro hkey
    exact hid (hotherRun.symm.trans (Prod.mk.inj hkey).1)

/-- An operation that ends a run leaves the tasks of other runs alone. -/
theorem endRun {e : Effect} {runId : Uuid} {now : Time} {state : RunState}
    (hchanges : db.Changes e db') (hnew : e.newTasks = []) (hnewRuns : e.newRuns = [])
    (hrunUpdate : e.run = .forKey runId (Run.finish state now)) (hended : state.live = false)
    (htasks : ∀ task ∈ db.tasks.rows, task.runId ≠ runId → e.task.apply task = task) :
    db'.RunsGoOn := by
  refine rewrite hchanges hnew hnewRuns fun run hrun hlive => ?_
  rw [hrunUpdate, RowUpdate.forKey_apply] at hlive
  split at hlive
  · have hlive : state.live = true := hlive
    simp [hended] at hlive
  · next hother =>
      exact h.elsewhere hrun hlive fun task htask htaskRun => htasks task htask fun hid =>
        hother (htaskRun.symm.trans hid)

/-- A retry resets all tasks that have failed or were canceled. -/
theorem retry {runId : Uuid} {nodeId : String} {definition : Workflow}
    (hfound : db.definition? runId = some definition)
    (hnodes : ∀ node ∈ descendants definition nodeId, ∃ task, db.task? runId node = some task)
    (hguard : stopsWithin db runId nodeId = true)
    (hchanges : db.Changes (.retry runId (descendants definition nodeId)) db') :
    db'.RunsGoOn := by
  refine rewrite hchanges rfl rfl fun run hrun hlive => ?_
  by_cases hid : run.id = runId
  · have hreset : ∀ task : Task, task.runId = run.id →
        task.nodeId ∈ descendants definition nodeId →
        ((Effect.retry runId (descendants definition nodeId)).task.apply task).state =
          .pending := by
      intro task htaskRun hnode
      simp [Effect.retry, RowUpdate.onlyIf_apply, htaskRun, hid, hnode, Task.retry]
    simp only [stopsWithin, hfound, List.all_eq_true, Bool.or_eq_true, Bool.not_eq_true',
      decide_eq_true_eq] at hguard
    constructor
    · intro task htask htaskRun
      by_cases hnode : task.nodeId ∈ descendants definition nodeId
      · rw [hreset task htaskRun hnode]
        rfl
      · have hunstopped := (hguard task htask).resolve_right hnode
        rw [htaskRun, hid] at hunstopped
        simpa [Effect.retry, RowUpdate.onlyIf_apply, hnode] using hunstopped
    · have hself : nodeId ∈ descendants definition nodeId := mem_descendants.mpr .refl
      obtain ⟨task, htask⟩ := hnodes nodeId hself
      obtain ⟨htaskRun, htaskNode⟩ := Db.place_of_task? htask
      refine ⟨task, Table.mem_of_row? htask, htaskRun.trans hid.symm, ?_⟩
      rw [hreset task (htaskRun.trans hid.symm) (by rw [htaskNode]; exact hself)]
      rfl
  · have hlive : run.state.live = true := by
      simpa only [Effect.retry, RowUpdate.forKey_apply, Run.key_eq, hid, ↓reduceIte] using hlive
    refine h.elsewhere hrun hlive fun task _ htaskRun => ?_
    have hne : ¬ task.runId = runId := fun heq => hid (htaskRun.symm.trans heq)
    simp [Effect.retry, RowUpdate.onlyIf_apply, hne]

/-- Every operation that meets the guard leaves all live runs going. -/
theorem step (hintegrity : db.Integrity) {now : Time} {operation : Operation}
    (hguard : stopsNoLiveRun db (operation, now) = true) (hstep : db.Transition now operation db') :
    db'.RunsGoOn := by
  have hsame : ∀ {lease : TaskLease} {g : RowUpdate Task},
      (∀ task, (g.apply task).state = task.state) → ∀ task : Task,
      (task.state.unfinished = true →
        ((RowUpdate.onlyIf (Task.leasedBy lease) g).apply task).state.unfinished = true) ∧
      (task.state.stopped = false →
        ((RowUpdate.onlyIf (Task.leasedBy lease) g).apply task).state.stopped = false) := by
    intro lease g hg task
    rw [RowUpdate.onlyIf_apply]
    split
    · rw [hg task]
      exact ⟨fun hstate => hstate, fun hstate => hstate⟩
    · exact ⟨fun hstate => hstate, fun hstate => hstate⟩
  have hsteady : ∀ {e : Effect}, db.Changes e db' → e.newTasks = [] → e.newRuns = [] →
      e.run = .keep → e.task = .keep → db'.RunsGoOn := by
    intro e hchanges hnew hnewRuns hrun htask
    refine h.steady hchanges hnew hnewRuns (fun _ _ hlive => ?_) fun _ _ => ?_
    · rwa [hrun] at hlive
    · rw [htask]
      exact ⟨fun hstate => hstate, fun hstate => hstate⟩
  cases hstep with
  | quiet hchanges => exact hsteady hchanges rfl rfl rfl rfl
  | submitted hsubmits _ hchanges => exact h.submit hintegrity hsubmits hchanges
  | claimed hclaims => exact (h.sweep now).claims hclaims
  | renewed _ hchanges =>
      exact h.steady hchanges rfl rfl (fun _ _ hlive => hlive)
        fun task _ => hsame (fun _ => rfl) task
  | marked _ _ hchanges => exact hsteady hchanges rfl rfl rfl rfl
  | recorded _ _ hchanges => exact hsteady hchanges rfl rfl rfl rfl
  | observed _ _ hchanges => exact hsteady hchanges rfl rfl rfl rfl
  | released _ hchanges =>
      exact h.steady hchanges rfl rfl (fun _ _ hlive => hlive)
        fun task _ => hsame (fun _ => rfl) task
  | markedCanceled hholds hchanges => exact h.markCanceled hholds hguard hchanges
  | completed _ _ _ _ _ _ _ _ hfinished _ hchanges => exact h.complete hfinished hchanges
  | @failed lease _ _ _ _ _ _ _ _ hchanges =>
      refine h.endRun hchanges rfl rfl rfl rfl fun task _ hne => ?_
      have hkey : ¬ (task.runId, task.nodeId) = (lease.runId, lease.nodeId) := fun hkey =>
        hne (Prod.mk.inj hkey).1
      simp only [Effect.finish, RowUpdate.forKey_apply, Task.key_eq, hkey, ↓reduceIte]
  | runCanceled _ _ hchanges =>
      refine h.endRun hchanges rfl rfl rfl rfl fun task _ hne => ?_
      simp [Effect.cancelRun, RowUpdate.onlyIf_apply, Task.unfinishedIn, hne]
  | retried _ hdefinition hnodes hchanges =>
      exact h.retry hdefinition hnodes hguard hchanges

end Db.RunsGoOn

/-! ## The next step of a run -/

/-- While no task of a run is stopped, some task at an unfinished one or upstream of
it has parents that all succeeded. -/
theorem Db.Integrity.exists_next {db : Db} (h : db.Integrity) {runId : Uuid}
    {definition : Workflow} (hdefinition : db.definition? runId = some definition)
    (hunstopped : ∀ task ∈ db.tasks.rows, task.runId = runId → task.state.stopped = false)
    {task : Task} (htask : task ∈ db.tasks.rows) (hrun : task.runId = runId)
    (hstate : task.state.unfinished = true) :
    ∃ next ∈ db.tasks.rows, next.runId = runId ∧ next.state.unfinished = true ∧
      ∀ node ∈ parents definition next.nodeId, ∃ parent,
        db.task? runId node = some parent ∧ parent.state = .succeeded := by
  have hwf := h.wellFormed hdefinition
  obtain ⟨run, row, hfound, -, -⟩ := Db.definition?_eq_some.mp hdefinition
  obtain ⟨rank, hrank⟩ := hwf.acyclic
  -- induction on the rank: a parent that has not succeeded is unfinished itself
  induction hbound : rank task.nodeId using Nat.strong_induction_on generalizing task with
  | h bound ih =>
      by_cases hparents : ∀ node ∈ parents definition task.nodeId, ∃ parent,
          db.task? runId node = some parent ∧ parent.state = .succeeded
      · exact ⟨task, htask, hrun, hstate, hparents⟩
      · push Not at hparents
        obtain ⟨node, hnode, hpending⟩ := hparents
        obtain ⟨edge, hedge, rfl⟩ := List.mem_map.mp hnode
        simp only [List.mem_filter, decide_eq_true_eq] at hedge
        obtain ⟨hedge, htarget⟩ := hedge
        have hrunId := Db.id_of_run? hfound
        obtain ⟨parent, hparent⟩ := h.nodes run (Table.mem_of_row? hfound) definition
          (by rw [hrunId, hdefinition]) edge.source.node (hwf.sources edge hedge)
        rw [hrunId] at hparent
        obtain ⟨hparentRun, hparentNode⟩ := Db.place_of_task? hparent
        have hless : rank parent.nodeId < bound := by
          rw [← hbound, hparentNode, ← htarget]
          exact hrank edge hedge
        have hparentMem := Table.mem_of_row? hparent
        exact ih _ hless hparentMem hparentRun (TaskState.unfinished_of_not_stopped
          (hunstopped parent hparentMem hparentRun) (hpending parent hparent)) rfl

theorem engine_runsGoOn {db : Db}
    (hreach : engine.Reachable (fun db label => stopsNoLiveRun db label = true) db) :
    db.RunsGoOn :=
  engine_invariant (fun _ hrun => by cases hrun)
    (fun _ _ _ _ hreach h hguard hstep => h.step (engine_integrity hreach) hguard hstep) hreach

/-- While leases are released after a submission, attempts without a lease can be
claimed. -/
theorem engine_reclaims {db : Db}
    (hreach : engine.Reachable (fun db label => stopsNoLiveRun db label = true) db) :
    ∀ attempt ∈ db.taskAttempts.rows, attempt.Reclaims := by
  refine @engine_invariant (fun db => ∀ attempt ∈ db.taskAttempts.rows, attempt.Reclaims) _ _
    (fun _ hattempt => by cases hattempt) ?_ hreach
  intro db now operation db' hreach h hguard hstep row' hrow'
  obtain ⟨row, hrow, -, hchange⟩ | hadded := hstep.attemptChanges.new row' hrow'
  · refine (h row hrow).change hrow (engine_tokens hreach) hchange ?_
    rintro lease rfl hholds
    simp only [stopsNoLiveRun, releasesSubmitted, assertLease_eq_ok.mpr hholds, Bool.or_eq_true,
      decide_eq_true_eq] at hguard
    exact hguard.imp_left fun hsome => Option.isSome_iff_ne_none.mp hsome
  · cases hadded with
    | started _ => exact .fresh _ _ _ _ _ _

/-- Every live run has a next step: a pending task that `claim_task` may start,
or a live attempt that a worker holds or can claim. -/
def Db.Progresses (db : Db) : Prop :=
  ∀ run ∈ db.runs.rows, run.state.live = true →
    (∃ task, task.runId = run.id ∧ db.Ready .any task) ∨
    ∃ attempt ∈ db.taskAttempts.rows, attempt.runId = run.id ∧ attempt.state.live = true ∧
      (attempt.leaseToken ≠ none ∧ attempt.leaseExpiresAt ≠ none ∨ db.Claimable attempt)

/-- No live run is stuck when every retry takes in the failed and canceled tasks of its run
and attempts are canceled in ended runs only. -/
theorem live_run_progresses {db : Db}
    (hreach : engine.Reachable (fun db label => stopsNoLiveRun db label = true) db) :
    db.Progresses := by
  have hintegrity := engine_integrity hreach
  intro run hrun hlive
  have hfound : db.run? run.id = some run := Table.row?_of_mem hrun
  obtain ⟨definition, hdefinition⟩ := hintegrity.definition?_isSome hfound
  obtain ⟨hunstopped, task, htask, htaskRun, hunfinished⟩ := engine_runsGoOn hreach run hrun hlive
  obtain ⟨next, hnext, hnextRun, hstate, hparents⟩ :=
    hintegrity.exists_next hdefinition hunstopped htask htaskRun hunfinished
  cases hcase : next.state with
  | pending =>
      refine .inl ⟨next, hnextRun, hnext, hcase, ⟨run, by rw [hnextRun, hfound], hlive, rfl⟩,
        definition, by rw [hnextRun, hdefinition], fun node hnode => ?_⟩
      rw [hnextRun]
      exact hparents node hnode
  | running =>
      obtain ⟨attempt, hattempt, hattemptRun, -, -, hattemptLive⟩ :=
        engine_runningHeld hreach next hnext hcase
      have hreclaims := engine_reclaims hreach attempt hattempt
      refine .inr ⟨attempt, hattempt, hattemptRun.trans hnextRun, hattemptLive, ?_⟩
      by_cases htoken : attempt.leaseToken = none
      · exact .inr (hintegrity.claimable hattempt (hreclaims.unleased hattemptLive htoken))
      · exact .inl ⟨htoken, hreclaims.expires htoken⟩
  | succeeded => simp [hcase, TaskState.unfinished] at hstate
  | failed => simp [hcase, TaskState.unfinished] at hstate
  | canceled => simp [hcase, TaskState.unfinished] at hstate

theorem live_run_progresses_retry :
    let db := engine.after stopsNoLiveRun {} settledRetry
    (db.runs.rows.map Run.state, db.tasks.rows.map Task.state) =
      ([.running], [.running, .pending]) ∧ db.Progresses :=
  ⟨by decide, live_run_progresses ((TransitionSystem.Reachable.initial rfl).after settledRetry)⟩

/-- Both tasks of the sample run fail, and one of them is retried and
completed. -/
def halfRetried : List (Operation × Time) :=
  sampleSubmission ++
    [(sampleClaim "w1", 1), (sampleClaim "w2", 2),
     (.failTask (sampleLease 2 1 1 "w1" 300000001 .leased none) (runtimeError "boom"), 3),
     (.failTask { sampleLease 4 3 1 "w2" 300000002 .leased none with nodeId := "b" }
       (runtimeError "boom"), 4),
     (.retryTask 0 "a", 5), (sampleClaim "w1", 6),
     (.completeTask (sampleLease 6 5 2 "w1" 300000006 .leased none) sampleResult, 7)]

/-- A run can stay live with one task that succeeded and one that failed. -/
theorem live_run_stuck :
    ¬ ∀ db, engine.Reachable TransitionSystem.anyStep db → db.Progresses := by
  intro h
  have hempty : engine.Reachable (fun _ _ => true = true) {} := .initial rfl
  have hprogresses := h _ (hempty.after halfRetried).unguarded
  have hruns : ((engine.after (fun _ _ => true) {} halfRetried).runs.rows.map Run.state) =
      [.running] := by decide
  have htasks : ((engine.after (fun _ _ => true) {} halfRetried).tasks.rows.map Task.state) =
      [.succeeded, .failed] := by decide
  have hattempts : ((engine.after (fun _ _ => true) {} halfRetried).taskAttempts.rows.map
      fun attempt => attempt.state.live) = [false, false, false] := by decide
  obtain ⟨run, rest, hcons, hrun, -⟩ := List.map_eq_cons_iff.mp hruns
  rcases hprogresses run (by rw [hcons]; exact List.mem_cons_self) (by rw [hrun]; rfl) with
    ⟨task, -, hready⟩ | ⟨attempt, hattempt, -, hlive, -⟩
  · have hstate := List.mem_map_of_mem (f := Task.state) hready.mem
    rw [htasks, hready.pending] at hstate
    simp at hstate
  · have hstate := List.mem_map_of_mem (f := fun attempt : Attempt => attempt.state.live) hattempt
    rw [hattempts, hlive] at hstate
    simp at hstate

end QhpcEcosystem
