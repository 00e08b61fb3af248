/-
What an operation does to the row of one task and of one run, over all
operations.
-/
import QhpcEcosystem.AttemptChange
import QhpcEcosystem.LateCancellation

namespace QhpcEcosystem

/-- The change of a task that was there before the operation. -/
inductive Db.TaskChange (db : Db) (now : Time) : Operation → Task → Task → Prop
  | kept {operation : Operation} {task : Task} : db.TaskChange now operation task task
  | renewed {lease : TaskLease} {leaseSeconds : Int} {task : Task} :
      task.leasedBy lease = true →
      db.TaskChange now (.renewLease lease leaseSeconds) task
        ((Task.renew (leaseExpiration now leaseSeconds)).apply task)
  | released {lease : TaskLease} {task : Task} : task.leasedBy lease = true →
      db.TaskChange now (.releaseLease lease) task (Task.clearLease.apply task)
  | attemptCanceled {lease : TaskLease} {log : String} {details : List (String × Value)}
      {row : Attempt} {task : Task} : db.Holds lease row →
      db.task? lease.runId lease.nodeId = some task →
      db.TaskChange now (.markAttemptCanceled lease log details) task
        ((Task.cancel now).apply task)
  | completed {lease : TaskLease} {result : TaskResult} {outputIds : ArtifactIds}
      {row : Attempt} {task : Task} {stored : Db} :
      db.task? lease.runId lease.nodeId = some task → task.state = .running →
      task.leaseToken = some lease.token → db.Leased lease row →
      insertOutputs now row task.operation.definition.outputs result.outputs.rows db
        Table.empty = .ok (stored, outputIds) →
      missingOutputs task.operation.definition.outputs result = [] →
      db.TaskChange now (.completeTask lease result) task
        ((Task.succeed now outputIds result.log).apply task)
  | failed {lease : TaskLease} {error : Exn} {row : Attempt} {task : Task} :
      db.task? lease.runId lease.nodeId = some task → task.state = .running →
      task.leaseToken = some lease.token → db.Leased lease row →
      db.TaskChange now (.failTask lease error) task
        ((Task.fail now (taskFailure error)).apply task)
  | expired {workerId : String} {leaseSeconds : Int} {admission : Admission} {task : Task}
      {expired : ExpiredLease} : db.expiredLease? now task = some expired →
      db.TaskChange now (.claimTask workerId leaseSeconds admission) task
        (expired.expiry.taskUpdate.apply task)
  | recovered {workerId : String} {leaseSeconds : Int} {admission : Admission}
      {task : Task} : db.TaskChange now (.claimTask workerId leaseSeconds admission) task
        ((Task.lease db.uuids (leaseExpiration now leaseSeconds)).apply
          ((db.sweepTask now).apply task))
  | started {workerId : String} {leaseSeconds : Int} {admission : Admission} {task : Task} :
      (resetExpiredLeases db now).Ready admission ((db.sweepTask now).apply task) →
      db.TaskChange now (.claimTask workerId leaseSeconds admission) task
        ((Task.start db.uuids (leaseExpiration now leaseSeconds) now).apply
          ((db.sweepTask now).apply task))
  | canceled {task : Task} {runId : Uuid} : task.unfinishedIn runId = true →
      db.TaskChange now (.cancelRun runId) task ((Task.cancel now).apply task)
  | retried {task : Task} {nodeId : String} {definition : Workflow} :
      db.definition? task.runId = some definition →
      task.nodeId ∈ descendants definition nodeId →
      db.TaskChange now (.retryTask task.runId nodeId) task (Task.retry.apply task)

/-- No change touches the operation column. -/
theorem Db.TaskChange.operation_eq {db : Db} {now : Time} {operation : Operation}
    {task task' : Task} (h : db.TaskChange now operation task task') :
    task'.operation = task.operation := by
  cases h with
  | @expired _ _ _ _ expired _ => cases expired.expiry <;> rfl
  | recovered | started _ => exact (Task.keeps_sweep db now task).1
  | _ => rfl

/-- No change touches the sequence number. -/
theorem Db.TaskChange.sequence_eq {db : Db} {now : Time} {operation : Operation}
    {task task' : Task} (h : db.TaskChange now operation task task') :
    task'.sequence = task.sequence := by
  cases h with
  | @expired _ _ _ _ expired _ => cases expired.expiry <;> rfl
  | recovered | started _ => exact (Task.keeps_sweep db now task).2.1
  | _ => rfl

/-- The sweep neither touches outputs nor completes a task. -/
theorem Task.outputs_sweep (db : Db) (now : Time) (task : Task) :
    ((db.sweepTask now).apply task).outputs = task.outputs ∧
      (((db.sweepTask now).apply task).state = .succeeded → task.state = .succeeded) := by
  simp only [Db.sweepTask]
  split
  · next expired _ =>
      cases expired.expiry
      · exact ⟨rfl, id⟩
      · exact ⟨rfl, id⟩
      · exact ⟨rfl, fun hstate => by cases hstate⟩
  · exact ⟨rfl, id⟩

/-- The outputs of a task are recorded by its completion and dropped by a retry that
makes it pending again. -/
theorem Db.TaskChange.outputs {db : Db} {now : Time} {operation : Operation}
    {task task' : Task} (h : db.TaskChange now operation task task') :
    (task'.outputs = task.outputs ∧ (task'.state = .succeeded → task.state = .succeeded)) ∨
    (∃ lease result row stored, operation = .completeTask lease result ∧
      db.task? lease.runId lease.nodeId = some task ∧ task.state = .running ∧
      task.leaseToken = some lease.token ∧ db.Leased lease row ∧
      insertOutputs now row task.operation.definition.outputs result.outputs.rows db
        Table.empty = .ok (stored, task'.outputs) ∧
      missingOutputs task.operation.definition.outputs result = []) ∨
    ∃ nodeId definition, operation = .retryTask task.runId nodeId ∧
      db.definition? task.runId = some definition ∧
      task.nodeId ∈ descendants definition nodeId ∧ task'.state = .pending := by
  cases h with
  | completed htask hrunning htoken hleased hinsert hmissing =>
      exact .inr (.inl ⟨_, _, _, _, rfl, htask, hrunning, htoken, hleased, hinsert, hmissing⟩)
  | retried hdefinition hnode => exact .inr (.inr ⟨_, _, rfl, hdefinition, hnode, rfl⟩)
  | @expired _ _ _ _ expired _ =>
      cases expired.expiry
      · exact .inl ⟨rfl, id⟩
      · exact .inl ⟨rfl, id⟩
      · exact .inl ⟨rfl, nofun⟩
  | recovered => exact .inl (Task.outputs_sweep db now task)
  | started _ => exact .inl ⟨(Task.outputs_sweep db now task).1, nofun⟩
  | attemptCanceled _ _ | failed _ _ _ _ | canceled _ => exact .inl ⟨rfl, nofun⟩
  | kept | renewed _ | released _ => exact .inl ⟨rfl, id⟩

/-- The operation submits the run with its tasks. -/
structure Db.Adds (db : Db) (now : Time) (operation : Operation) (db' : Db) (run : Run)
    (tasks : List Task) : Prop where
  submits : ∃ row registry executionTarget executionClass, db.Submits now row run tasks ∧
    operation = .submitRun row.workflowId row.version registry run.inputs executionTarget
      executionClass
  fresh : ∀ old ∈ db.runs.rows, old.id ≠ run.id
  run : db'.run? run.id = some run
  tasks : ∀ task ∈ tasks, task ∈ db'.tasks.rows

/-- The tasks after an operation. -/
structure Db.TaskChanges (db : Db) (now : Time) (operation : Operation) (db' : Db) :
    Prop where
  old : ∀ task ∈ db.tasks.rows, ∃ task' ∈ db'.tasks.rows, task'.runId = task.runId ∧
    task'.nodeId = task.nodeId ∧ db.TaskChange now operation task task'
  new : ∀ task' ∈ db'.tasks.rows,
    (∃ task ∈ db.tasks.rows, task'.runId = task.runId ∧ task'.nodeId = task.nodeId ∧
      db.TaskChange now operation task task') ∨
    ∃ run tasks, db.Adds now operation db' run tasks ∧ task' ∈ tasks

/-- The change of a run that was there before the operation. -/
inductive Db.RunChange (db : Db) (now : Time) (db' : Db) : Operation → Run → Run → Prop
  | kept {operation : Operation} {run : Run} : db.RunChange now db' operation run run
  | started {workerId : String} {leaseSeconds : Int} {admission : Admission} {run : Run} :
      run.state.live = true →
      db.RunChange now db' (.claimTask workerId leaseSeconds admission) run
        ((Run.start now).apply run)
  | completed {lease : TaskLease} {result : TaskResult} {run : Run} {task : Task}
      {definition : Workflow} {outputs : ArtifactIds} : run.id = lease.runId →
      db.task? lease.runId lease.nodeId = some task → task.state = .running →
      (∀ task ∈ db'.tasks.rows, task.runId = lease.runId → task.state = .succeeded) →
      db.definition? lease.runId = some definition →
      collectOutputs { db with tasks := db'.tasks } lease.runId definition.outputs.rows
        Table.empty = .ok outputs →
      db.RunChange now db' (.completeTask lease result) run
        ((Run.succeed now outputs).apply run)
  | failed {lease : TaskLease} {error : Exn} {run : Run} {task : Task} :
      run.id = lease.runId → db.task? lease.runId lease.nodeId = some task →
      task.state = .running →
      db.RunChange now db' (.failTask lease error) run ((Run.finish .failed now).apply run)
  | canceled {run : Run} : run.state.terminal = false →
      db.RunChange now db' (.cancelRun run.id) run ((Run.finish .canceled now).apply run)
  | requeued {run : Run} {nodeId : String} :
      db.RunChange now db' (.retryTask run.id nodeId) run (Run.requeue.apply run)

/-- The runs after an operation. -/
structure Db.RunChanges (db : Db) (now : Time) (operation : Operation) (db' : Db) :
    Prop where
  old : ∀ run ∈ db.runs.rows, ∃ run' ∈ db'.runs.rows, run'.id = run.id ∧
    db.RunChange now db' operation run run'
  new : ∀ run' ∈ db'.runs.rows, (∃ run ∈ db.runs.rows, run'.id = run.id ∧
      db.RunChange now db' operation run run') ∨
    ∃ tasks, db.Adds now operation db' run' tasks

section Changes

variable {db db' : Db} {now : Time} {operation : Operation}

theorem Db.Changes.taskChanges {e : Effect} (hchanges : db.Changes e db')
    (hnew : e.newTasks = [])
    (hold : ∀ task ∈ db.tasks.rows,
      db.TaskChange now operation task (e.task.apply task)) :
    db.TaskChanges now operation db' where
  old task htask := ⟨_, hchanges.mem_tasks.mpr (.inl ⟨task, htask, rfl⟩),
    Task.apply_runId _ _, Task.apply_nodeId _ _, hold task htask⟩
  new task' htask' := by
    obtain ⟨task, htask, rfl⟩ | hadded := hchanges.mem_tasks.mp htask'
    · exact .inl ⟨task, htask, Task.apply_runId _ _, Task.apply_nodeId _ _, hold task htask⟩
    · simp [hnew] at hadded

theorem Db.Changes.runChanges {e : Effect} (hchanges : db.Changes e db')
    (hnew : e.newRuns = [])
    (hold : ∀ run ∈ db.runs.rows, db.RunChange now db' operation run (e.run.apply run)) :
    db.RunChanges now operation db' where
  old run hrun := ⟨_, hchanges.mem_runs.mpr (.inl ⟨run, hrun, rfl⟩), Run.apply_id _ _,
    hold run hrun⟩
  new run' hrun' := by
    obtain ⟨run, hrun, rfl⟩ | hadded := hchanges.mem_runs.mp hrun'
    · exact .inl ⟨run, hrun, Run.apply_id _ _, hold run hrun⟩
    · simp [hnew] at hadded

/-- A task keeps its place. -/
theorem Db.TaskChanges.task? (h : db.TaskChanges now operation db') {runId : Uuid}
    {nodeId : String} {task : Task} (htask : db.task? runId nodeId = some task) :
    ∃ task', db'.task? runId nodeId = some task' ∧ db.TaskChange now operation task task' := by
  obtain ⟨hrun, hnode⟩ := Db.place_of_task? htask
  obtain ⟨task', htask', hsameRun, hsameNode, hchange⟩ := h.old task (Table.mem_of_row? htask)
  refine ⟨task', ?_, hchange⟩
  rw [← hrun, ← hnode, ← hsameRun, ← hsameNode]
  exact Table.row?_of_mem htask'

/-- The update of one task. -/
theorem Db.TaskChange.forPlace {runId : Uuid} {nodeId : String} {held : Task}
    {f : RowUpdate Task} (hheld : db.task? runId nodeId = some held)
    (hchange : db.TaskChange now operation held (f.apply held)) {task : Task}
    (htask : task ∈ db.tasks.rows) :
    db.TaskChange now operation task ((RowUpdate.forKey (runId, nodeId) f).apply task) := by
  rw [RowUpdate.forKey_apply]
  split
  · next hkey =>
      rw [db.tasks.eq_of_key_eq htask (Table.mem_of_row? hheld)
        (hkey.trans (Table.key_of_row? hheld).symm)]
      exact hchange
  · exact .kept

theorem Db.TaskChange.onlyIf {p : Task → Bool} {f : RowUpdate Task} {task : Task}
    (hchange : p task = true → db.TaskChange now operation task (f.apply task)) :
    db.TaskChange now operation task ((RowUpdate.onlyIf p f).apply task) := by
  rw [RowUpdate.onlyIf_apply]
  split
  · next hp => exact hchange hp
  · exact .kept

/-- The update of one run. -/
theorem Db.RunChange.forRun {runId : Uuid} {f : RowUpdate Run} {run : Run}
    (hchange : run.id = runId → db.RunChange now db' operation run (f.apply run)) :
    db.RunChange now db' operation run ((RowUpdate.forKey runId f).apply run) := by
  rw [RowUpdate.forKey_apply]
  split
  · next hid => exact hchange hid
  · exact .kept

theorem Db.TaskChange.sweep {workerId : String} {leaseSeconds : Int}
    {admission : Admission} (task : Task) :
    db.TaskChange now (.claimTask workerId leaseSeconds admission) task
      ((db.sweepTask now).apply task) := by
  simp only [Db.sweepTask]
  split
  · next expired hexpired => exact .expired hexpired
  · exact .kept

/-- A change of the tasks after the sweep. -/
theorem Db.Changes.taskChanges_sweep {e : Effect} {workerId : String} {leaseSeconds : Int}
    {admission : Admission} (hchanges : (resetExpiredLeases db now).Changes e db')
    (hnew : e.newTasks = [])
    (hold : ∀ task ∈ db.tasks.rows,
      db.TaskChange now (.claimTask workerId leaseSeconds admission) task
        (e.task.apply ((db.sweepTask now).apply task))) :
    db.TaskChanges now (.claimTask workerId leaseSeconds admission) db' := by
  have hsweep := resetExpiredLeases_changes db now
  constructor
  · intro task htask
    refine ⟨_, hchanges.mem_tasks.mpr (.inl ⟨_, hsweep.mem_tasks.mpr
      (.inl ⟨task, htask, rfl⟩), rfl⟩), ?_, ?_, hold task htask⟩
    · rw [Task.apply_runId, Effect.sweep, Task.apply_runId]
    · rw [Task.apply_nodeId, Effect.sweep, Task.apply_nodeId]
  · intro task' htask'
    obtain ⟨swept, hswept, rfl⟩ | hadded := hchanges.mem_tasks.mp htask'
    · obtain ⟨task, htask, rfl⟩ | hadded := hsweep.mem_tasks.mp hswept
      · refine .inl ⟨task, htask, ?_, ?_, hold task htask⟩
        · rw [Task.apply_runId, Effect.sweep, Task.apply_runId]
        · rw [Task.apply_nodeId, Effect.sweep, Task.apply_nodeId]
      · cases hadded
    · simp [hnew] at hadded

theorem Db.Claims.taskChanges {workerId : String} {leaseSeconds : Int}
    {admission : Admission} {claimed : Option TaskLease}
    (hclaims : (resetExpiredLeases db now).Claims now workerId leaseSeconds admission
      claimed db') :
    db.TaskChanges now (.claimTask workerId leaseSeconds admission) db' := by
  have hsweep := resetExpiredLeases_changes db now
  have huuids := resetExpiredLeases_uuids db now
  cases hclaims with
  | idle _ _ => exact hsweep.taskChanges rfl fun task _ => .sweep task
  | @recovered joined _ =>
      refine (recoverAttempt_changes _ _ _ _ joined.attempt).taskChanges_sweep rfl fun task _ => ?_
      rw [huuids]
      simp only [Effect.recover, RowUpdate.forKey_apply]
      split
      · exact .recovered
      · exact .sweep task
  | @started ready _ _ _ hready hlease =>
      obtain ⟨-, -, -, -, -, -, -, -, hchanges⟩ := leaseTask_ok hlease
      refine hchanges.taskChanges_sweep rfl fun task htask => ?_
      rw [huuids]
      simp only [Effect.start, RowUpdate.forKey_apply]
      split
      · next hkey =>
          have hsame : (db.sweepTask now).apply task = ready :=
            (resetExpiredLeases db now).tasks.eq_of_key_eq
              (hsweep.mem_tasks.mpr (.inl ⟨task, htask, rfl⟩)) hready.mem hkey
          refine .started ?_
          rw [hsame]
          exact hready
      · exact .sweep task

theorem Db.Claims.runChanges {workerId : String} {leaseSeconds : Int}
    {admission : Admission} {claimed : Option TaskLease}
    (hclaims : (resetExpiredLeases db now).Claims now workerId leaseSeconds admission
      claimed db') :
    db.RunChanges now (.claimTask workerId leaseSeconds admission) db' := by
  have hsweep := resetExpiredLeases_changes db now
  have hruns : (resetExpiredLeases db now).runs = db.runs :=
    (others_foldl_expireLease now (db.tasks.rows.filterMap (db.expiredLease? now))
      db).1
  cases hclaims with
  | idle _ _ => exact hsweep.runChanges rfl fun _ _ => .kept
  | @recovered joined _ =>
      have hchanges := recoverAttempt_changes (resetExpiredLeases db now) now workerId
        leaseSeconds joined.attempt
      have hsame : (recoverAttempt (resetExpiredLeases db now) now workerId leaseSeconds
          joined.attempt).2.runs = db.runs := hruns
      constructor
      · intro run hrun
        rw [hsame]
        exact ⟨run, hrun, rfl, .kept⟩
      · intro run' hrun'
        rw [hsame] at hrun'
        exact .inl ⟨run', hrun', rfl, .kept⟩
  | @started ready _ _ _ hready hlease =>
      obtain ⟨-, -, -, -, -, -, -, -, hchanges⟩ := leaseTask_ok hlease
      obtain ⟨owner, howner, hlive, -⟩ := hready.run
      have hchange : ∀ run ∈ db.runs.rows,
          db.RunChange now db' (.claimTask workerId leaseSeconds admission) run
            ((Effect.start ready workerId ((resetExpiredLeases db now).uuids + 1)
              (resetExpiredLeases db now).uuids now
              (leaseExpiration now leaseSeconds)).run.apply run) := by
        intro run hrun
        refine .forRun fun hid => .started ?_
        have hfound := Table.row?_of_mem hrun
        rw [Run.key_eq, hid, ← hruns] at hfound
        have howner : (resetExpiredLeases db now).runs.row? ready.runId = some owner := howner
        rw [Option.some.inj (hfound.symm.trans howner)]
        exact hlive
      constructor
      · intro run hrun
        refine ⟨_, hchanges.mem_runs.mpr (.inl ⟨run, ?_, rfl⟩), Run.apply_id _ _,
          hchange run hrun⟩
        rw [hruns]
        exact hrun
      · intro run' hrun'
        obtain ⟨run, hrun, rfl⟩ | hadded := hchanges.mem_runs.mp hrun'
        · rw [hruns] at hrun
          exact .inl ⟨run, hrun, Run.apply_id _ _, hchange run hrun⟩
        · cases hadded

theorem Db.Submits.adds {row : WorkflowRow} {run : Run} {tasks : List Task}
    {registry : Option Registry} {executionTarget : String} {executionClass : Option String}
    (hsubmits : db.Submits now row run tasks) (hchanges : db.Changes (.submit run tasks) db') :
    db.Adds now (.submitRun row.workflowId row.version registry run.inputs executionTarget
      executionClass) db' run tasks where
  submits := ⟨row, registry, executionTarget, executionClass, hsubmits, rfl⟩
  fresh := Db.Submits.fresh hchanges
  run := Table.row?_of_mem (hchanges.mem_runs.mpr (.inr List.mem_cons_self))
  tasks _ htask := hchanges.mem_tasks.mpr (.inr htask)

theorem Db.Transition.taskChanges (h : db.Transition now operation db') :
    db.TaskChanges now operation db' := by
  cases h with
  | quiet hchanges => exact hchanges.taskChanges rfl fun _ _ => .kept
  | submitted hsubmits _ hchanges =>
      constructor
      · intro task htask
        exact ⟨task, hchanges.mem_tasks.mpr (.inl ⟨task, htask, rfl⟩), rfl, rfl, .kept⟩
      · intro task' htask'
        obtain ⟨task, htask, rfl⟩ | hadded := hchanges.mem_tasks.mp htask'
        · exact .inl ⟨task, htask, rfl, rfl, .kept⟩
        · exact .inr ⟨_, _, hsubmits.adds hchanges, hadded⟩
  | claimed hclaims => exact hclaims.taskChanges
  | renewed _ hchanges =>
      exact hchanges.taskChanges rfl fun _ _ => .onlyIf .renewed
  | marked _ _ hchanges => exact hchanges.taskChanges rfl fun _ _ => .kept
  | recorded _ _ hchanges => exact hchanges.taskChanges rfl fun _ _ => .kept
  | observed _ _ hchanges => exact hchanges.taskChanges rfl fun _ _ => .kept
  | released _ hchanges => exact hchanges.taskChanges rfl fun _ _ => .onlyIf .released
  | @markedCanceled lease _ _ row _ hholds hchanges =>
      refine hchanges.taskChanges rfl fun task htask => ?_
      simp only [Effect.finish, RowUpdate.forKey_apply]
      split
      · next hkey =>
          have hfound := Table.row?_of_mem htask
          rw [hkey] at hfound
          exact .attemptCanceled hholds hfound
      · exact .kept
  | completed htask hrunning htoken hleased hinsert hmissing _ _ _ _ hchanges =>
      exact hchanges.taskChanges rfl fun _ hmem =>
        .forPlace htask (.completed htask hrunning htoken hleased hinsert hmissing) hmem
  | failed htask hrunning htoken hleased hchanges =>
      exact hchanges.taskChanges rfl fun _ hmem =>
        .forPlace htask (.failed htask hrunning htoken hleased) hmem
  | runCanceled _ _ hchanges => exact hchanges.taskChanges rfl fun _ _ => .onlyIf .canceled
  | @retried runId nodeId run definition db' hrun hdefinition _ hchanges =>
      refine hchanges.taskChanges rfl fun task _ => .onlyIf fun hreset => ?_
      simp only [Bool.and_eq_true, decide_eq_true_eq] at hreset
      obtain ⟨rfl, hnode⟩ := hreset
      exact .retried hdefinition hnode

theorem Db.Transition.runChanges (h : db.Transition now operation db') :
    db.RunChanges now operation db' := by
  cases h with
  | quiet hchanges => exact hchanges.runChanges rfl fun _ _ => .kept
  | submitted hsubmits _ hchanges =>
      constructor
      · intro run hrun
        exact ⟨run, hchanges.mem_runs.mpr (.inl ⟨run, hrun, rfl⟩), rfl, .kept⟩
      · intro run' hrun'
        obtain ⟨run, hrun, rfl⟩ | hadded := hchanges.mem_runs.mp hrun'
        · exact .inl ⟨run, hrun, rfl, .kept⟩
        · obtain rfl := List.mem_singleton.mp hadded
          exact .inr ⟨_, hsubmits.adds hchanges⟩
  | claimed hclaims => exact hclaims.runChanges
  | renewed _ hchanges => exact hchanges.runChanges rfl fun _ _ => .kept
  | marked _ _ hchanges => exact hchanges.runChanges rfl fun _ _ => .kept
  | recorded _ _ hchanges => exact hchanges.runChanges rfl fun _ _ => .kept
  | observed _ _ hchanges => exact hchanges.runChanges rfl fun _ _ => .kept
  | released _ hchanges => exact hchanges.runChanges rfl fun _ _ => .kept
  | markedCanceled _ hchanges => exact hchanges.runChanges rfl fun _ _ => .kept
  | completed htask hrunning _ _ _ _ _ _ hfinished _ hchanges =>
      cases hfinished with
      | unfinished _ _ _ => exact hchanges.runChanges rfl fun _ _ => .kept
      | finished hall hdefinition houtputs =>
          exact hchanges.runChanges rfl fun _ _ => .forRun fun hid =>
            .completed hid htask hrunning hall hdefinition houtputs
  | failed htask hrunning _ _ hchanges =>
      exact hchanges.runChanges rfl fun _ _ => .forRun fun hid => .failed hid htask hrunning
  | @runCanceled runId run _ hrun hlive hchanges =>
      refine hchanges.runChanges rfl fun other hother => .forRun fun hid => ?_
      have hfound := Table.row?_of_mem hother
      rw [Run.key_eq, hid] at hfound
      obtain rfl := Option.some.inj (hfound.symm.trans hrun)
      subst hid
      exact .canceled hlive
  | @retried runId nodeId run _ _ _ _ _ hchanges =>
      refine hchanges.runChanges rfl fun other _ => .forRun fun hid => ?_
      subst hid
      exact .requeued

theorem Db.RunChange.keeps {run run' : Run} (h : db.RunChange now db' operation run run') :
    run'.workflowId = run.workflowId ∧ run'.workflowVersion = run.workflowVersion ∧
      run'.inputs = run.inputs := by
  cases h <;> exact ⟨rfl, rfl, rfl⟩

/-- A run has the same definition after the operation. -/
theorem Db.Transition.definition?_eq (h : db.Transition now operation db')
    (hintegrity : db.Integrity) {runId : Uuid} {run : Run} (hrun : db.run? runId = some run) :
    db'.definition? runId = db.definition? runId := by
  obtain ⟨row, hrow⟩ := hintegrity.runWorkflow run (Table.mem_of_row? hrun)
  obtain ⟨run', hrun', hid, hchange⟩ := h.runChanges.old run (Table.mem_of_row? hrun)
  obtain ⟨hworkflow, hversion, -⟩ := hchange.keeps
  have hfound : db'.run? runId = some run' := by
    rw [← Db.id_of_run? hrun, ← hid]
    exact Table.row?_of_mem hrun'
  have hold : db.definition? runId = some row.definition :=
    Db.definition?_eq_some.mpr ⟨run, row, hrun, hrow, rfl⟩
  have hnew : db'.definition? runId = some row.definition := by
    refine Db.definition?_eq_some.mpr ⟨run', row, hfound, ?_, rfl⟩
    rw [hworkflow, hversion]
    rw [Table.row?_eq_some_iff] at hrow ⊢
    exact ⟨h.grows.workflowVersions hrow.1, hrow.2⟩
  rw [hold, hnew]

/-- A run is canceled by `cancel_run` only. -/
theorem Db.Transition.run_canceled (h : db.Transition now operation db') {runId : Uuid}
    {run' : Run} (hrun' : db'.run? runId = some run') (hcanceled : run'.state = .canceled) :
    ∃ run, db.run? runId = some run ∧
      (run.state = .canceled ∨ operation = .cancelRun runId ∧ run.state.terminal = false) := by
  have hid := Db.id_of_run? hrun'
  obtain ⟨run, hrun, hsame, hchange⟩ | ⟨tasks, hadds⟩ :=
    h.runChanges.new run' (Table.mem_of_row? hrun')
  · have hfound := Table.row?_of_mem hrun
    rw [Run.key_eq, ← hsame, hid] at hfound
    refine ⟨run, hfound, ?_⟩
    cases hchange with
    | kept => exact .inl hcanceled
    | canceled hlive =>
        rw [← hsame, hid]
        exact .inr ⟨rfl, hlive⟩
    | started _ => cases hcanceled
    | completed _ _ _ _ _ _ => cases hcanceled
    | failed _ _ _ => cases hcanceled
    | requeued => cases hcanceled
  · obtain ⟨row, -, -, -, hsubmits, -⟩ := hadds.submits
    obtain ⟨executionTarget, inputs, heq⟩ := hsubmits.run_eq
    rw [heq] at hcanceled
    cases hcanceled

/-- A canceled run stays canceled until it is retried. -/
theorem Db.Transition.run_stays_canceled (h : db.Transition now operation db')
    (hruns : db.CanceledRuns) {runId : Uuid} {run : Run} (hrun : db.run? runId = some run)
    (hcanceled : run.state = .canceled) (hretry : ∀ nodeId, operation ≠ .retryTask runId nodeId) :
    ∃ run', db'.run? runId = some run' ∧ run'.state = .canceled := by
  obtain ⟨run', hrun', hsame, hchange⟩ := h.runChanges.old run (Table.mem_of_row? hrun)
  have hid := Db.id_of_run? hrun
  have hfound := Table.row?_of_mem hrun'
  rw [Run.key_eq, hsame, hid] at hfound
  refine ⟨run', hfound, ?_⟩
  -- a run with a running task is not canceled
  have hopen : ∀ {lease : TaskLease} {task : Task}, run.id = lease.runId →
      db.task? lease.runId lease.nodeId = some task → task.state ≠ .running := by
    intro lease task hlease htask
    have howner : db.run? task.runId = some run := by
      rw [(Db.place_of_task? htask).1, ← hlease, hid, hrun]
    exact (hruns task (Table.mem_of_row? htask) run howner hcanceled).2
  cases hchange with
  | kept => exact hcanceled
  | canceled hlive => rfl
  | started hlive => simp [hcanceled, RunState.live] at hlive
  | completed hlease htask hrunning _ _ _ => exact absurd hrunning (hopen hlease htask)
  | failed hlease htask hrunning => exact absurd hrunning (hopen hlease htask)
  | requeued => exact absurd (by rw [hid]) (hretry _)

/-- Only `cancel_run` on a live run makes an attempt wait for its
cancellation. -/
theorem Db.Transition.requested (h : db.Transition now operation db') {row' : Attempt}
    (hrow' : row' ∈ db'.taskAttempts.rows) (hrequested : row'.state = .cancelRequested) :
    (∃ row ∈ db.taskAttempts.rows, row.runId = row'.runId ∧ row.state = .cancelRequested) ∨
      operation = .cancelRun row'.runId ∧
        ∀ run', db'.run? row'.runId = some run' → run'.state = .canceled := by
  obtain ⟨row, hrow, -, hchange⟩ | hadded := h.attemptChanges.new row' hrow'
  · have hrun : row.runId = row'.runId := hchange.keeps.2.1.symm
    by_cases hstate : row.state = .cancelRequested
    · exact .inl ⟨row, hrow, hrun, hstate⟩
    have hsweep : ((db.sweepAttempt now).apply row).state ≠ .cancelRequested := by
      simp only [Db.sweepAttempt]
      split
      · next expired _ =>
          cases expired.expiry with
          | closeCanceled => simp [Expiry.attemptUpdate, Attempt.closeCanceled]
          | reopen => simp [Expiry.attemptUpdate, Attempt.abandon]
          | keepTarget => exact hstate
      · exact hstate
    cases hchange with
    | kept => exact absurd hrequested hstate
    | renewed _ => exact absurd hrequested hstate
    | marked _ _ => simp [Attempt.setState] at hrequested
    | @recorded _ _ _ _ _ target _ _ =>
        simp only [Attempt.submit, hstate, ↓reduceIte] at hrequested
        cases target <;> simp [submittedState] at hrequested
    | @observed _ _ _ _ target _ _ =>
        cases target <;> first
          | exact absurd hrequested hstate
          | simp [Attempt.observe, observedState] at hrequested
    | released _ => exact absurd hrequested hstate
    | markedCanceled _ => simp [Attempt.cancel] at hrequested
    | completed _ _ _ _ => simp [Attempt.succeed] at hrequested
    | failed _ _ _ _ => simp [Attempt.fail] at hrequested
    | expired hexpired =>
        simp only [Db.sweepAttempt, hexpired] at hsweep
        exact absurd hrequested hsweep
    | recovered _ => exact absurd hrequested hsweep
    | requested _ _ hselected =>
        simp only [Attempt.selectedForCancel, Bool.and_eq_true, decide_eq_true_eq] at hselected
        obtain ⟨rfl, -⟩ := hselected
        have hold : ∀ {e : Effect}, db.Changes e db' → e.attempt = .keep →
            e.newAttempts = [] → ∃ old ∈ db.taskAttempts.rows,
              old.runId = (Attempt.requestCancel.apply row).runId ∧
                old.state = .cancelRequested := by
          intro e hchanges hattempt hnew
          obtain ⟨old, hmem, heq⟩ | hadded := hchanges.mem_attempts.mp hrow'
          · rw [hattempt] at heq
            exact ⟨old, hmem, by rw [← heq]; rfl, by rw [← hrequested, ← heq]; rfl⟩
          · simp [hnew] at hadded
        cases h with
        | quiet hchanges => exact .inl (hold hchanges rfl rfl)
        | runCanceled hfound _ hchanges =>
            have hsame : (Attempt.requestCancel.apply row).runId = row.runId := hrun.symm
            rw [hsame]
            refine .inr ⟨rfl, fun run' hrun' => ?_⟩
            rw [hchanges.run?_some hfound] at hrun'
            obtain rfl := Option.some.inj hrun'
            simp only [Effect.cancelRun, RowUpdate.forKey_apply, Run.key_eq,
              Db.id_of_run? hfound, ↓reduceIte]
            rfl
  · cases hadded with
    | started _ => simp [freshAttempt] at hrequested

end Changes

end QhpcEcosystem
