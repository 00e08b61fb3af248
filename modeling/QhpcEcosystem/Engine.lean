/-
The engine as a transition system: clients and workers issue operations in any
order, at any instants and with any leases, and each operation is one
serialized transaction.  `Db.Transition` says what each kind of operation can
do; invariants are proved by cases on it.
-/
import QhpcEcosystem.EngineEffects
import QhpcEcosystem.TransitionSystem

namespace QhpcEcosystem

/-- A call of a method of `WorkflowEngine`. -/
inductive Operation where
  | registerWorkflow (workflow : Workflow) (registry : Registry) (digest : String)
  | registerInputArtifact (artifactType fileName uri checksum : String) (sizeBytes : Nat)
  | submitRun (workflowId version : String) (registry : Option Registry)
      (inputs : ArtifactIds) (executionTarget : String) (executionClass : Option String)
  | claimTask (workerId : String) (leaseSeconds : Int) (admission : Admission)
  | taskRequest (lease : TaskLease)
  | attemptState (lease : TaskLease)
  | renewLease (lease : TaskLease) (leaseSeconds : Int)
  | recordStage (lease : TaskLease) (stage : String) (durationMs : Int)
      (details : List (String × Value))
  | recordReportedStages (lease : TaskLease) (metadata : Metadata)
  | markSubmitting (lease : TaskLease)
  | recordSubmission (lease : TaskLease) (targetHandle targetState : String)
      (metadata : Metadata)
  | recordTargetStatus (lease : TaskLease) (targetState : String) (metadata : Metadata)
  | releaseLease (lease : TaskLease)
  | markAttemptCanceled (lease : TaskLease) (log : String) (details : List (String × Value))
  | completeTask (lease : TaskLease) (result : TaskResult)
  | failTask (lease : TaskLease) (error : Exn)
  | cancelRun (runId : Uuid)
  | retryTask (runId : Uuid) (nodeId : String)

/-- What a call returns. -/
inductive Reply where
  | done
  | id (id : Uuid)
  | claimed (lease : Option TaskLease)
  | lease (lease : TaskLease)
  | request (request : TaskRequest)
  | state (state : AttemptState)

/-- Execute an operation at an instant. -/
def perform (db : Db) (now : Time) : Operation → Except Exn (Reply × Db)
  | .registerWorkflow workflow registry digest =>
      (registerWorkflow db workflow registry digest).map fun db => (.done, db)
  | .registerInputArtifact artifactType fileName uri checksum sizeBytes =>
      (registerInputArtifact db artifactType fileName uri checksum sizeBytes).map
        fun pair => (.id pair.1, pair.2)
  | .submitRun workflowId version registry inputs executionTarget executionClass =>
      (submitRun db now workflowId version registry inputs executionTarget
        executionClass).map fun pair => (.id pair.1, pair.2)
  | .claimTask workerId leaseSeconds admission =>
      (claimTask db now workerId leaseSeconds admission).map
        fun pair => (.claimed pair.1, pair.2)
  | .taskRequest lease => (taskRequest db lease).map fun request => (.request request, db)
  | .attemptState lease => (attemptState db lease).map fun state => (.state state, db)
  | .renewLease lease leaseSeconds =>
      (renewLease db now lease leaseSeconds).map fun pair => (.lease pair.1, pair.2)
  | .recordStage lease stage durationMs details =>
      (recordStage db now lease stage durationMs details).map fun db => (.done, db)
  | .recordReportedStages lease metadata =>
      (recordReportedStages db now lease metadata).map fun db => (.done, db)
  | .markSubmitting lease => (markSubmitting db now lease).map fun db => (.done, db)
  | .recordSubmission lease targetHandle targetState metadata =>
      (recordSubmission db now lease targetHandle targetState metadata).map
        fun pair => (.state pair.1, pair.2)
  | .recordTargetStatus lease targetState metadata =>
      (recordTargetStatus db now lease targetState metadata).map fun db => (.done, db)
  | .releaseLease lease => (releaseLease db lease).map fun db => (.done, db)
  | .markAttemptCanceled lease log details =>
      (markAttemptCanceled db now lease log details).map fun db => (.done, db)
  | .completeTask lease result => (completeTask db now lease result).map fun db => (.done, db)
  | .failTask lease error => (failTask db now lease error).map fun db => (.done, db)
  | .cancelRun runId => (cancelRun db now runId).map fun db => (.done, db)
  | .retryTask runId nodeId => (retryTask db now runId nodeId).map fun db => (.done, db)

/-- The database after a call; a call that raises is rolled back. -/
def Operation.after (operation : Operation) (now : Time) (db : Db) : Db :=
  match perform db now operation with
  | .ok (_, db') => db'
  | .error _ => db

/-- The engine from an empty database. -/
def engine : TransitionSystem Db (Operation × Time) where
  Initial db := db = {}
  step db label := some (label.1.after label.2 db)

/-! ## What an operation can do -/

/-- A run with its tasks, as `submit_run` stores them. -/
structure Db.Submits (db : Db) (now : Time) (row : WorkflowRow) (run : Run)
    (tasks : List Task) : Prop where
  stored : db.workflowVersions.row? (row.workflowId, row.version) = some row
  run_eq : ∃ executionTarget inputs, run = newRun db.uuids row executionTarget now inputs
  inputs : checkInputs db row.definition.inputs run.inputs.rows = .ok ()
  nodes : tasks.map (fun task => (task.nodeId, task.sequence)) =
    (topologicalNodes row.definition).zipIdx
  tasks_eq : ∀ task ∈ tasks, ∃ executionTarget executionClass node item,
    row.definition.node? task.nodeId = some node ∧
    row.resolution.row? task.nodeId = some (task.nodeId, item) ∧
    task = newTask run.id executionTarget executionClass task.sequence node item

/-- The possible outcomes of a successful operation, with what each requires of
the database before it. -/
inductive Db.Transition (db : Db) (now : Time) : Operation → Db → Prop
  | quiet {operation : Operation} {db' : Db} : db.Changes .quiet db' →
      Db.Transition db now operation db'
  | submitted {registry : Option Registry} {executionTarget : String}
      {executionClass : Option String} {db' : Db} {row : WorkflowRow} {run : Run}
      {tasks : List Task} : db.Submits now row run tasks →
      db'.uuids = db.uuids + 1 → db.Changes (.submit run tasks) db' →
      Db.Transition db now (.submitRun row.workflowId row.version registry run.inputs
        executionTarget executionClass) db'
  | claimed {workerId : String} {leaseSeconds : Int} {admission : Admission}
      {claimed : Option TaskLease} {db' : Db} :
      (resetExpiredLeases db now).Claims now workerId leaseSeconds admission claimed db' →
      Db.Transition db now (.claimTask workerId leaseSeconds admission) db'
  | renewed {lease : TaskLease} {leaseSeconds : Int} {row : Attempt} {db' : Db} :
      db.Holds lease row →
      db.Changes (.ofToken lease (Attempt.renew (leaseExpiration now leaseSeconds))
        (Task.renew (leaseExpiration now leaseSeconds))) db' →
      Db.Transition db now (.renewLease lease leaseSeconds) db'
  | marked {lease : TaskLease} {row : Attempt} {db' : Db} : db.Holds lease row →
      row.state = .leased ∨ row.state = .submitting →
      db.Changes (.ofLease lease (Attempt.setState .submitting)) db' →
      Db.Transition db now (.markSubmitting lease) db'
  | recorded {lease : TaskLease} {targetHandle targetState : String}
      {metadata : Metadata} {row : Attempt} {target : TargetState} {db' : Db} :
      db.Holds lease row → TargetState.ofName? targetState = some target →
      db.Changes (.ofLease lease (Attempt.submit
        (if row.state = .cancelRequested then .cancelRequested else submittedState target)
        targetHandle target metadata now)) db' →
      Db.Transition db now (.recordSubmission lease targetHandle targetState metadata) db'
  | observed {lease : TaskLease} {targetState : String} {metadata : Metadata}
      {row : Attempt} {target : TargetState} {db' : Db} :
      db.Holds lease row → TargetState.ofName? targetState = some target →
      db.Changes (.ofLease lease (Attempt.observe (observedState row.state target) target
        (Metadata.merge row.targetMetadata metadata))) db' →
      Db.Transition db now (.recordTargetStatus lease targetState metadata) db'
  | released {lease : TaskLease} {row : Attempt} {db' : Db} : db.Holds lease row →
      db.Changes (.ofToken lease Attempt.clearLease Task.clearLease) db' →
      Db.Transition db now (.releaseLease lease) db'
  | markedCanceled {lease : TaskLease} {log : String} {details : List (String × Value)}
      {row : Attempt} {db' : Db} : db.Holds lease row →
      db.Changes (.finish lease (Attempt.cancel now log) (Task.cancel now)) db' →
      Db.Transition db now (.markAttemptCanceled lease log details) db'
  | completed {lease : TaskLease} {result : TaskResult} {task : Task} {row : Attempt}
      {stored db' : Db} {outputIds : ArtifactIds} {update : RowUpdate Run}
      {added : List Artifact} :
      db.task? lease.runId lease.nodeId = some task → task.state = .running →
      task.leaseToken = some lease.token → db.Leased lease row →
      insertOutputs now row task.operation.definition.outputs result.outputs.rows db
        Table.empty = .ok (stored, outputIds) →
      missingOutputs task.operation.definition.outputs result = [] →
      db'.artifacts = stored.artifacts → db'.uuids = stored.uuids →
      FinishedRun db db'.tasks now lease.runId update →
      (∀ artifact ∈ added, artifact.attemptId = row.id) →
      db.Changes (.complete lease now outputIds result.log update added) db' →
      Db.Transition db now (.completeTask lease result) db'
  | failed {lease : TaskLease} {error : Exn} {task : Task} {row : Attempt} {db' : Db} :
      db.task? lease.runId lease.nodeId = some task → task.state = .running →
      task.leaseToken = some lease.token → db.Leased lease row →
      db.Changes (.finish lease (Attempt.fail now (taskFailure error))
        (Task.fail now (taskFailure error)) (.forKey lease.runId (Run.finish .failed now)))
        db' →
      Db.Transition db now (.failTask lease error) db'
  | runCanceled {runId : Uuid} {run : Run} {db' : Db} : db.run? runId = some run →
      run.state.terminal = false → db.Changes (.cancelRun runId now) db' →
      Db.Transition db now (.cancelRun runId) db'
  | retried {runId : Uuid} {nodeId : String} {run : Run} {definition : Workflow}
      {db' : Db} : db.run? runId = some run → db.definition? runId = some definition →
      (∀ node ∈ descendants definition nodeId, ∃ task, db.task? runId node = some task) →
      db.Changes (.retry runId (descendants definition nodeId)) db' →
      Db.Transition db now (.retryTask runId nodeId) db'

/-- An operation that at most appends events. -/
theorem Db.Transition.ofEvents (db : Db) (now : Time) (operation : Operation)
    (events : List Event) :
    db.Transition now operation { db with executionEvents := events } :=
  .quiet (Db.changes_quiet rfl rfl rfl rfl rfl rfl rfl)

theorem Db.Transition.refl (db : Db) (now : Time) (operation : Operation) :
    db.Transition now operation db :=
  .ofEvents db now operation db.executionEvents

theorem map_ok {ε α β : Type} {x : Except ε α} {f : α → β} {y : β}
    (h : x.map f = .ok y) : ∃ a, x = .ok a ∧ f a = y := by
  cases x with
  | error error => cases h
  | ok a => exact ⟨a, rfl, Except.ok.inj h⟩

/-- Every successful operation is one of the listed transitions. -/
theorem transition_of_perform {db db' : Db} {now : Time} {operation : Operation}
    {reply : Reply} (h : perform db now operation = .ok (reply, db')) :
    db.Transition now operation db' := by
  cases operation with
  | registerWorkflow workflow registry digest =>
      obtain ⟨stored, hok, heq⟩ := map_ok h
      cases heq
      exact .quiet (registerWorkflow_ok hok)
  | registerInputArtifact artifactType fileName uri checksum sizeBytes =>
      obtain ⟨⟨artifactId, stored⟩, hok, heq⟩ := map_ok h
      cases heq
      exact .quiet (registerInputArtifact_ok hok).1
  | submitRun workflowId version registry inputs executionTarget executionClass =>
      obtain ⟨⟨runId, stored⟩, hok, heq⟩ := map_ok h
      cases heq
      obtain ⟨row, tasks, hrow, rfl, huuids, hinputs, hnodes, htasks, hchanges⟩ :=
        submitRun_ok hok
      have hkey : (row.workflowId, row.version) = (workflowId, version) := Table.key_of_row? hrow
      obtain ⟨rfl, rfl⟩ := Prod.mk.inj hkey
      refine .submitted ⟨hrow, ⟨executionTarget, inputs, rfl⟩, hinputs, hnodes, ?_⟩
        huuids hchanges
      intro task htask
      obtain ⟨node, item, hnode, hitem, heq⟩ := htasks task htask
      exact ⟨executionTarget, _, node, item, hnode, hitem, heq⟩
  | claimTask workerId leaseSeconds admission =>
      obtain ⟨⟨claimed, stored⟩, hok, heq⟩ := map_ok h
      cases heq
      exact .claimed (claimTask_ok hok)
  | taskRequest lease =>
      obtain ⟨request, -, heq⟩ := map_ok h
      cases heq
      exact .refl _ _ _
  | attemptState lease =>
      obtain ⟨state, -, heq⟩ := map_ok h
      cases heq
      exact .refl _ _ _
  | renewLease lease leaseSeconds =>
      obtain ⟨⟨renewed, stored⟩, hok, heq⟩ := map_ok h
      cases heq
      obtain ⟨⟨row, hrow⟩, hchanges⟩ := renewLease_ok hok
      exact .renewed hrow hchanges
  | recordStage lease stage durationMs details =>
      obtain ⟨stored, hok, heq⟩ := map_ok h
      cases heq
      obtain ⟨-, events, rfl⟩ := recordStage_ok hok
      exact .ofEvents _ _ _ events
  | recordReportedStages lease metadata =>
      obtain ⟨stored, hok, heq⟩ := map_ok h
      cases heq
      obtain ⟨-, events, rfl⟩ := recordReportedStages_ok hok
      exact .ofEvents _ _ _ events
  | markSubmitting lease =>
      obtain ⟨stored, hok, heq⟩ := map_ok h
      cases heq
      obtain ⟨row, hrow, ⟨-, rfl⟩ | ⟨hstate, hchanges⟩⟩ := markSubmitting_ok hok
      · exact .refl _ _ _
      · exact .marked hrow hstate hchanges
  | recordSubmission lease targetHandle targetState metadata =>
      obtain ⟨⟨state, stored⟩, hok, heq⟩ := map_ok h
      cases heq
      obtain ⟨row, target, hrow, htarget, rfl, hchanges⟩ := recordSubmission_ok hok
      exact .recorded hrow htarget hchanges
  | recordTargetStatus lease targetState metadata =>
      obtain ⟨stored, hok, heq⟩ := map_ok h
      cases heq
      obtain ⟨row, target, hrow, htarget, hchanges⟩ := recordTargetStatus_ok hok
      exact .observed hrow htarget hchanges
  | releaseLease lease =>
      obtain ⟨stored, hok, heq⟩ := map_ok h
      cases heq
      obtain ⟨⟨row, hrow⟩, hchanges⟩ := releaseLease_ok hok
      exact .released hrow hchanges
  | markAttemptCanceled lease log details =>
      obtain ⟨stored, hok, heq⟩ := map_ok h
      cases heq
      obtain ⟨⟨row, hrow⟩, hchanges⟩ := markAttemptCanceled_ok hok
      exact .markedCanceled hrow hchanges
  | completeTask lease result =>
      obtain ⟨stored, hok, heq⟩ := map_ok h
      cases heq
      obtain ⟨_, _, _, rfl⟩ | ⟨task, row, artifacts, outputIds, update, added, htask, hstate,
        htoken, hleased, hinsert, hmissing, -, hartifacts, huuids, hfinished, hadded,
        hchanges⟩ := completeTask_ok hok
      · exact .refl _ _ _
      · exact .completed htask hstate htoken hleased hinsert hmissing hartifacts huuids
          hfinished hadded hchanges
  | failTask lease error =>
      obtain ⟨stored, hok, heq⟩ := map_ok h
      cases heq
      obtain rfl | ⟨task, row, htask, hstate, htoken, hleased, hchanges⟩ := failTask_ok hok
      · exact .refl _ _ _
      · exact .failed htask hstate htoken hleased hchanges
  | cancelRun runId =>
      obtain ⟨stored, hok, heq⟩ := map_ok h
      cases heq
      obtain ⟨run, hrun, ⟨-, rfl⟩ | ⟨hlive, hchanges⟩⟩ := cancelRun_ok hok
      · exact .refl _ _ _
      · exact .runCanceled hrun hlive hchanges
  | retryTask runId nodeId =>
      obtain ⟨stored, hok, heq⟩ := map_ok h
      cases heq
      obtain ⟨run, definition, hrun, hdefinition, hnodes, hchanges⟩ := retryTask_ok hok
      exact .retried hrun hdefinition hnodes hchanges

theorem Operation.transition (operation : Operation) (now : Time) (db : Db) :
    db.Transition now operation (operation.after now db) := by
  unfold Operation.after
  split
  · next reply db' hok => exact transition_of_perform hok
  · exact .refl db now operation

/-! ## A sample workflow -/

/-- An operation without inputs. -/
def sampleOperation : OperationDefinition where
  id := "work"
  inputs := Table.empty
  outputs := ⟨[("out", { artifactType := "data@1" })], by decide⟩
  runtime := ⟨"apptainer", "/images/work.sif", "sha256:00"⟩
  invocation := { entrypoint := ["work"] }
  executionTargets := ["cluster"]

def sampleRegistry : Registry where
  entries := [⟨"catalog", {
    id := "sample", version := "1.0.0", project := "project",
    operations := [sampleOperation] }⟩]

def sampleNode (id : String) : Node where
  id := id
  operation := ⟨"sample", "1.0.0", "work"⟩

/-- Two independent nodes. -/
def sampleWorkflow : Workflow where
  id := "pair"
  version := "1.0.0"
  nodes := [sampleNode "a", sampleNode "b"]
  nonempty := by simp
  edges := []
  inputs := Table.empty
  outputs := Table.empty

/-- A worker that admits every target and class. -/
def Admission.any : Admission := ⟨none, none⟩

/-- Register and submit the sample workflow; its run gets the identifier 0. -/
def sampleSubmission : List (Operation × Time) :=
  [(.registerWorkflow sampleWorkflow sampleRegistry "digest", 0),
   (.submitRun "pair" "1.0.0" none Table.empty "cluster" none, 0)]

/-- What the sample operation returns. -/
def sampleResult : TaskResult where
  outputs := ⟨[("out", ⟨"data@1", "file:///out", "sha256:01", 1⟩)], by decide⟩

/-- A claim of the sample runs with the default lease duration. -/
def sampleClaim (workerId : String) : Operation := .claimTask workerId 300 .any

/-- The lease of attempt `attemptId` of node "a" in the sample run. -/
def sampleLease (attemptId token : Uuid) (number : Nat) (workerId : String)
    (expires : Time) (state : AttemptState) (handle : Option String) : TaskLease where
  runId := 0
  nodeId := "a"
  attemptId := attemptId
  attemptNumber := number
  token := token
  workerId := workerId
  expiresAt := expires
  state := state
  targetHandle := handle

/-- The sample operation with one required input. -/
def chainRegistry : Registry where
  entries := [⟨"catalog", {
    id := "sample", version := "1.0.0", project := "project",
    operations := [sampleOperation, { sampleOperation with
      id := "pass", inputs := ⟨[("in", { artifactType := "data@1" })], by decide⟩ }] }⟩]

/-- Node "b" reads the output of node "a". -/
def chainWorkflow : Workflow where
  id := "chain"
  version := "1.0.0"
  nodes := [sampleNode "a", { sampleNode "b" with operation := ⟨"sample", "1.0.0", "pass"⟩ }]
  nonempty := by simp
  edges := [⟨⟨"a", "out", "data@1"⟩, ⟨"b", "in", "data@1"⟩⟩]
  inputs := Table.empty
  outputs := ⟨[("result", ⟨"data@1", ⟨"b", "out"⟩⟩)], by decide⟩

/-- Register and submit the chain; its run gets the identifier 0. -/
def chainSubmission : List (Operation × Time) :=
  [(.registerWorkflow chainWorkflow chainRegistry "digest", 0),
   (.submitRun "chain" "1.0.0" none Table.empty "cluster" none, 0)]

end QhpcEcosystem
