/-
The engine operations of clients: registration of workflows and of input
artifacts, submission and cancellation of runs, and the retry of a task with
everything downstream of it.
-/
import QhpcEcosystem.ClaimTask
import QhpcEcosystem.StoredWorkflow

namespace QhpcEcosystem

/-! ## Registration -/

/-- `register_workflow`; `digest` is the digest of the document. -/
def registerWorkflow (db : Db) (workflow : Workflow) (registry : Registry)
    (digest : String) : Except Exn Db := do
  let resolved ← resolveWorkflow workflow registry
  match db.workflowVersions.row? (workflow.id, workflow.version) with
  | some existing =>
      if existing.digest ≠ digest then
        throw (contractError
          "workflow version is immutable; publish a new semantic version" [])
      pure db
  | none =>
      match db.workflowVersions.insert? {
          workflowId := workflow.id
          version := workflow.version
          digest := digest
          definition := workflow.stored
          resolution := resolved.operations } with
      | none => pure db
      | some rows => pure { db with workflowVersions := rows }

/-- `ARTIFACT_TYPE` matches the whole text. -/
def isArtifactType (text : String) : Bool :=
  let name := text.toList.takeWhile (· ≠ '@')
  match name, text.toList.dropWhile (· ≠ '@') with
  | c :: rest, _ :: digit :: digits =>
      lowerCase c && identifierTail false rest && ('1' ≤ digit && digit ≤ '9') &&
        digits.all fun d => '0' ≤ d && d ≤ '9'
  | _, _ => false

/-- `register_input_artifact`; `fileName` is the last component of the name and
`checksum` the digest of the stored content. -/
def registerInputArtifact (db : Db) (artifactType fileName uri checksum : String)
    (sizeBytes : Nat) : Except Exn (Uuid × Db) :=
  if isArtifactType artifactType = false then
    .error (contractError ("invalid artifact type: " ++ artifactType) [])
  else if fileName ∈ ["", ".", ".."] then
    .error (contractError "artifact name must be a file name" [])
  else if 10000000 < sizeBytes then
    .error (contractError "input artifact exceeds 10 MB local limit" [])
  else
    match db.inputArtifacts.insert? ⟨db.uuids, artifactType, uri, checksum, sizeBytes⟩ with
    | none => .error ⟨.integrityError, "UNIQUE constraint failed", []⟩
    | some records => .ok (db.uuids, { db with
        inputArtifacts := records, uuids := db.uuids + 1 })

/-! ## Submission -/

/-- The type check of the inputs of `submit_run`. -/
def checkInputs (db : Db) (declared : Dict String WorkflowInput) :
    List (String × Uuid) → Except Exn Unit
  | [] => .ok ()
  | (name, artifactId) :: rest => do
      let artifact ← getArtifact db artifactId
      match declared.row? name with
      | none => throw (keyError name)
      | some (_, input) =>
          if artifact.artifactType ≠ input.artifactType then
            throw (contractError ("workflow input " ++ name ++ " requires " ++
              input.artifactType ++ "; artifact " ++ artifactText artifactId ++ " is " ++
              artifact.artifactType) [])
          checkInputs db declared rest

/-- `execution_class or (...)`. -/
def defaultExecutionClass (executionTarget : String) : Option String → String
  | some value =>
      if value ≠ "" then value
      else if executionTarget = "local-development" then "interactive-local" else "batch-hpc"
  | none => if executionTarget = "local-development" then "interactive-local" else "batch-hpc"

/-- The task row of a node. -/
def newTask (runId : Uuid) (executionTarget executionClass : String) (sequence : Nat)
    (node : Node) (item : ResolvedOperation) : Task where
  runId := runId
  nodeId := node.id
  sequence := sequence
  state := .pending
  operation := {
    capability := item.capabilityId
    version := item.capabilityVersion
    operation := item.operation.id
    project := item.project
    definition := item.operation
    parameters := node.parameters
    executionTarget := some (node.executionTarget.getD executionTarget)
    executionClass := some (node.executionClass.getD executionClass) }
  runtimeDigest := item.operation.runtime.digest

/-- The task loop of `submit_run`. -/
def insertTasks (runId : Uuid) (row : WorkflowRow) (executionTarget executionClass : String) :
    List (String × Nat) → Table Task → Except Exn (Table Task)
  | [], tasks => .ok tasks
  | (nodeId, sequence) :: rest, tasks =>
      match row.resolution.row? nodeId, row.definition.node? nodeId with
      | some (_, item), some node =>
          let target := node.executionTarget.getD executionTarget
          if target ∉ item.operation.executionTargets then
            .error (contractError
              ("node " ++ nodeId ++ " does not support execution target " ++ target) [])
          else
            match tasks.insert?
                (newTask runId executionTarget executionClass sequence node item) with
            | none => .error ⟨.integrityError, "UNIQUE constraint failed", []⟩
            | some tasks => insertTasks runId row executionTarget executionClass rest tasks
      | _, _ => .error (keyError nodeId)

/-- The run row of a submission. -/
def newRun (runId : Uuid) (row : WorkflowRow) (executionTarget : String) (now : Time)
    (inputs : ArtifactIds) : Run where
  id := runId
  workflowId := row.workflowId
  workflowVersion := row.version
  executionTarget := executionTarget
  state := .queued
  createdAt := now
  inputs := inputs

/-- The resolution of `submit_run` against a registry, when one is given. -/
def checkRegistry (definition : Workflow) : Option Registry → Except Exn Unit
  | some registry => (resolveWorkflow definition registry).map fun _ => ()
  | none => .ok ()

/-- The checks of `submit_run` before it stores the run. -/
def checkSubmission (db : Db) (definition : Workflow) (registry : Option Registry)
    (inputs : ArtifactIds) : Except Exn Unit := do
  checkRegistry definition registry
  let unknown := sortedStrings ((inputs.rows.map Prod.fst).filter fun name =>
    (definition.inputs.row? name).isNone)
  if unknown ≠ [] then
    throw (contractError ("unknown workflow inputs: " ++ ", ".intercalate unknown) [])
  let missing := sortedStrings ((definition.inputs.rows.filter fun item =>
    item.2.required.getD true ∧ (inputs.row? item.1).isNone).map Prod.fst)
  if missing ≠ [] then
    throw (contractError ("missing workflow inputs: " ++ ", ".intercalate missing) [])
  checkInputs db definition.inputs inputs.rows

/-- `submit_run`. -/
def submitRun (db : Db) (now : Time) (workflowId version : String)
    (registry : Option Registry) (inputs : ArtifactIds) (executionTarget : String)
    (executionClass : Option String) : Except Exn (Uuid × Db) :=
  match db.workflowVersions.row? (workflowId, version) with
  | none => .error (keyError ("workflow not found: " ++ workflowId ++ "@" ++ version))
  | some row => do
      checkSubmission db row.definition registry inputs
      let runId := db.uuids
      match db.runs.insert? (newRun runId row executionTarget now inputs) with
      | none => throw ⟨.integrityError, "UNIQUE constraint failed", []⟩
      | some runs =>
          let tasks ← insertTasks runId row executionTarget
            (defaultExecutionClass executionTarget executionClass)
            (topologicalNodes row.definition).zipIdx db.tasks
          pure (runId, { db with runs := runs, tasks := tasks, uuids := db.uuids + 1 })

/-! ## Cancellation -/

/-- The attempt states that `cancel_run` selects. -/
def Attempt.selectedForCancel (runId : Uuid) (row : Attempt) : Bool :=
  row.runId = runId &&
    row.state ∈ [.leased, .submitted, .running, .collecting, .cancelRequested]

/-- Request the cancellation of an attempt; one with a target handle loses its
lease. -/
def Attempt.requestCancel : RowUpdate Attempt where
  apply row :=
    if row.targetHandle.isSome then { row.withoutLease with state := .cancelRequested }
    else { row with state := .cancelRequested }
  key_apply row := by
    split <;> rfl

/-- The body of the loop of `cancel_run`. -/
def cancelAttempt (now : Time) (db : Db) (attempt : Attempt) : Db :=
  let db := db.updateAttempt attempt.id Attempt.requestCancel
  match attempt.targetHandle with
  | some handle =>
      db.appendEvent attempt.runId attempt.nodeId (some attempt.id) "target.cancel-requested"
        now none (some "cancel_requested") none [("target_handle", .str handle)]
  | none =>
      db.appendEvent attempt.runId attempt.nodeId (some attempt.id) "task.cancel-requested"
        now none (some "cancel_requested") none
        [("reason", .str "run-canceled-during-task-lease")]

/-- The task row matches the run and is pending or running. -/
def Task.unfinishedIn (runId : Uuid) (row : Task) : Bool :=
  row.runId = runId && (row.state = .pending || row.state = .running)

/-- `cancel_run`. -/
def cancelRun (db : Db) (now : Time) (runId : Uuid) : Except Exn Db :=
  match db.run? runId with
  | none => .error (keyError ("run not found: " ++ runText runId))
  | some run =>
      if run.state.terminal then .ok db
      else
        let active := db.taskAttempts.rows.filter (Attempt.selectedForCancel runId)
        let db := active.foldl (cancelAttempt now) db
        let db := db.updateTasksWhere (Task.unfinishedIn runId) (Task.cancel now)
        .ok (db.updateRun runId (Run.finish .canceled now))

/-! ## Retry -/

/-- One pass over the edges: add the target of every edge that leaves the set. -/
def addDescendants (edges : List Edge) (found : List String) : List String :=
  edges.foldl (fun found edge =>
    if edge.source.node ∈ found ∧ edge.target.node ∉ found then found ++ [edge.target.node]
    else found) found

/-- The `while changed` loop of `retry_task`. -/
def closeDescendants (edges : List Edge) : Nat → List String → List String
  | 0, found => found
  | fuel + 1, found =>
      let next := addDescendants edges found
      if next = found then found else closeDescendants edges fuel next

/-- A node with its descendants.  A pass that changes the set adds the target of
an edge, so one pass for each edge suffices. -/
def descendants (definition : Workflow) (nodeId : String) : List String :=
  closeDescendants definition.edges (definition.edges.length + 1) [nodeId]

def Task.retry : RowUpdate Task where
  apply row := { row.withoutLease with
    state := .pending, finishedAt := none, error := none, outputs := Table.empty }

def Run.requeue : RowUpdate Run where
  apply row := { row with state := .queued, finishedAt := none, outputs := Table.empty }

/-- The event loop of `retry_task`. -/
def appendRetryEvents (now : Time) (runId : Uuid) : List String → Db → Except Exn Db
  | [], db => .ok db
  | nodeId :: rest, db =>
      match db.task? runId nodeId with
      | none => .error noneNotSubscriptable
      | some task =>
          appendRetryEvents now runId rest
            (db.appendEvent runId nodeId none "task.retry-requested" now none (some "pending")
              none [("completed_attempts", .number (.int task.attempt))])

/-- `retry_task`. -/
def retryTask (db : Db) (now : Time) (runId : Uuid) (nodeId : String) : Except Exn Db :=
  match db.run? runId with
  | none => .error (keyError ("run not found: " ++ runText runId))
  | some _ =>
      match db.definition? runId with
      | none => .error noneNotSubscriptable
      | some definition => do
          let nodes := descendants definition nodeId
          let db := db.updateTasksWhere
            (fun row => row.runId = runId && row.nodeId ∈ nodes) Task.retry
          let db ← appendRetryEvents now runId (sortedStrings nodes) db
          pure (db.updateRun runId Run.requeue)

end QhpcEcosystem
