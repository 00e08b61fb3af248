/-
The persistent state of the workflow engine: the rows of its SQLite tables and
the values that its operations exchange with workers.  Instants are
microseconds; identifiers and lease tokens are drawn from one supply, so a
drawn one was never used before.
-/
import QhpcEcosystem.ResolveWorkflow
import QhpcEcosystem.Timestamps

namespace QhpcEcosystem

abbrev Uuid := Nat

abbrev Time := Nat

/-! ## States -/

inductive RunState where
  | queued
  | running
  | succeeded
  | failed
  | canceled
deriving DecidableEq, Repr

/-- `TERMINAL_STATES`. -/
def RunState.terminal : RunState → Bool
  | .succeeded | .failed | .canceled => true
  | .queued | .running => false

inductive TaskState where
  | pending
  | running
  | succeeded
  | failed
  | canceled
deriving DecidableEq, Repr

inductive AttemptState where
  | leased
  | submitting
  | submitted
  | running
  | collecting
  | cancelRequested
  | succeeded
  | failed
  | canceled
  | abandoned
deriving DecidableEq, Repr

/-- The attempt states that are not terminal. -/
def AttemptState.live : AttemptState → Bool
  | .leased | .submitting | .submitted | .running | .collecting | .cancelRequested => true
  | .succeeded | .failed | .canceled | .abandoned => false

def AttemptState.name : AttemptState → String
  | .leased => "leased"
  | .submitting => "submitting"
  | .submitted => "submitted"
  | .running => "running"
  | .collecting => "collecting"
  | .cancelRequested => "cancel_requested"
  | .succeeded => "succeeded"
  | .failed => "failed"
  | .canceled => "canceled"
  | .abandoned => "abandoned"

/-- What an execution target reports about a job. -/
inductive TargetState where
  | queued
  | running
  | succeeded
  | failed
  | canceled
  | unknown
deriving DecidableEq, Repr

def TargetState.name : TargetState → String
  | .queued => "queued"
  | .running => "running"
  | .succeeded => "succeeded"
  | .failed => "failed"
  | .canceled => "canceled"
  | .unknown => "unknown"

/-- The admitted target states among all texts. -/
def TargetState.ofName? (text : String) : Option TargetState :=
  [TargetState.queued, .running, .succeeded, .failed, .canceled, .unknown].find?
    fun state => state.name = text

theorem TargetState.ofName?_name (state : TargetState) :
    TargetState.ofName? state.name = some state := by
  cases state <;> decide

/-! ## Rows -/

/-- Metadata a runner reports with a submission, a status or a result. -/
abbrev Metadata := Dict String Value

/-- Output or input ports with the artifact stored under each. -/
abbrev ArtifactIds := Dict String Uuid

structure WorkflowRow where
  workflowId : String
  version : String
  digest : String
  definition : Workflow
  resolution : Dict String ResolvedOperation

instance : Keyed WorkflowRow (String × String) :=
  ⟨fun row => (row.workflowId, row.version)⟩

structure Run where
  id : Uuid
  workflowId : String
  workflowVersion : String
  executionTarget : String
  state : RunState
  createdAt : Time
  startedAt : Option Time := none
  finishedAt : Option Time := none
  inputs : ArtifactIds
  outputs : ArtifactIds := Table.empty

instance : Keyed Run Uuid := ⟨Run.id⟩

@[simp] theorem Run.key_eq (row : Run) : (Keyed.key row : Uuid) = row.id := rfl

/-- The operation column of a task. -/
structure TaskOperation where
  capability : String
  version : String
  operation : String
  project : String
  definition : OperationDefinition
  parameters : Dict String Value
  executionTarget : Option String
  executionClass : Option String

/-- The error column of a task or an attempt. -/
structure TaskError where
  code : String
  message : String
  retryable : Bool
deriving DecidableEq, Repr

structure Task where
  runId : Uuid
  nodeId : String
  sequence : Nat
  state : TaskState
  attempt : Nat := 0
  operation : TaskOperation
  runtimeDigest : String
  leaseToken : Option Uuid := none
  leaseExpiresAt : Option Time := none
  startedAt : Option Time := none
  finishedAt : Option Time := none
  error : Option TaskError := none
  outputs : ArtifactIds := Table.empty
  log : String := ""

instance : Keyed Task (Uuid × String) := ⟨fun row => (row.runId, row.nodeId)⟩

@[simp] theorem Task.key_eq (row : Task) :
    (Keyed.key row : Uuid × String) = (row.runId, row.nodeId) := rfl

structure Attempt where
  id : Uuid
  runId : Uuid
  nodeId : String
  number : Nat
  state : AttemptState
  workerId : Option String
  leaseToken : Option Uuid
  leaseExpiresAt : Option Time
  targetHandle : Option String := none
  targetState : Option TargetState := none
  targetMetadata : Metadata := Table.empty
  startedAt : Time
  submittedAt : Option Time := none
  finishedAt : Option Time := none
  error : Option TaskError := none
  outputs : ArtifactIds := Table.empty
  log : String := ""

instance : Keyed Attempt Uuid := ⟨Attempt.id⟩

@[simp] theorem Attempt.key_eq (row : Attempt) : (Keyed.key row : Uuid) = row.id := rfl

/-- The columns of an artifact that a task request passes on. -/
structure ArtifactRecord where
  id : Uuid
  artifactType : String
  uri : String
  checksum : String
  sizeBytes : Nat
deriving DecidableEq, Repr

structure Artifact where
  record : ArtifactRecord
  runId : Uuid
  taskId : String
  attemptId : Uuid
  port : String
  createdAt : Time
deriving DecidableEq, Repr

instance : Keyed Artifact Uuid := ⟨fun row => row.record.id⟩

instance : Keyed ArtifactRecord Uuid := ⟨ArtifactRecord.id⟩

structure Event where
  runId : Uuid
  nodeId : String
  attemptId : Option Uuid
  correlationId : Uuid
  eventType : String
  source : String
  executionClass : Option String
  targetHandle : Option String
  stage : Option String
  state : Option String
  recordedAt : Time
  durationMs : Option Int
  details : List (String × Value)

/-- The database.  `uuids` is the supply of fresh identifiers and tokens. -/
structure Db where
  workflowVersions : Table WorkflowRow := Table.empty
  runs : Table Run := Table.empty
  tasks : Table Task := Table.empty
  artifacts : Table Artifact := Table.empty
  inputArtifacts : Table ArtifactRecord := Table.empty
  taskAttempts : Table Attempt := Table.empty
  executionEvents : List Event := []
  uuids : Uuid := 0

/-! ## Values exchanged with workers -/

structure TaskLease where
  runId : Uuid
  nodeId : String
  attemptId : Uuid
  attemptNumber : Nat
  token : Uuid
  workerId : String
  expiresAt : Time
  state : AttemptState
  targetHandle : Option String := none
  recovered : Bool := false
deriving DecidableEq, Repr

structure TaskRequest where
  runId : Uuid
  nodeId : String
  capabilityId : String
  capabilityVersion : String
  operationId : String
  runtimeReference : String
  runtimeDigest : String
  parameters : Dict String Value
  inputs : Dict String ArtifactRecord
  outputTypes : Dict String String
  /-- Path components below the artifact root. -/
  workDirectory : List String
  project : String
  attemptId : Uuid
  executionTarget : String
  executionClass : String
  runtimeType : String
  entrypoint : List String
  arguments : List String
  resources : Dict String Int

structure ArtifactResult where
  artifactType : String
  uri : String
  checksum : String
  sizeBytes : Nat
deriving DecidableEq, Repr

structure TaskResult where
  outputs : Dict String ArtifactResult
  log : String := ""
  metadata : Metadata := Table.empty

/-! ## Row access -/

namespace Db

variable (db : Db)

def run? (runId : Uuid) : Option Run := db.runs.row? runId

def task? (runId : Uuid) (nodeId : String) : Option Task :=
  db.tasks.row? (runId, nodeId)

def attempt? (attemptId : Uuid) : Option Attempt := db.taskAttempts.row? attemptId

def updateRun (runId : Uuid) (f : RowUpdate Run) : Db :=
  { db with runs := db.runs.update runId f }

def updateTask (runId : Uuid) (nodeId : String) (f : RowUpdate Task) : Db :=
  { db with tasks := db.tasks.update (runId, nodeId) f }

def updateTasksWhere (p : Task → Bool) (f : RowUpdate Task) : Db :=
  { db with tasks := db.tasks.updateWhere p f }

def updateAttempt (attemptId : Uuid) (f : RowUpdate Attempt) : Db :=
  { db with taskAttempts := db.taskAttempts.update attemptId f }

/-- The definition stored for the workflow version of a run. -/
def definition? (runId : Uuid) : Option Workflow := do
  let run ← db.run? runId
  let row ← db.workflowVersions.row? (run.workflowId, run.workflowVersion)
  pure row.definition

/-- `_append_event`; the execution class and the target handle are read from
the task and the attempt. -/
def appendEvent (runId : Uuid) (nodeId : String) (attemptId : Option Uuid)
    (eventType : String) (now : Time) (stage : Option String := none)
    (state : Option String := none) (durationMs : Option Int := none)
    (details : List (String × Value) := []) (source : String := "workflow-engine") : Db :=
  { db with executionEvents := db.executionEvents ++ [{
      runId := runId
      nodeId := nodeId
      attemptId := attemptId
      correlationId := attemptId.getD runId
      eventType := eventType
      source := source
      executionClass := (db.task? runId nodeId).bind fun task => task.operation.executionClass
      targetHandle := attemptId.bind fun id =>
        (db.attempt? id).bind Attempt.targetHandle
      stage := stage
      state := state
      recordedAt := now
      durationMs := durationMs
      details := details }] }

variable {db}

theorem place_of_task? {runId : Uuid} {nodeId : String} {task : Task}
    (h : db.task? runId nodeId = some task) : task.runId = runId ∧ task.nodeId = nodeId := by
  have := Table.key_of_row? h
  simpa using this

theorem id_of_run? {runId : Uuid} {run : Run} (h : db.run? runId = some run) :
    run.id = runId := Table.key_of_row? h

theorem id_of_attempt? {attemptId : Uuid} {attempt : Attempt}
    (h : db.attempt? attemptId = some attempt) : attempt.id = attemptId :=
  Table.key_of_row? h

section AppendEvent

variable {db : Db} {runId : Uuid} {nodeId : String} {attemptId : Option Uuid}
  {eventType source : String} {now : Time} {stage state : Option String}
  {durationMs : Option Int} {details : List (String × Value)}

@[simp] theorem appendEvent_runs : (db.appendEvent runId nodeId attemptId eventType now stage
    state durationMs details source).runs = db.runs := rfl

@[simp] theorem appendEvent_tasks : (db.appendEvent runId nodeId attemptId eventType now stage
    state durationMs details source).tasks = db.tasks := rfl

@[simp] theorem appendEvent_taskAttempts : (db.appendEvent runId nodeId attemptId eventType
    now stage state durationMs details source).taskAttempts = db.taskAttempts := rfl

@[simp] theorem appendEvent_workflowVersions : (db.appendEvent runId nodeId attemptId eventType
    now stage state durationMs details source).workflowVersions = db.workflowVersions := rfl

@[simp] theorem appendEvent_artifacts : (db.appendEvent runId nodeId attemptId eventType now
    stage state durationMs details source).artifacts = db.artifacts := rfl

@[simp] theorem appendEvent_inputArtifacts : (db.appendEvent runId nodeId attemptId eventType
    now stage state durationMs details source).inputArtifacts = db.inputArtifacts := rfl

@[simp] theorem appendEvent_uuids : (db.appendEvent runId nodeId attemptId eventType now stage
    state durationMs details source).uuids = db.uuids := rfl

end AppendEvent

end Db

end QhpcEcosystem
