/-
How a worker obtains work: the sweep over expired leases, the choice between an
attempt to recover and a pending task, and the request that describes the
chosen task to a runner.
-/
import QhpcEcosystem.AttemptOperations

namespace QhpcEcosystem

/-! ## The sweep over expired leases -/

/-- The attempt of a task under a number, which `UNIQUE (run_id, node_id, number)`
makes unique. -/
def Db.numberedAttempt? (db : Db) (runId : Uuid) (nodeId : String) (number : Nat) :
    Option Attempt :=
  db.taskAttempts.rows.find? fun row =>
    row.runId = runId ∧ row.nodeId = nodeId ∧ row.number = number

/-- `expires < now` in SQL, on texts; an absent instant has not passed. -/
def lapsed (now : Time) : Option Time → Bool
  | some expires => timestampLt expires now
  | none => false

/-- A row of the query of `_reset_expired_leases`. -/
structure ExpiredLease where
  task : Task
  runState : RunState
  attempt : Option Attempt

/-- The row of a task in that query, when its lease or the lease of its current
attempt has expired. -/
def Db.expiredLease? (db : Db) (now : Time) (task : Task) : Option ExpiredLease :=
  match db.run? task.runId with
  | none => none
  | some run =>
      let attempt := db.numberedAttempt? task.runId task.nodeId task.attempt
      if (lapsed now task.leaseExpiresAt ||
            attempt.any fun row => lapsed now row.leaseExpiresAt) &&
          (task.state = .running || attempt.any fun row => row.state = .cancelRequested) then
        some ⟨task, run.state, attempt⟩
      else none

/-- What the sweep does with an expired lease. -/
inductive Expiry where
  | closeCanceled
  | keepTarget
  | reopen
deriving DecidableEq, Repr

/-- The case distinction of the sweep.  A stored handle is never empty. -/
def ExpiredLease.expiry (row : ExpiredLease) : Expiry :=
  if row.runState = .canceled ∧ (row.attempt.bind Attempt.targetHandle).isNone then
    .closeCanceled
  else if row.attempt.any fun attempt =>
      attempt.targetHandle.isSome || attempt.state = .submitting then .keepTarget
  else .reopen

def leaseFailure : TaskError :=
  ⟨"lease-expired", "task lease expired before target submission", true⟩

def Attempt.closeCanceled (now : Time) : RowUpdate Attempt where
  apply row := { row.withoutLease with state := .canceled, finishedAt := some now }

def Attempt.abandon (now : Time) : RowUpdate Attempt where
  apply row := { row.withoutLease with
    state := .abandoned, finishedAt := some now, error := some leaseFailure }

def Task.reopen : RowUpdate Task where
  apply row := { row.withoutLease with state := .pending, error := some leaseFailure }

def Expiry.attemptUpdate (now : Time) : Expiry → RowUpdate Attempt
  | .closeCanceled => Attempt.closeCanceled now
  | .keepTarget => Attempt.clearLease
  | .reopen => Attempt.abandon now

def Expiry.taskUpdate : Expiry → RowUpdate Task
  | .closeCanceled | .keepTarget => Task.clearLease
  | .reopen => Task.reopen

/-- The event of the sweep for an attempt. -/
def Expiry.appendEvent (expiry : Expiry) (db : Db) (now : Time) (attempt : Attempt) : Db :=
  match expiry with
  | .closeCanceled =>
      db.appendEvent attempt.runId attempt.nodeId (some attempt.id) "task.canceled" now none
        (some "canceled") none [("reason", .str "canceled-submission-lease-expired")]
  | .keepTarget =>
      db.appendEvent attempt.runId attempt.nodeId (some attempt.id) "lease.expired" now none
        (some attempt.state.name) none
        [("recovery", .str (if attempt.targetHandle.isSome then "target-handle-preserved"
          else "submission-intent-preserved"))]
  | .reopen =>
      db.appendEvent attempt.runId attempt.nodeId (some attempt.id) "lease.expired" now none
        (some "abandoned") none [("recovery", .str "new-attempt-required")]

/-- The body of the loop of `_reset_expired_leases`. -/
def expireLease (now : Time) (db : Db) (row : ExpiredLease) : Db :=
  let db :=
    match row.attempt with
    | some attempt => row.expiry.appendEvent
        (db.updateAttempt attempt.id (row.expiry.attemptUpdate now)) now attempt
    | none => db
  db.updateTask row.task.runId row.task.nodeId row.expiry.taskUpdate

/-- `_reset_expired_leases`. -/
def resetExpiredLeases (db : Db) (now : Time) : Db :=
  (db.tasks.rows.filterMap (db.expiredLease? now)).foldl (expireLease now) db

/-! ## Claims -/

/-- The targets and classes that a worker admits; `none` admits all. -/
structure Admission where
  executionTargets : Option (List String)
  executionClasses : Option (List String)
deriving DecidableEq, Repr

def admitted (values : Option (List String)) (value : String) : Bool :=
  match values with
  | none => true
  | some values => value ∈ values

/-- The target of a task of a run. -/
def Task.executionTarget (task : Task) (run : Run) : String :=
  task.operation.executionTarget.getD run.executionTarget

def Task.executionClass (task : Task) : String :=
  task.operation.executionClass.getD "interactive-local"

def Admission.admits (admission : Admission) (task : Task) (run : Run) : Bool :=
  admitted admission.executionTargets (task.executionTarget run) &&
    admitted admission.executionClasses task.executionClass

/-- An attempt joined with its task and its run. -/
structure JoinedAttempt where
  attempt : Attempt
  task : Task
  run : Run

/-- A live attempt without a lease that another worker may take over. -/
def Attempt.recoverable (row : Attempt) : Bool :=
  row.leaseToken.isNone &&
    match row.targetHandle with
    | some _ => row.state ∈ [.submitted, .running, .collecting, .cancelRequested]
    | none => row.state = .submitting

def Db.join? (db : Db) (attempt : Attempt) : Option JoinedAttempt :=
  match db.task? attempt.runId attempt.nodeId with
  | none => none
  | some task => (db.run? task.runId).map fun run => ⟨attempt, task, run⟩

/-- `CASE WHEN a.state='cancel_requested' THEN 0 ELSE 1 END`. -/
def JoinedAttempt.rank (row : JoinedAttempt) : Nat :=
  if row.attempt.state = .cancelRequested then 0 else 1

/-- The order of recoverable attempts: cancellations first, then the earliest
start, then the position in the workflow. -/
def JoinedAttempt.before (x y : JoinedAttempt) : Prop :=
  x.rank < y.rank ∨ x.rank = y.rank ∧
    (timestampLt x.attempt.startedAt y.attempt.startedAt = true ∨
      x.attempt.startedAt = y.attempt.startedAt ∧ x.task.sequence ≤ y.task.sequence)

instance : DecidableRel JoinedAttempt.before := fun x y => by
  unfold JoinedAttempt.before
  infer_instance

/-- The recoverable attempts in the order in which `claim_task` considers them. -/
def Db.recoverableAttempts (db : Db) : List JoinedAttempt :=
  ((db.taskAttempts.rows.filter Attempt.recoverable).filterMap db.join?).insertionSort
    JoinedAttempt.before

def Attempt.lease (workerId : String) (token : Uuid) (expires : Time) : RowUpdate Attempt where
  apply row := { row with
    workerId := some workerId, leaseToken := some token, leaseExpiresAt := some expires }

def Task.lease (token : Uuid) (expires : Time) : RowUpdate Task where
  apply row := { row with leaseToken := some token, leaseExpiresAt := some expires }

/-- Take over a recoverable attempt. -/
def recoverAttempt (db : Db) (now : Time) (workerId : String) (leaseSeconds : Int)
    (attempt : Attempt) : TaskLease × Db :=
  let token := db.uuids
  let expires := leaseExpiration now leaseSeconds
  let db := { db with uuids := db.uuids + 1 }
  let db := db.updateAttempt attempt.id (Attempt.lease workerId token expires)
  let db := db.updateTask attempt.runId attempt.nodeId (Task.lease token expires)
  let db := db.appendEvent attempt.runId attempt.nodeId (some attempt.id) "lease.acquired" now
    none (some attempt.state.name) none
    [("worker_id", .str workerId), ("recovered", .bool true)]
  ({ runId := attempt.runId
     nodeId := attempt.nodeId
     attemptId := attempt.id
     attemptNumber := attempt.number
     token := token
     workerId := workerId
     expiresAt := expires
     state := attempt.state
     targetHandle := attempt.targetHandle
     recovered := true }, db)

/-- `_parents`. -/
def parents (definition : Workflow) (nodeId : String) : List String :=
  (definition.edges.filter fun edge => edge.target.node = nodeId).map
    fun edge => edge.source.node

/-- Whether no parent has a state other than succeeded. -/
def parentsSucceeded (db : Db) (runId : Uuid) : List String → Except Exn Bool
  | [] => .ok true
  | parent :: rest =>
      match db.task? runId parent with
      | none => .error (keyError parent)
      | some task =>
          if task.state ≠ .succeeded then .ok false else parentsSucceeded db runId rest

def RunState.live : RunState → Bool
  | .queued | .running => true
  | .succeeded | .failed | .canceled => false

/-- The order of the candidates: the age of the run, then the position in the
workflow. -/
def candidateBefore (x y : Task × Run) : Prop :=
  timestampLt x.2.createdAt y.2.createdAt = true ∨
    x.2.createdAt = y.2.createdAt ∧ x.1.sequence ≤ y.1.sequence

instance : DecidableRel candidateBefore := fun x y => by
  unfold candidateBefore
  infer_instance

/-- A pending task of a live run, with the run. -/
def Db.candidate? (db : Db) (task : Task) : Option (Task × Run) :=
  match db.run? task.runId with
  | none => none
  | some run => if task.state = .pending ∧ run.state.live then some (task, run) else none

def Db.candidates (db : Db) : List (Task × Run) :=
  (db.tasks.rows.filterMap db.candidate?).insertionSort candidateBefore

/-- The first candidate that the worker admits and whose parents succeeded. -/
def firstReady (db : Db) (admission : Admission) : List (Task × Run) → Except Exn (Option Task)
  | [] => .ok none
  | (task, run) :: rest =>
      if admission.admits task run = false then firstReady db admission rest
      else
        match db.definition? task.runId with
        | none => .error noneNotSubscriptable
        | some definition => do
            let ready ← parentsSucceeded db task.runId (parents definition task.nodeId)
            if ready then pure (some task) else firstReady db admission rest

/-- `INSERT INTO task_attempts`, with the primary key and
`UNIQUE (run_id, node_id, number)`. -/
def Db.insertAttempt? (db : Db) (row : Attempt) : Option Db :=
  if (db.numberedAttempt? row.runId row.nodeId row.number).isSome then none
  else
    (db.taskAttempts.insert? row).map fun attempts => { db with taskAttempts := attempts }

def Task.start (token : Uuid) (expires now : Time) : RowUpdate Task where
  apply row := { row with
    state := .running
    attempt := row.attempt + 1
    leaseToken := some token
    leaseExpiresAt := some expires
    startedAt := some (row.startedAt.getD now)
    finishedAt := none
    error := none }

def Run.start (now : Time) : RowUpdate Run where
  apply row := { row with state := .running, startedAt := some (row.startedAt.getD now) }

/-- The attempt row of a fresh claim. -/
def freshAttempt (id token : Uuid) (workerId : String) (now expires : Time) (task : Task) :
    Attempt where
  id := id
  runId := task.runId
  nodeId := task.nodeId
  number := task.attempt + 1
  state := .leased
  workerId := some workerId
  leaseToken := some token
  leaseExpiresAt := some expires
  startedAt := now

/-- Lease a pending task under a new attempt. -/
def leaseTask (db : Db) (now : Time) (workerId : String) (leaseSeconds : Int) (task : Task) :
    Except Exn (TaskLease × Db) :=
  let token := db.uuids
  let attemptId := db.uuids + 1
  let expires := leaseExpiration now leaseSeconds
  let db := { db with uuids := db.uuids + 2 }
  let db := db.updateTask task.runId task.nodeId (Task.start token expires now)
  match db.insertAttempt? (freshAttempt attemptId token workerId now expires task) with
  | none => .error ⟨.integrityError, "UNIQUE constraint failed", []⟩
  | some db =>
      let db := db.updateRun task.runId (Run.start now)
      let db := db.appendEvent task.runId task.nodeId (some attemptId) "task.leased" now none
        (some "leased") none [("worker_id", .str workerId), ("recovered", .bool false)]
      .ok ({ runId := task.runId
             nodeId := task.nodeId
             attemptId := attemptId
             attemptNumber := task.attempt + 1
             token := token
             workerId := workerId
             expiresAt := expires
             state := .leased }, db)

/-- `claim_task`. -/
def claimTask (db : Db) (now : Time) (workerId : String) (leaseSeconds : Int)
    (admission : Admission) : Except Exn (Option TaskLease × Db) :=
  if leaseSeconds ≤ 0 then
    .error (valueError "task lease duration must be greater than zero")
  else
    let db := resetExpiredLeases db now
    match db.recoverableAttempts.find? fun row => admission.admits row.task row.run with
    | some row =>
        let (lease, db) := recoverAttempt db now workerId leaseSeconds row.attempt
        .ok (some lease, db)
    | none => do
        match ← firstReady db admission db.candidates with
        | none => pure (none, db)
        | some task =>
            let (lease, db) ← leaseTask db now workerId leaseSeconds task
            pure (some lease, db)

/-! ## Task requests -/

/-- `get_artifact`. -/
def getArtifact (db : Db) (artifactId : Uuid) : Except Exn ArtifactRecord :=
  match db.inputArtifacts.row? artifactId with
  | some record => .ok record
  | none =>
      match db.artifacts.row? artifactId with
      | some artifact => .ok artifact.record
      | none => .error (keyError ("artifact not found: " ++ artifactText artifactId))

/-- The input artifacts of a node that come from the inputs of the run. -/
def runInputArtifacts (db : Db) (run : Run) (nodeId : String) :
    List (String × WorkflowInput) → Dict String ArtifactRecord →
      Except Exn (Dict String ArtifactRecord)
  | [], inputs => .ok inputs
  | (name, input) :: rest, inputs =>
      if input.target.node = nodeId then
        match run.inputs.row? name with
        | none => runInputArtifacts db run nodeId rest inputs
        | some (_, artifactId) => do
            let record ← getArtifact db artifactId
            runInputArtifacts db run nodeId rest (inputs.set (input.target.port, record))
      else runInputArtifacts db run nodeId rest inputs

/-- The input artifacts of a node that come from its parents. -/
def edgeArtifacts (db : Db) (runId : Uuid) (nodeId : String) :
    List Edge → Dict String ArtifactRecord → Except Exn (Dict String ArtifactRecord)
  | [], inputs => .ok inputs
  | edge :: rest, inputs =>
      if edge.target.node = nodeId then
        match db.task? runId edge.source.node with
        | none => .error noneNotSubscriptable
        | some parent =>
            match parent.outputs.row? edge.source.port with
            | none => .error (keyError edge.source.port)
            | some (_, artifactId) =>
                match db.artifacts.row? artifactId with
                | none => .error ⟨.typeError, "'NoneType' object is not iterable", []⟩
                | some artifact =>
                    edgeArtifacts db runId nodeId rest
                      (inputs.set (edge.target.port, artifact.record))
      else edgeArtifacts db runId nodeId rest inputs

/-- The declared defaults, overridden by the parameters of the node. -/
def requestParameters (operation : TaskOperation) : Dict String Value :=
  let defaults := operation.definition.parameters.rows.filterMap fun item =>
    item.2.default.map fun value => (item.1, value)
  (defaults ++ operation.parameters.rows).foldl Table.set Table.empty

/-- `{name: value["artifact_type"] for name, value in outputs.items()}`. -/
def outputTypes (outputs : Dict String PortDefinition) : Dict String String :=
  (outputs.rows.map fun item => (item.1, item.2.artifactType)).foldl Table.set Table.empty

/-- `_task_request`. -/
def taskRequestFor (db : Db) (runId : Uuid) (nodeId : String) (attemptId : Uuid) :
    Except Exn TaskRequest :=
  match db.run? runId, db.definition? runId, db.task? runId nodeId with
  | some run, some definition, some task => do
      let inputs ← runInputArtifacts db run nodeId definition.inputs.rows Table.empty
      let inputs ← edgeArtifacts db runId nodeId definition.edges inputs
      let operation := task.operation
      pure {
        runId := runId
        nodeId := nodeId
        capabilityId := operation.capability
        capabilityVersion := operation.version
        operationId := operation.operation
        runtimeReference := operation.definition.runtime.reference
        runtimeDigest := operation.definition.runtime.digest
        parameters := requestParameters operation
        inputs := inputs
        outputTypes := outputTypes operation.definition.outputs
        workDirectory := [runText runId, nodeId, attemptText attemptId]
        project := operation.project
        attemptId := attemptId
        executionTarget := task.executionTarget run
        executionClass := task.executionClass
        runtimeType := operation.definition.runtime.type
        entrypoint := operation.definition.invocation.entrypoint
        arguments := operation.definition.invocation.arguments
        resources := operation.definition.resources }
  | _, _, _ => .error noneNotSubscriptable

/-- A request is built from the run, its definition and the task row. -/
theorem taskRequestFor_eq_ok {db : Db} {runId attemptId : Uuid} {nodeId : String}
    {request : TaskRequest} (h : taskRequestFor db runId nodeId attemptId = .ok request) :
    ∃ run definition task given inputs,
      db.run? runId = some run ∧ db.definition? runId = some definition ∧
      db.task? runId nodeId = some task ∧
      runInputArtifacts db run nodeId definition.inputs.rows Table.empty = .ok given ∧
      edgeArtifacts db runId nodeId definition.edges given = .ok inputs ∧
      request =
        { runId := runId
          nodeId := nodeId
          capabilityId := task.operation.capability
          capabilityVersion := task.operation.version
          operationId := task.operation.operation
          runtimeReference := task.operation.definition.runtime.reference
          runtimeDigest := task.operation.definition.runtime.digest
          parameters := requestParameters task.operation
          inputs := inputs
          outputTypes := outputTypes task.operation.definition.outputs
          workDirectory := [runText runId, nodeId, attemptText attemptId]
          project := task.operation.project
          attemptId := attemptId
          executionTarget := task.executionTarget run
          executionClass := task.executionClass
          runtimeType := task.operation.definition.runtime.type
          entrypoint := task.operation.definition.invocation.entrypoint
          arguments := task.operation.definition.invocation.arguments
          resources := task.operation.definition.resources } := by
  unfold taskRequestFor at h
  split at h
  · next run definition task hrun hdefinition htask =>
      simp only [bind, Except.bind, pure, Except.pure] at h
      split at h
      · cases h
      · next given hgiven =>
          split at h
          · cases h
          · next inputs hinputs =>
              exact ⟨run, definition, task, given, inputs, hrun, hdefinition, htask, hgiven,
                hinputs, (Except.ok.inj h).symm⟩
  · cases h

/-- `task_request`. -/
def taskRequest (db : Db) (lease : TaskLease) : Except Exn TaskRequest := do
  let _ ← assertLease db lease
  taskRequestFor db lease.runId lease.nodeId lease.attemptId

end QhpcEcosystem
