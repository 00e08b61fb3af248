/-
The engine operations of a worker that holds a lease: renewal, the telemetry
and target records, release, cancellation, completion and failure.  Each is one
transaction on the database; one that raises leaves the database as it was.
-/
import QhpcEcosystem.EngineState
import QhpcEcosystem.TextLines

namespace QhpcEcosystem

/-! ## Exceptions -/

def runtimeError (message : String) : Exn := ⟨.runtimeError, message, []⟩

def valueError (message : String) : Exn := ⟨.valueError, message, []⟩

/-- `KeyError(key)`; its text is the representation of the key. -/
def keyError (key : String) : Exn := ⟨.keyError, "'" ++ key ++ "'", []⟩

/-- The item of a row that a query did not find. -/
def noneNotSubscriptable : Exn :=
  ⟨.typeError, "'NoneType' object is not subscriptable", []⟩

def staleLease : Exn := runtimeError "stale or invalid task lease"

def staleAttempt : Exn := runtimeError "stale or invalid task attempt"

/-! ## Texts -/

def runText (runId : Uuid) : String := "run-" ++ toString runId

def artifactText (artifactId : Uuid) : String := "artifact-" ++ toString artifactId

def attemptText (attemptId : Uuid) : String := "attempt-" ++ toString attemptId

/-! ## Leases -/

/-- `_lease_expiration`, in microseconds. -/
def leaseExpiration (now : Time) (leaseSeconds : Int) : Time :=
  now + leaseSeconds.toNat * 1000000

/-- The attempt row that carries the token of a lease. -/
structure Db.Leased (db : Db) (lease : TaskLease) (row : Attempt) : Prop where
  found : db.attempt? lease.attemptId = some row
  runId : row.runId = lease.runId
  nodeId : row.nodeId = lease.nodeId
  token : row.leaseToken = some lease.token

/-- The attempt row that a lease entitles its bearer to change. -/
structure Db.Holds (db : Db) (lease : TaskLease) (row : Attempt) : Prop
    extends db.Leased lease row where
  workerId : row.workerId = some lease.workerId

/-- `_assert_lease`. -/
def assertLease (db : Db) (lease : TaskLease) : Except Exn Attempt :=
  match db.attempt? lease.attemptId with
  | some row =>
      if row.runId = lease.runId ∧ row.nodeId = lease.nodeId ∧
          row.workerId = some lease.workerId ∧ row.leaseToken = some lease.token then
        .ok row
      else .error staleLease
  | none => .error staleLease

theorem assertLease_eq_ok {db : Db} {lease : TaskLease} {row : Attempt} :
    assertLease db lease = .ok row ↔ db.Holds lease row := by
  constructor
  · intro h
    unfold assertLease at h
    split at h
    · next found hfound =>
        split at h
        · next hmatch =>
            cases h
            exact ⟨⟨hfound, hmatch.1, hmatch.2.1, hmatch.2.2.2⟩, hmatch.2.2.1⟩
        · cases h
    · cases h
  · rintro ⟨⟨hfound, hrun, hnode, htoken⟩, hworker⟩
    simp [assertLease, hfound, hrun, hnode, hworker, htoken]

namespace Attempt

/-- The columns every release and every terminal update empties. -/
def withoutLease (row : Attempt) : Attempt :=
  { row with workerId := none, leaseToken := none, leaseExpiresAt := none }

def clearLease : RowUpdate Attempt where
  apply := withoutLease

def renew (expires : Time) : RowUpdate Attempt where
  apply row := { row with leaseExpiresAt := some expires }

def setState (state : AttemptState) : RowUpdate Attempt where
  apply row := { row with state := state }

def submit (state : AttemptState) (handle : String) (target : TargetState)
    (metadata : Metadata) (now : Time) : RowUpdate Attempt where
  apply row := { row with
    state := state
    targetHandle := some handle
    targetState := some target
    targetMetadata := metadata
    submittedAt := some (row.submittedAt.getD now) }

def observe (state : AttemptState) (target : TargetState) (metadata : Metadata) :
    RowUpdate Attempt where
  apply row := { row with
    state := state, targetState := some target, targetMetadata := metadata }

def cancel (now : Time) (log : String) : RowUpdate Attempt where
  apply row := { row.withoutLease with
    state := .canceled
    targetState := some .canceled
    finishedAt := some now
    log := log }

def succeed (now : Time) (outputs : ArtifactIds) (log : String) : RowUpdate Attempt where
  apply row := { row.withoutLease with
    state := .succeeded
    targetState := some (row.targetState.getD .succeeded)
    finishedAt := some now
    outputs := outputs
    log := log }

def fail (now : Time) (failure : TaskError) : RowUpdate Attempt where
  apply row := { row.withoutLease with
    state := .failed, finishedAt := some now, error := some failure }

end Attempt

namespace Task

def withoutLease (row : Task) : Task :=
  { row with leaseToken := none, leaseExpiresAt := none }

def clearLease : RowUpdate Task where
  apply := withoutLease

def renew (expires : Time) : RowUpdate Task where
  apply row := { row with leaseExpiresAt := some expires }

def cancel (now : Time) : RowUpdate Task where
  apply row := { row.withoutLease with state := .canceled, finishedAt := some now }

def succeed (now : Time) (outputs : ArtifactIds) (log : String) : RowUpdate Task where
  apply row := { row.withoutLease with
    state := .succeeded, finishedAt := some now, outputs := outputs, log := log }

def fail (now : Time) (failure : TaskError) : RowUpdate Task where
  apply row := { row.withoutLease with
    state := .failed, finishedAt := some now, error := some failure }

/-- The row matches the run, the node and the token of a lease. -/
def leasedBy (lease : TaskLease) (row : Task) : Bool :=
  row.runId = lease.runId && row.nodeId = lease.nodeId &&
    row.leaseToken = some lease.token

end Task

namespace Run

def finish (state : RunState) (now : Time) : RowUpdate Run where
  apply row := { row with state := state, finishedAt := some now }

def succeed (now : Time) (outputs : ArtifactIds) : RowUpdate Run where
  apply row := { row with
    state := .succeeded, finishedAt := some now, outputs := outputs }

end Run

/-- `renew_lease`. -/
def renewLease (db : Db) (now : Time) (lease : TaskLease) (leaseSeconds : Int) :
    Except Exn (TaskLease × Db) :=
  if leaseSeconds ≤ 0 then
    .error (valueError "task lease duration must be greater than zero")
  else do
    let expires := leaseExpiration now leaseSeconds
    let row ← assertLease db lease
    let db := db.updateAttempt lease.attemptId (Attempt.renew expires)
    let db := db.updateTasksWhere (Task.leasedBy lease) (Task.renew expires)
    pure ({ lease with
      expiresAt := expires, state := row.state, targetHandle := row.targetHandle }, db)

/-- `attempt_state`. -/
def attemptState (db : Db) (lease : TaskLease) : Except Exn AttemptState := do
  let row ← assertLease db lease
  pure row.state

/-- `release_lease`. -/
def releaseLease (db : Db) (lease : TaskLease) : Except Exn Db := do
  let _ ← assertLease db lease
  let db := db.updateAttempt lease.attemptId Attempt.clearLease
  pure (db.updateTasksWhere (Task.leasedBy lease) Task.clearLease)

/-! ## Telemetry and target records -/

/-- `record_stage`; the check of the duration is the one of `_append_event`. -/
def recordStage (db : Db) (now : Time) (lease : TaskLease) (stage : String)
    (durationMs : Int) (details : List (String × Value) := []) (source : String := "worker") :
    Except Exn Db :=
  if isIdentifier stage = false then .error (valueError "invalid execution stage")
  else do
    let _ ← assertLease db lease
    if durationMs < 0 then throw (valueError "event duration cannot be negative")
    pure (db.appendEvent lease.runId lease.nodeId (some lease.attemptId)
      "stage.completed" now (some stage) none (some durationMs) details source)

/-- The entries of `stage_durations_ms` that are recorded, in key order. -/
def reportedStages (metadata : Metadata) : List (String × Int) :=
  match metadata.row? "stage_durations_ms" with
  | some (_, .obj durations) =>
      (durations.insertionSort fun x y => x.1 ≤ y.1).filterMap fun item =>
        match item.2 with
        | .number (.int duration) =>
            if isIdentifier item.1 ∧ 0 ≤ duration then some (item.1, duration) else none
        | _ => none
  | _ => []

/-- `_record_reported_stages`. -/
def appendReportedStages (db : Db) (now : Time) (lease : TaskLease)
    (metadata : Metadata) : Db :=
  (reportedStages metadata).foldl (fun db item =>
    db.appendEvent lease.runId lease.nodeId (some lease.attemptId) "stage.completed" now
      (some item.1) none (some item.2) [("reported_by", .str "target-runner")]
      "target-runner") db

/-- `record_reported_stages`. -/
def recordReportedStages (db : Db) (now : Time) (lease : TaskLease)
    (metadata : Metadata) : Except Exn Db := do
  let _ ← assertLease db lease
  pure (appendReportedStages db now lease metadata)

/-- The attempt state that a submission in a target state leads to. -/
def submittedState : TargetState → AttemptState
  | .queued | .failed | .canceled | .unknown => .submitted
  | .running => .running
  | .succeeded => .collecting

/-- `record_submission`. -/
def recordSubmission (db : Db) (now : Time) (lease : TaskLease)
    (targetHandle targetState : String) (metadata : Metadata := Table.empty) :
    Except Exn (AttemptState × Db) :=
  if targetHandle = "" ∨ targetHandle.toList.any isSpace then
    .error (valueError "invalid target handle")
  else
    match TargetState.ofName? targetState with
    | none => .error (valueError "invalid submitted target state")
    | some target => do
        let current ← assertLease db lease
        let state :=
          if current.state = .cancelRequested then .cancelRequested
          else submittedState target
        let db := db.updateAttempt lease.attemptId
          (Attempt.submit state targetHandle target metadata now)
        let db := db.appendEvent lease.runId lease.nodeId (some lease.attemptId)
          "target.submitted" now none (some targetState) none
          [("target_handle", .str targetHandle)] "target-runner"
        pure (state, appendReportedStages db now lease metadata)

/-- `mark_submitting`. -/
def markSubmitting (db : Db) (now : Time) (lease : TaskLease) : Except Exn Db := do
  let current ← assertLease db lease
  match current.state with
  | .cancelRequested => pure db
  | .leased =>
      pure ((db.updateAttempt lease.attemptId (Attempt.setState .submitting)).appendEvent
        lease.runId lease.nodeId (some lease.attemptId) "target.submit-intent" now none
        (some "submitting") none [("idempotency_key", .str (attemptText lease.attemptId))])
  | .submitting =>
      pure (db.updateAttempt lease.attemptId (Attempt.setState .submitting))
  | state => throw (runtimeError ("attempt cannot enter submitting from " ++ state.name))

/-- The attempt state after the target reported `target`; failed, canceled and
unknown jobs keep it. -/
def observedState (state : AttemptState) : TargetState → AttemptState
  | .queued => .submitted
  | .running => .running
  | .succeeded => .collecting
  | .failed | .canceled | .unknown => state

/-- `dict.update`. -/
def Metadata.merge (metadata update : Metadata) : Metadata :=
  update.rows.foldl Table.set metadata

/-- `record_target_status`. -/
def recordTargetStatus (db : Db) (now : Time) (lease : TaskLease) (targetState : String)
    (metadata : Metadata := Table.empty) : Except Exn Db :=
  match TargetState.ofName? targetState with
  | none => .error (valueError "invalid target state")
  | some target => do
      let attempt ← assertLease db lease
      let db := db.updateAttempt lease.attemptId
        (Attempt.observe (observedState attempt.state target) target
          (Metadata.merge attempt.targetMetadata metadata))
      let db := db.appendEvent lease.runId lease.nodeId (some lease.attemptId)
        "target.state" now none (some targetState) none metadata.rows "target-runner"
      pure (appendReportedStages db now lease metadata)

/-! ## Ends of an attempt -/

/-- `mark_attempt_canceled`. -/
def markAttemptCanceled (db : Db) (now : Time) (lease : TaskLease) (log : String := "")
    (details : List (String × Value) := []) : Except Exn Db := do
  let _ ← assertLease db lease
  let db := db.updateAttempt lease.attemptId (Attempt.cancel now log)
  let db := db.updateTask lease.runId lease.nodeId (Task.cancel now)
  pure (db.appendEvent lease.runId lease.nodeId (some lease.attemptId) "task.canceled" now
    none (some "canceled") none details)

/-- The attempt of a task that carries a lease token. -/
def Db.leasedAttempt? (db : Db) (runId : Uuid) (nodeId : String) (token : Uuid) :
    Option Attempt :=
  db.taskAttempts.rows.find? fun row =>
    row.runId = runId ∧ row.nodeId = nodeId ∧ row.leaseToken = some token

/-- `INSERT INTO artifacts`, with the primary key and `UNIQUE (attempt_id, port)`. -/
def Db.insertArtifact? (db : Db) (row : Artifact) : Option Db :=
  if db.artifacts.rows.any fun old =>
      old.attemptId = row.attemptId ∧ old.port = row.port then none
  else
    (db.artifacts.insert? row).map fun artifacts => { db with artifacts := artifacts }

/-- The artifact row of an output. -/
def newArtifact (now : Time) (attempt : Attempt) (artifactId : Uuid) (port : String)
    (artifact : ArtifactResult) : Artifact where
  record := ⟨artifactId, artifact.artifactType, artifact.uri, artifact.checksum,
    artifact.sizeBytes⟩
  runId := attempt.runId
  taskId := attempt.nodeId
  attemptId := attempt.id
  port := port
  createdAt := now

/-- The output loop of `_complete`: check the declared type, store the artifact
under a fresh identifier. -/
def insertOutputs (now : Time) (attempt : Attempt) (declared : Dict String PortDefinition) :
    List (String × ArtifactResult) → Db → ArtifactIds → Except Exn (Db × ArtifactIds)
  | [], db, outputIds => .ok (db, outputIds)
  | (port, artifact) :: rest, db, outputIds =>
      match declared.row? port with
      | none => .error (keyError port)
      | some (_, definition) =>
          if artifact.artifactType ≠ definition.artifactType then
            .error (runtimeError ("output " ++ port ++ " has " ++ artifact.artifactType ++
              "; expected " ++ definition.artifactType))
          else
            match db.insertArtifact? (newArtifact now attempt db.uuids port artifact) with
            | none => .error ⟨.integrityError, "UNIQUE constraint failed", []⟩
            | some stored =>
                insertOutputs now attempt declared rest
                  { stored with uuids := db.uuids + 1 } (outputIds.set (port, db.uuids))

/-- The outputs of a finished run: for each workflow output the artifact of its
source port. -/
def collectOutputs (db : Db) (runId : Uuid) :
    List (String × WorkflowOutput) → ArtifactIds → Except Exn ArtifactIds
  | [], outputs => .ok outputs
  | (name, output) :: rest, outputs =>
      match db.task? runId output.source.node with
      | none => .error noneNotSubscriptable
      | some task =>
          match task.outputs.row? output.source.port with
          | none => .error (keyError output.source.port)
          | some (_, artifactId) =>
              collectOutputs db runId rest (outputs.set (name, artifactId))

/-- The tasks of a run. -/
def Db.tasksOf (db : Db) (runId : Uuid) : List Task :=
  db.tasks.rows.filter fun task => task.runId = runId

/-- `_finish_run_if_terminal`. -/
def finishRunIfTerminal (db : Db) (now : Time) (runId : Uuid) : Except Exn Db :=
  let tasks := db.tasksOf runId
  if tasks = [] ∨ tasks.any fun task => task.state ≠ .succeeded then .ok db
  else
    match db.definition? runId with
    | none => .error noneNotSubscriptable
    | some definition => do
        let outputs ← collectOutputs db runId definition.outputs.rows Table.empty
        pure (db.updateRun runId (Run.succeed now outputs))

/-- Required outputs that a result omits. -/
def missingOutputs (declared : Dict String PortDefinition) (result : TaskResult) :
    List String :=
  sortedStrings ((declared.rows.filter fun item =>
    item.2.isRequired ∧ (result.outputs.row? item.1).isNone).map Prod.fst)

/-- Outputs of a result that the operation does not declare. -/
def unknownOutputs (declared : Dict String PortDefinition) (result : TaskResult) :
    List String :=
  sortedStrings ((result.outputs.rows.map Prod.fst).filter fun port =>
    (declared.row? port).isNone)

def ArtifactIds.value (ids : ArtifactIds) : Value :=
  .obj (ids.rows.map fun item => (item.1, .str (artifactText item.2)))

/-- The updates of `_complete` once the outputs are stored. -/
def storeCompletion (db : Db) (now : Time) (lease : TaskLease) (attemptId : Uuid)
    (outputIds : ArtifactIds) (log : String) : Db :=
  let db := db.updateTask lease.runId lease.nodeId (Task.succeed now outputIds log)
  let db := db.updateAttempt attemptId (Attempt.succeed now outputIds log)
  db.appendEvent lease.runId lease.nodeId (some attemptId) "task.succeeded" now none
    (some "succeeded") none [("outputs", ArtifactIds.value outputIds)]

/-- `complete_task`. -/
def completeTask (db : Db) (now : Time) (lease : TaskLease) (result : TaskResult) :
    Except Exn Db :=
  match db.task? lease.runId lease.nodeId with
  | none => .error noneNotSubscriptable
  | some task =>
      if task.state = .succeeded then .ok db
      else if task.state ≠ .running ∨ task.leaseToken ≠ some lease.token then
        .error staleLease
      else
        match db.leasedAttempt? lease.runId lease.nodeId lease.token with
        | none => .error staleAttempt
        | some attempt =>
            if attempt.id ≠ lease.attemptId then .error staleAttempt
            else
              let declared := task.operation.definition.outputs
              if missingOutputs declared result ≠ [] then
                .error (runtimeError ("runner omitted required outputs: " ++
                  ", ".intercalate (missingOutputs declared result)))
              else if unknownOutputs declared result ≠ [] then
                .error (runtimeError ("runner returned unknown outputs: " ++
                  ", ".intercalate (unknownOutputs declared result)))
              else do
                let (db, outputIds) ←
                  insertOutputs now attempt declared result.outputs.rows db Table.empty
                finishRunIfTerminal
                  (storeCompletion db now lease attempt.id outputIds result.log)
                  now lease.runId

/-- The failure that `_fail` stores for an exception. -/
def taskFailure (error : Exn) : TaskError where
  code := error.className
  message := error.message
  retryable := error.cls ≠ .taskRejected

/-- `fail_task`. -/
def failTask (db : Db) (now : Time) (lease : TaskLease) (error : Exn) : Except Exn Db :=
  match db.task? lease.runId lease.nodeId with
  | none => .error noneNotSubscriptable
  | some task =>
      if task.state ≠ .running ∨ task.leaseToken ≠ some lease.token then .ok db
      else
        match db.leasedAttempt? lease.runId lease.nodeId lease.token with
        | none => .ok db
        | some attempt =>
            if attempt.id ≠ lease.attemptId then .ok db
            else
              let failure := taskFailure error
              let db := db.updateTask lease.runId lease.nodeId (Task.fail now failure)
              let db := db.updateRun lease.runId (Run.finish .failed now)
              let db := db.updateAttempt attempt.id (Attempt.fail now failure)
              .ok (db.appendEvent lease.runId lease.nodeId (some attempt.id) "task.failed"
                now none (some "failed") none
                [("error", .obj [("code", .str failure.code),
                  ("message", .str failure.message), ("retryable", .bool failure.retryable)])])

end QhpcEcosystem
