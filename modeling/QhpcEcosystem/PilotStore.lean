/-
The control state of warm pilots: allocations with a counter of reserved places, the
reservations it counts, and the operations of `PilotStore`.  The body of an operation
is a transaction: it may write before it raises, and then it is rolled back.
-/
import QhpcEcosystem.AttemptOperations

namespace QhpcEcosystem

/-! ## Profiles -/

inductive PilotStatus where
  | planned
  | active
  | maintenance
  | disabled
deriving DecidableEq, Repr

inductive PilotFallback where
  | batchHpc
  | reject
deriving DecidableEq, Repr

/-- A profile that satisfies the schema; `digest` is the digest of the document. -/
structure PilotProfile where
  id : String
  version : String
  executionTarget : String
  status : PilotStatus
  evidence : List String := []
  account : Option String := none
  capacity : Int
  maxLifetimeSeconds : Nat
  idleTimeoutSeconds : Nat
  drainBeforeExpirySeconds : Nat
  healthTimeoutSeconds : Nat
  maxCpu : Int
  maxMemoryMb : Int
  maxGpu : Int
  maxWalltimeSeconds : Int
  allowedOperations : List String
  runtimeDigests : List String
  fallback : PilotFallback
  digest : String
  capacity_pos : 1 ≤ capacity

/-- `_validate_pilot_profile`. -/
def PilotProfile.issues (profile : PilotProfile) : List ContractIssue :=
  (if profile.maxLifetimeSeconds ≤ profile.idleTimeoutSeconds then
    [⟨"/spec/allocation/idle_timeout_seconds",
      "must be less than the maximum pilot lifetime"⟩] else []) ++
  (if profile.maxLifetimeSeconds ≤ profile.drainBeforeExpirySeconds then
    [⟨"/spec/allocation/drain_before_expiry_seconds",
      "must be less than the maximum pilot lifetime"⟩] else []) ++
  (if profile.status = .active then
    (if profile.evidence = [] then
      [⟨"/metadata/evidence", "is required before a pilot profile can be active"⟩] else []) ++
    (if profile.account = none then
      [⟨"/spec/scheduler/account", "is required before a pilot profile can be active"⟩]
      else [])
  else [])

def PilotProfile.validate (profile : PilotProfile) : Except Exn Unit :=
  if profile.issues = [] then .ok ()
  else .error (contractError "invalid pilot-profile contract" profile.issues)

def pilotUnavailable (message : String) : Exn := ⟨.other "PilotUnavailable", message, []⟩

/-- `_active_profile`. -/
def PilotProfile.activeProfile (profile : PilotProfile) : Except Exn Unit := do
  profile.validate
  if profile.status ≠ .active then throw (pilotUnavailable "pilot profile is not active")

/-! ## Rows -/

/-- States in the order of the life of a pilot. -/
inductive PilotState where
  | requested
  | starting
  | ready
  | draining
  | terminationRequested
  | terminated
deriving DecidableEq, Repr

def PilotState.name : PilotState → String
  | .requested => "requested"
  | .starting => "starting"
  | .ready => "ready"
  | .draining => "draining"
  | .terminationRequested => "termination-requested"
  | .terminated => "terminated"

structure PilotAllocation where
  id : Uuid
  profileId : String
  profileVersion : String
  profileDigest : String
  executionTarget : String
  state : PilotState := .requested
  schedulerHandle : Option String := none
  capacity : Int
  reserved : Int := 0
  requestedAt : Time
  readyAt : Option Time := none
  expiresAt : Time
  lastHeartbeatAt : Option Time := none
  lastActivityAt : Time
  createdBy : String
  metadata : Metadata := Table.empty

instance : Keyed PilotAllocation Uuid := ⟨PilotAllocation.id⟩

inductive ReservationState where
  | active
  | released
deriving DecidableEq, Repr

structure PilotReservation where
  id : Uuid
  pilotId : Uuid
  runId : Uuid
  nodeId : String
  attemptId : Uuid
  state : ReservationState := .active
  createdAt : Time
  releasedAt : Option Time := none

instance : Keyed PilotReservation Uuid := ⟨PilotReservation.id⟩

structure PilotEvent where
  pilotId : Uuid
  reservationId : Option Uuid
  eventType : String
  details : List (String × Value)

def pilotText (pilotId : Uuid) : String := "pilot-" ++ toString pilotId

def reservationText (reservationId : Uuid) : String := "reservation-" ++ toString reservationId

/-- The database of a `PilotStore`; `uuids` is the next fresh identifier. -/
structure PilotDb where
  allocations : Table PilotAllocation := Table.empty
  reservations : Table PilotReservation := Table.empty
  events : List PilotEvent := []
  uuids : Uuid := 0

namespace PilotDb

/-- `_event`. -/
def event (db : PilotDb) (pilotId : Uuid) (eventType : String)
    (reservationId : Option Uuid := none) (details : List (String × Value) := []) : PilotDb :=
  { db with events := db.events ++ [⟨pilotId, reservationId, eventType, details⟩] }

/-- `_get`. -/
def get (db : PilotDb) (pilotId : Uuid) : Except Exn PilotAllocation :=
  match db.allocations.row? pilotId with
  | none => .error ⟨.keyError, "pilot allocation not found: " ++ pilotText pilotId, []⟩
  | some pilot => .ok pilot

def updatePilot (db : PilotDb) (pilotId : Uuid) (f : RowUpdate PilotAllocation) : PilotDb :=
  { db with allocations := db.allocations.update pilotId f }

/-- `INSERT INTO pilot_reservations`, with the primary key and the unique index over the
attempts of active reservations. -/
def insertReservation? (db : PilotDb) (row : PilotReservation) : Option PilotDb :=
  if db.reservations.rows.any fun old =>
      old.state = .active ∧ row.state = .active ∧ old.attemptId = row.attemptId then none
  else (db.reservations.insert? row).map fun rows => { db with reservations := rows }

end PilotDb

namespace PilotAllocation

def submit (handle : String) : RowUpdate PilotAllocation where
  apply row := { row with state := .starting, schedulerHandle := some handle }

def markReady (now : Time) : RowUpdate PilotAllocation where
  apply row := { row with
    state := .ready
    readyAt := some now
    lastHeartbeatAt := some now
    lastActivityAt := now }

def heartbeat (now : Time) : RowUpdate PilotAllocation where
  apply row := { row with lastHeartbeatAt := some now }

def reserve (now : Time) : RowUpdate PilotAllocation where
  apply row := { row with reserved := row.reserved + 1, lastActivityAt := now }

def release (now : Time) : RowUpdate PilotAllocation where
  apply row := { row with reserved := max 0 (row.reserved - 1), lastActivityAt := now }

def drain : RowUpdate PilotAllocation where
  apply row := { row with state := .draining }

def requestTermination : RowUpdate PilotAllocation where
  apply row := { row with state := .terminationRequested }

def terminate : RowUpdate PilotAllocation where
  apply row := { row with state := .terminated }

end PilotAllocation

def PilotReservation.release (now : Time) : RowUpdate PilotReservation where
  apply row := { row with state := .released, releasedAt := some now }

/-! ## Clocks -/

/-- The duration in microseconds. -/
def timedelta (seconds : Nat) : Int := seconds * 1000000

/-! ## Eligibility -/

/-- `PilotDecision`. -/
structure PilotDecision where
  executionClass : String
  reason : String
  pilotId : Option Uuid := none
  reservationId : Option Uuid := none

/-- `_operation`. -/
def pilotOperation (request : TaskRequest) : String :=
  request.capabilityId ++ "@" ++ request.capabilityVersion ++ "/" ++ request.operationId

/-- The resources that are limited, with the limit and the default. -/
def PilotProfile.limits (profile : PilotProfile) : List (String × Int × Int) :=
  [("cpu", profile.maxCpu, 1), ("memory_mb", profile.maxMemoryMb, 1024),
    ("gpu", profile.maxGpu, 0), ("walltime_seconds", profile.maxWalltimeSeconds, 600)]

/-- `_eligible`, with the reason of a refusal. -/
def PilotProfile.ineligible (profile : PilotProfile) (request : TaskRequest) : Option String :=
  if pilotOperation request ∉ profile.allowedOperations then some "operation-not-allowlisted"
  else if request.runtimeDigest ∉ profile.runtimeDigests then some "runtime-not-prewarmed"
  else
    (profile.limits.find? fun limit =>
      limit.2.1 < ((request.resources.row? limit.1).map Prod.snd).getD limit.2.2).map
        fun limit => limit.1 ++ "-exceeds-pilot-limit"

/-- `_fallback`. -/
def PilotProfile.fallbackTo (profile : PilotProfile) (reason : String) (requirePilot : Bool) :
    Except Exn PilotDecision :=
  if requirePilot ∨ profile.fallback = .reject then
    .error (pilotUnavailable ("warm pilot unavailable: " ++ reason))
  else .ok { executionClass := "batch-hpc", reason := reason }

/-! ## Operations -/

/-- The outcome of the body of a transaction, with what it has written so far. -/
abbrev PilotBody (α : Type) := PilotDb → Except Exn α × PilotDb

/-- A body that raises is rolled back. -/
def transaction {α : Type} (body : PilotBody α) (db : PilotDb) : Except Exn α × PilotDb :=
  match body db with
  | (.ok value, db') => (.ok value, db')
  | (.error error, _) => (.error error, db)

namespace PilotStore

def requestAllocation (profile : PilotProfile) (createdBy : String) (metadata : Metadata)
    (now : Time) : PilotBody Uuid := fun db =>
  match profile.activeProfile with
  | .error error => (.error error, db)
  | .ok _ =>
      match db.allocations.insert? {
          id := db.uuids
          profileId := profile.id
          profileVersion := profile.version
          profileDigest := profile.digest
          executionTarget := profile.executionTarget
          capacity := profile.capacity
          requestedAt := now
          expiresAt := now + profile.maxLifetimeSeconds * 1000000
          lastActivityAt := now
          createdBy := createdBy
          metadata := metadata } with
      | none => (.error ⟨.integrityError, "UNIQUE constraint failed", []⟩, db)
      | some rows =>
          (.ok db.uuids, { db with allocations := rows, uuids := db.uuids + 1 }.event db.uuids
            "pilot.requested" none [("profile_id", .str profile.id),
              ("capacity", .number (.int profile.capacity))])

/-- `[0-9]+(?:_[0-9]+)?` matches the whole text. -/
def isSchedulerHandle (text : String) : Bool :=
  let digits := text.toList.takeWhile Char.isDigit
  match text.toList.dropWhile Char.isDigit with
  | [] => digits ≠ []
  | '_' :: rest => digits ≠ [] && rest ≠ [] && rest.all Char.isDigit
  | _ => false

def assignSchedulerHandle (pilotId : Uuid) (handle : String) : PilotBody Unit := fun db =>
  if isSchedulerHandle handle = false then
    (.error ⟨.valueError, "invalid pilot scheduler handle", []⟩, db)
  else
    match db.get pilotId with
    | .error error => (.error error, db)
    | .ok pilot =>
        if pilot.state ∉ [PilotState.requested, .starting] then
          (.error ⟨.runtimeError, "pilot cannot be submitted from " ++ pilot.state.name, []⟩, db)
        else
          (.ok (), (db.updatePilot pilotId (PilotAllocation.submit handle)).event pilotId
            "pilot.submitted" none [("scheduler_handle", .str handle)])

def markReady (pilotId : Uuid) (now : Time) : PilotBody Unit := fun db =>
  match db.get pilotId with
  | .error error => (.error error, db)
  | .ok pilot =>
      if pilot.state ≠ .starting ∨ pilot.schedulerHandle.getD "" = "" then
        (.error ⟨.runtimeError, "only a submitted pilot can become ready", []⟩, db)
      else
        (.ok (), (db.updatePilot pilotId (PilotAllocation.markReady now)).event pilotId "pilot.ready")

def heartbeat (pilotId : Uuid) (now : Time) : PilotBody Unit := fun db =>
  match db.get pilotId with
  | .error error => (.error error, db)
  | .ok pilot =>
      if pilot.state ∉ [PilotState.ready, .draining] then
        (.error ⟨.runtimeError, "pilot cannot heartbeat while " ++ pilot.state.name, []⟩, db)
      else (.ok (), db.updatePilot pilotId (PilotAllocation.heartbeat now))

/-- `_set_draining`. -/
def setDraining (db : PilotDb) (pilot : PilotAllocation) (reason : String) : PilotDb :=
  if pilot.state ∈ [PilotState.draining, .terminationRequested, .terminated] then db
  else (db.updatePilot pilot.id PilotAllocation.drain).event pilot.id "pilot.draining" none
    [("reason", .str reason)]

/-- Why a ready pilot is drained. -/
def drainReason (profile : PilotProfile) (now : Time) (pilot : PilotAllocation) : Option String :=
  if pilot.lastHeartbeatAt.all fun heartbeat =>
      timedelta profile.healthTimeoutSeconds < (now : Int) - heartbeat then some "health-timeout"
  else if (pilot.expiresAt : Int) - now ≤ timedelta profile.drainBeforeExpirySeconds then
    some "lifetime-expiry"
  else if pilot.reserved = 0 ∧
      timedelta profile.idleTimeoutSeconds ≤ (now : Int) - pilot.lastActivityAt then
    some "idle-timeout"
  else none

/-- The second half of the loop of `_reconcile`. -/
def terminateDrained (db : PilotDb) (pilot : PilotAllocation) : PilotDb :=
  if pilot.state = .draining ∧ pilot.reserved = 0 then
    (db.updatePilot pilot.id PilotAllocation.requestTermination).event pilot.id
      "pilot.termination-requested"
  else db

/-- The loop of `_reconcile`. -/
def reconcilePilots (profile : PilotProfile) (now : Time) :
    List PilotAllocation → PilotBody Unit
  | [], db => (.ok (), db)
  | pilot :: rest, db =>
      match if pilot.state = .ready then drainReason profile now pilot else none with
      | none => reconcilePilots profile now rest (terminateDrained db pilot)
      | some reason =>
          let db := setDraining db pilot reason
          match db.get pilot.id with
          | .error error => (.error error, db)
          | .ok pilot => reconcilePilots profile now rest (terminateDrained db pilot)

/-- `_reconcile`. -/
def reconcileProfile (profile : PilotProfile) (now : Time) : PilotBody Unit := fun db =>
  reconcilePilots profile now (db.allocations.rows.filter fun pilot =>
    pilot.profileId = profile.id ∧ pilot.state ∈ [PilotState.ready, .draining]) db

def reconcile (profile : PilotProfile) (now : Time) : PilotBody Unit := fun db =>
  match profile.validate with
  | .error error => (.error error, db)
  | .ok _ => reconcileProfile profile now db

/-- `ORDER BY ready_at, id`. -/
def readyBefore (x y : PilotAllocation) : Prop :=
  timestampLt (x.readyAt.getD 0) (y.readyAt.getD 0) = true ∨
    x.readyAt = y.readyAt ∧ x.id ≤ y.id

instance : DecidableRel readyBefore := fun x y => by
  unfold readyBefore
  infer_instance

/-- The condition on a pilot for a reservation. -/
def usable (profile : PilotProfile) (request : TaskRequest) (now : Time)
    (pilot : PilotAllocation) : Bool :=
  pilot.profileId = profile.id && pilot.profileVersion = profile.version &&
    pilot.profileDigest = profile.digest && pilot.executionTarget = request.executionTarget &&
    pilot.state = .ready && pilot.reserved < pilot.capacity &&
    timestampLt (now + timedelta profile.drainBeforeExpirySeconds) pilot.expiresAt &&
    pilot.lastHeartbeatAt.any fun heartbeat =>
      !timestampLt heartbeat (now - timedelta profile.healthTimeoutSeconds)

/-- The transaction of `reserve`. -/
def reservePilot (profile : PilotProfile) (request : TaskRequest) (requirePilot : Bool)
    (now : Time) : PilotBody PilotDecision := fun db =>
  match reconcileProfile profile now db with
  | (.error error, db) => (.error error, db)
  | (.ok _, db) =>
      match ((db.allocations.rows.filter (usable profile request now)).insertionSort
          readyBefore).head? with
      | none => (profile.fallbackTo "no-ready-capacity" requirePilot, db)
      | some pilot =>
          -- the update repeats the condition of the query
          if pilot.state = .ready ∧ pilot.reserved < pilot.capacity then
            let claimed := db.updatePilot pilot.id (PilotAllocation.reserve now)
            match claimed.insertReservation? {
                id := claimed.uuids
                pilotId := pilot.id
                runId := request.runId
                nodeId := request.nodeId
                attemptId := request.attemptId
                createdAt := now } with
            | none => (.error ⟨.integrityError,
                "UNIQUE constraint failed: pilot_reservations.attempt_id", []⟩, claimed)
            | some inserted =>
                (.ok ⟨"interactive-hpc-pilot", "ready-capacity", some pilot.id,
                    some claimed.uuids⟩,
                  { inserted with uuids := claimed.uuids + 1 }.event pilot.id
                    "pilot.capacity-reserved" (some claimed.uuids)
                    [("attempt_id", .str (attemptText request.attemptId))])
          else (profile.fallbackTo "capacity-race" requirePilot, db)

def reserve (profile : PilotProfile) (request : TaskRequest) (requirePilot : Bool)
    (now : Time) : PilotBody PilotDecision := fun db =>
  match profile.activeProfile with
  | .error error => (.error error, db)
  | .ok _ =>
      if request.executionTarget ≠ profile.executionTarget then
        (profile.fallbackTo "execution-target-mismatch" requirePilot, db)
      else
        match profile.ineligible request with
        | some reason => (profile.fallbackTo reason requirePilot, db)
        | none => reservePilot profile request requirePilot now db

def release (reservationId : Uuid) (now : Time) : PilotBody Unit := fun db =>
  match db.reservations.row? reservationId with
  | none =>
      (.error ⟨.keyError, "pilot reservation not found: " ++ reservationText reservationId, []⟩, db)
  | some reservation =>
      if reservation.state = .released then (.ok (), db)
      else
        (.ok (), ({ db with
            reservations := db.reservations.update reservationId (PilotReservation.release now)
            }.updatePilot reservation.pilotId (PilotAllocation.release now)).event reservation.pilotId
          "pilot.capacity-released" (some reservationId))

def drain (pilotId : Uuid) (reason : String) : PilotBody Unit := fun db =>
  match db.get pilotId with
  | .error error => (.error error, db)
  | .ok pilot => (.ok (), setDraining db pilot reason)

def markTerminated (pilotId : Uuid) (reason : String) : PilotBody Unit := fun db =>
  match db.get pilotId with
  | .error error => (.error error, db)
  | .ok pilot =>
      if pilot.reserved ≠ 0 then
        (.error ⟨.runtimeError, "cannot terminate a pilot with active reservations", []⟩, db)
      else
        (.ok (), (db.updatePilot pilotId PilotAllocation.terminate).event pilotId
          "pilot.terminated" none [("reason", .str reason)])

end PilotStore

end QhpcEcosystem
