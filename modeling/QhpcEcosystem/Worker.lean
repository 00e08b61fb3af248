/-
The programs of the workers over one database.  Each worker is a machine with
one program point between any two calls of the engine or of its runner, so the
calls of any number of workers interleave with each other, with the calls of
clients and with crashes.  The engine and the runner may raise at any call.
-/
import QhpcEcosystem.Engine
import Mathlib.Logic.Function.Basic

namespace QhpcEcosystem

/-! ## Values exchanged with runners -/

structure TargetSubmission where
  handle : String
  state : String := "queued"
  metadata : Metadata := Table.empty

structure TargetStatus where
  state : String
  metadata : Metadata := Table.empty

def targetExecutionError (message : String) : Exn := ⟨.targetExecution, message, []⟩

/-- `AsyncWorker` drives an `AsyncRunner`, `Worker` a `Runner`. -/
inductive WorkerKind where
  | async
  | sync
deriving DecidableEq, Repr

/-- The arguments of the constructor of a worker. -/
structure WorkerProfile where
  kind : WorkerKind
  workerId : String
  leaseSeconds : Int
  admission : Admission
  positive : 0 < leaseSeconds

/-- What a runner call returns. -/
inductive RunnerReply where
  | raised (error : Exn)
  | submitted (submission : TargetSubmission)
  | status (status : TargetStatus)
  | result (result : TaskResult)
  | done

/-! ## Program points -/

/-- The lease and the request of the task at hand. -/
structure Work where
  lease : TaskLease
  request : TaskRequest

/-- How `AsyncWorker.run_once` ends an attempt.  `handled` is its exception
handler, whose own exceptions leave `run_once`. -/
inductive Ending where
  | canceled (handle : String)
  | completed (result : TaskResult)
  | failed (error : Exn)
  | handled (error : Exn)

/-- The argument `succeeded` of `finalize`. -/
def Ending.succeeded : Ending → Bool
  | .completed _ => true
  | .canceled _ | .failed _ | .handled _ => false

/-- The next call of a worker.  The start of `submit` is a step of its own:
what happens while it runs matters. -/
inductive Pc where
  | idle
  /- `AsyncWorker.run_once` -/
  | claimed (lease : TaskLease)
  | requested (work : Work)
  | withdrawn (work : Work)
  | marking (work : Work)
  | submit (work : Work)
  | submitting (work : Work)
  | submitted (work : Work) (submission : TargetSubmission) (elapsed : Nat)
  | recording (work : Work) (submission : TargetSubmission)
  | poll (work : Work) (handle : String)
  | polled (work : Work) (handle : String) (status : TargetStatus) (elapsed : Nat)
  | observing (work : Work) (handle : String) (status : TargetStatus)
  | collect (work : Work) (handle : String)
  | collected (work : Work) (result : TaskResult) (elapsed : Nat)
  | reporting (work : Work) (result : TaskResult)
  | cancel (work : Work) (handle : String)
  | cancelRaised (work : Work) (error : Exn) (elapsed : Nat)
  | cancelReturned (work : Work) (handle : String) (elapsed : Nat)
  | release (work : Work)
  | finalize (work : Work) (ending : Ending)
  | finalizeRaised (work : Work) (ending : Ending) (error : Exn) (elapsed : Nat)
  | finish (work : Work) (ending : Ending)
  /- `WorkflowEngine.run_once` -/
  | requesting (lease : TaskLease)
  | execute (work : Work)
  | complete (lease : TaskLease) (result : TaskResult)
  | fail (lease : TaskLease) (error : Exn)

namespace Pc

/-- The lease a worker works under. -/
def lease? : Pc → Option TaskLease
  | .idle => none
  | .claimed lease | .requesting lease | .complete lease _ | .fail lease _ => some lease
  | .requested work | .withdrawn work | .marking work | .submit work | .submitting work
  | .submitted work _ _ | .recording work _ | .poll work _ | .polled work _ _ _
  | .observing work _ _ | .collect work _ | .collected work _ _ | .reporting work _
  | .cancel work _ | .cancelRaised work _ _ | .cancelReturned work _ _ | .release work
  | .finalize work _ | .finalizeRaised work _ _ _ | .finish work _ | .execute work =>
      some work.lease

/-- The call of the engine at a program point. -/
def call (profile : WorkerProfile) : Pc → Option Operation
  | .idle => some (.claimTask profile.workerId profile.leaseSeconds profile.admission)
  | .claimed lease | .requesting lease => some (.taskRequest lease)
  | .requested work => some (.attemptState work.lease)
  | .withdrawn work => some (.markAttemptCanceled work.lease ""
      [("reason", .str "canceled-before-target-submission")])
  | .marking work => some (.markSubmitting work.lease)
  | .submitted work _ elapsed => some (.recordStage work.lease "worker.submit" elapsed [])
  | .recording work submission => some (.recordSubmission work.lease submission.handle
      submission.state submission.metadata)
  | .polled work _ _ elapsed => some (.recordStage work.lease "worker.poll" elapsed [])
  | .observing work _ status =>
      some (.recordTargetStatus work.lease status.state status.metadata)
  | .collected work _ elapsed => some (.recordStage work.lease "worker.collect" elapsed [])
  | .reporting work result => some (.recordReportedStages work.lease result.metadata)
  | .cancelRaised work error elapsed => some (.recordStage work.lease "worker.cancel" elapsed
      [("error", .str error.message)])
  | .cancelReturned work _ elapsed =>
      some (.recordStage work.lease "worker.cancel" elapsed [])
  | .release work => some (.releaseLease work.lease)
  | .finalizeRaised work ending error elapsed =>
      some (.recordStage work.lease "worker.finalize" elapsed
        [("error", .str error.message), ("succeeded", .bool ending.succeeded)])
  | .finish work (.canceled handle) => some (.markAttemptCanceled work.lease ""
      [("target_handle", .str handle)])
  | .finish work (.completed result) => some (.completeTask work.lease result)
  | .finish work (.failed error) | .finish work (.handled error) =>
      some (.failTask work.lease error)
  | .complete lease result => some (.completeTask lease result)
  | .fail lease error => some (.failTask lease error)
  | .submit _ | .submitting _ | .poll _ _ | .collect _ _ | .cancel _ _ | .finalize _ _
  | .execute _ => none

/-- Where an exception leads: `task_request` of an asynchronous worker and the
exception handlers themselves stand outside of the `try`. -/
def raised (error : Exn) : Pc → Pc
  | .idle | .claimed _ | .fail _ _ => .idle
  | .finalizeRaised _ (.handled _) _ _ | .finish _ (.handled _) => .idle
  | .requested work | .withdrawn work | .marking work | .submit work | .submitting work
  | .submitted work _ _ | .recording work _ | .poll work _ | .polled work _ _ _
  | .observing work _ _ | .collect work _ | .collected work _ _ | .reporting work _
  | .cancel work _ | .cancelRaised work _ _ | .cancelReturned work _ _ | .release work
  | .finalize work _ | .finalizeRaised work _ _ _ | .finish work _ =>
      .finalize work (.handled error)
  | .requesting lease | .complete lease _ => .fail lease error
  | .execute work => .fail work.lease error

/-- The branches of `run_once` on the current state of the attempt. -/
def afterState (work : Work) (state : AttemptState) : Pc :=
  match work.lease.targetHandle with
  | some handle => if state = .cancelRequested then .cancel work handle else .poll work handle
  | none => if state = .cancelRequested then .withdrawn work else .marking work

/-- The branches of `run_once` after a submission was recorded. -/
def afterSubmission (work : Work) (submission : TargetSubmission) (state : AttemptState) :
    Pc :=
  if state = .cancelRequested then .cancel work submission.handle
  else if submission.state = "succeeded" then .collect work submission.handle
  else if submission.state ∈ ["failed", "canceled"] then
    .finalize work (.failed (targetExecutionError
      ("target submission recovered terminal state " ++ submission.state ++ ": " ++
        submission.handle)))
  else .release work

/-- The branches of `run_once` after a target status was recorded. -/
def afterStatus (work : Work) (handle : String) (status : TargetStatus) : Pc :=
  if status.state = "succeeded" then .collect work handle
  else if status.state = "failed" then
    .finalize work (.failed (targetExecutionError ("target execution failed: " ++ handle)))
  else if status.state = "canceled" then
    .finalize work
      (.failed (targetExecutionError ("target execution was canceled: " ++ handle)))
  else .release work

/-- Where the reply of the engine leads. -/
def returned (profile : WorkerProfile) (reply : Reply) : Pc → Pc
  | .idle =>
      match reply, profile.kind with
      | .claimed (some lease), .async => .claimed lease
      | .claimed (some lease), .sync => .requesting lease
      | _, _ => .idle
  | .claimed lease =>
      match reply with
      | .request request => .requested ⟨lease, request⟩
      | _ => .idle
  | .requesting lease =>
      match reply with
      | .request request => .execute ⟨lease, request⟩
      | _ => .idle
  | .requested work =>
      match reply with
      | .state state => afterState work state
      | _ => .idle
  | .marking work => .submit work
  | .submitted work submission _ => .recording work submission
  | .recording work submission =>
      match reply with
      | .state state => afterSubmission work submission state
      | _ => .idle
  | .polled work handle status _ => .observing work handle status
  | .observing work handle status => afterStatus work handle status
  | .collected work result _ => .reporting work result
  | .reporting work result => .finalize work (.completed result)
  | .cancelRaised work _ _ => .release work
  | .cancelReturned work handle _ => .finalize work (.canceled handle)
  | .finalizeRaised work ending _ _ => .finish work ending
  | .withdrawn _ | .release _ | .finish _ _ | .complete _ _ | .fail _ _ => .idle
  | .submit work => .submit work
  | .submitting work => .submitting work
  | .poll work handle => .poll work handle
  | .collect work handle => .collect work handle
  | .cancel work handle => .cancel work handle
  | .finalize work ending => .finalize work ending
  | .execute work => .execute work

/-- Where the reply of the runner leads, `elapsed` milliseconds after the call;
`none` when the call does not return such a reply. -/
def answered (elapsed : Nat) : Pc → RunnerReply → Option Pc
  | .submitting work, .submitted submission => some (.submitted work submission elapsed)
  | .submitting work, .raised error => some (raised error (.submitting work))
  | .poll work handle, .status status => some (.polled work handle status elapsed)
  | .poll work handle, .raised error => some (raised error (.poll work handle))
  | .collect work _, .result result => some (.collected work result elapsed)
  | .collect work handle, .raised error => some (raised error (.collect work handle))
  | .cancel work handle, .done => some (.cancelReturned work handle elapsed)
  | .cancel work _, .raised error => some (.cancelRaised work error elapsed)
  | .finalize work ending, .done => some (.finish work ending)
  | .finalize work ending, .raised error => some (.finalizeRaised work ending error elapsed)
  | .execute work, .result result => some (.complete work.lease result)
  | .execute work, .raised error => some (raised error (.execute work))
  | _, _ => none

end Pc

/-! ## The system -/

/-- What has happened outside of the database. -/
inductive CallRecord where
  /-- `mark_submitting` has returned; it found the attempt in this state. -/
  | intent (attemptId token : Uuid) (state : AttemptState)
  /-- `submit` was called under the lease with this token. -/
  | submitStarted (attemptId token : Uuid)
  /-- `submit` or `poll` has returned this target state. -/
  | targetReported (attemptId : Uuid) (state : String)
  /-- `cancel` has returned. -/
  | cancelReturned (attemptId : Uuid)
deriving DecidableEq

/-- The record of an engine call that has succeeded. -/
def Operation.record (operation : Operation) (db : Db) : List CallRecord :=
  match operation with
  | .markSubmitting lease =>
      match assertLease db lease with
      | .ok row => [.intent lease.attemptId lease.token row.state]
      | .error _ => []
  | _ => []

/-- The record of a runner call that has returned. -/
def Pc.record : Pc → RunnerReply → List CallRecord
  | .submitting work, .submitted submission =>
      [.targetReported work.lease.attemptId submission.state]
  | .poll work _, .status status => [.targetReported work.lease.attemptId status.state]
  | .cancel work _, .done => [.cancelReturned work.lease.attemptId]
  | _, _ => []

/-- The calls of clients, which bear no lease. -/
def Operation.isClient : Operation → Bool
  | .registerWorkflow _ _ _ | .registerInputArtifact _ _ _ _ _ | .submitRun _ _ _ _ _ _
  | .cancelRun _ | .retryTask _ _ => true
  | _ => false

/-- The database with a program point for every worker. -/
structure Workers (ι : Type) where
  db : Db := {}
  pcs : ι → Pc := fun _ => .idle
  records : List CallRecord := []

/-- A step of the system.  `fault` is an exception of the database itself. -/
inductive WorkerLabel (ι : Type) where
  | client (operation : Operation) (now : Time)
  | engine (worker : ι) (now : Time) (fault : Option Exn)
  | submit (worker : ι)
  | runner (worker : ι) (elapsed : Nat) (reply : RunnerReply)
  | crash (worker : ι)

variable {ι : Type} [DecidableEq ι]

namespace Workers

def setPc (s : Workers ι) (worker : ι) (pc : Pc) : Workers ι :=
  { s with pcs := Function.update s.pcs worker pc }

/-- Execute the call of a worker. -/
def callEngine (profile : ι → WorkerProfile) (s : Workers ι) (worker : ι) (now : Time)
    (fault : Option Exn) : Option (Workers ι) :=
  let pc := s.pcs worker
  match pc.call (profile worker), fault with
  | none, _ => none
  | some _, some error => some (s.setPc worker (pc.raised error))
  | some operation, none =>
      match perform s.db now operation with
      | .error error => some (s.setPc worker (pc.raised error))
      | .ok (reply, db) => some { s.setPc worker (pc.returned (profile worker) reply) with
          db := db
          records := s.records ++ operation.record s.db }

def step (profile : ι → WorkerProfile) (s : Workers ι) : WorkerLabel ι → Option (Workers ι)
  | .client operation now =>
      if operation.isClient then some { s with db := operation.after now s.db } else none
  | .engine worker now fault => s.callEngine profile worker now fault
  | .submit worker =>
      match s.pcs worker with
      | .submit work => some { s.setPc worker (.submitting work) with
          records := s.records ++ [.submitStarted work.lease.attemptId work.lease.token] }
      | _ => none
  | .runner worker elapsed reply =>
      ((s.pcs worker).answered elapsed reply).map fun pc =>
        { s.setPc worker pc with records := s.records ++ (s.pcs worker).record reply }
  | .crash worker => some (s.setPc worker .idle)

end Workers

/-- The workers over an empty database. -/
def workerSystem (profile : ι → WorkerProfile) : TransitionSystem (Workers ι) (WorkerLabel ι) where
  Initial s := s = {}
  step := Workers.step profile

/-! ## Sample workers -/

/-- Two workers of one kind that admit every target and class. -/
def sampleProfile (kind : WorkerKind) (worker : Fin 2) : WorkerProfile where
  kind := kind
  workerId := "w" ++ toString (worker.val + 1)
  leaseSeconds := 300
  admission := .any
  positive := by decide

def clientSteps (operations : List (Operation × Time)) : List (WorkerLabel ι) :=
  operations.map fun item => .client item.1 item.2

/-- Calls of the engine by one worker, one each microsecond. -/
def engineSteps (worker : ι) (start : Time) (count : Nat) : List (WorkerLabel ι) :=
  (List.range count).map fun i => .engine worker (start + i) none

/-- A job that the target has accepted. -/
def sampleJob : RunnerReply := .submitted { handle := "42" }

end QhpcEcosystem
