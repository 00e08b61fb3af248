/-
`SlurmApptainerRunner` under the workers.  Its `submit` reads the receipt of the
attempt, looks for a job under the attempt's name, calls `sbatch` and writes the
receipt; every two of these are separate steps, any of them may raise, and a
worker may stop between any two.  Receipts outlive the workers, jobs outlive
both.
-/
import QhpcEcosystem.WorkerLineage

namespace QhpcEcosystem

/-! ## Receipts and jobs -/

/-- `policies.cleanup` of a storage profile. -/
inductive CleanupPolicy where
  | onSuccess
  | always
  | retainOnFailure
deriving DecidableEq, Repr

/-- `should_clean` of `finalize`. -/
def CleanupPolicy.shouldClean (policy : CleanupPolicy) (succeeded : Bool) : Bool :=
  policy = .always || (policy = .onSuccess && succeeded)

/-- The submission receipt in the staging directory of an attempt. -/
structure Receipt where
  attemptId : Uuid
  handle : String
  jobName : String
  recovered : Bool
deriving DecidableEq, Repr

/-- A job that the scheduler has accepted. -/
structure SlurmJob where
  jobId : String
  name : String
deriving DecidableEq, Repr

/-- The scheduler target of a runner: SHA-256 as a hexadecimal text, and the
cleanup policy of its storage profile. -/
structure SlurmTarget where
  hexdigest : String → String
  policy : CleanupPolicy

/-- `_job_name`. -/
def SlurmTarget.jobName (target : SlurmTarget) (attemptId : Uuid) : String :=
  "qhpc-" ++ String.ofList ((target.hexdigest (attemptText attemptId)).toList.take 24)

/-- The next step of a worker inside of `submit`. -/
inductive SubmitPoint where
  /-- Read the receipt. -/
  | reading
  /-- Verify the image, stage the inputs and look for a job under the name. -/
  | staging
  /-- Write the receipt of the job that was found. -/
  | found (handle : String)
  /-- Render the script and submit it. -/
  | rendering
  /-- Write the receipt of the job that was accepted. -/
  | accepted (handle : String)
  /-- Ask for the state of a job that is not new, and return. -/
  | answering (handle : String)
  /-- Return a new job. -/
  | returning (handle : String)
deriving DecidableEq, Repr

/-- The job a worker knows of inside of `submit`. -/
def SubmitPoint.handle? : SubmitPoint → Option String
  | .reading | .staging | .rendering => none
  | .found handle | .accepted handle | .answering handle | .returning handle => some handle

/-- The handle that `submit` is about to return. -/
def SubmitPoint.returns? : SubmitPoint → Option String
  | .reading | .staging | .rendering | .found _ | .accepted _ => none
  | .answering handle | .returning handle => some handle

/-- The points before a job of the attempt is known. -/
def SubmitPoint.beforeJob : SubmitPoint → Bool
  | .reading | .staging | .rendering => true
  | .found _ | .accepted _ | .answering _ | .returning _ => false

/-! ## The system -/

/-- The workers, the point of each inside of `submit`, the receipts in the
staging directories, the jobs accepted so far in their order, and the attempts
whose directories were removed. -/
structure SlurmState (ι : Type) where
  workers : Workers ι := {}
  points : ι → SubmitPoint := fun _ => .reading
  receipts : Uuid → Option Receipt := fun _ => none
  jobs : List SlurmJob := []
  cleaned : List Uuid := []

/-- A step.  A call of the runner that returns or raises is a step of the
workers. -/
inductive SlurmLabel (ι : Type) where
  | worker (label : WorkerLabel ι)
  | read (worker : ι)
  /-- `find_by_name` returns; a job that the scheduler lists no more is not found. -/
  | search (worker : ι) (found : Option String)
  /-- The scheduler accepts a job under this identifier. -/
  | sbatch (worker : ι) (jobId : String)
  /-- The receipt is replaced. -/
  | write (worker : ι)
  /-- The staging directory is removed. -/
  | clean (worker : ι)

variable {ι : Type} [DecidableEq ι]

namespace SlurmState

def setPoint (s : SlurmState ι) (worker : ι) (point : SubmitPoint) : SlurmState ι :=
  { s with points := Function.update s.points worker point }

/-- Write the receipt of a job and go on. -/
def writeReceipt (target : SlurmTarget) (s : SlurmState ι) (worker : ι) (attemptId : Uuid)
    (handle : String) (recovered : Bool) (point : SubmitPoint) : SlurmState ι :=
  { s.setPoint worker point with
    receipts := Function.update s.receipts attemptId
      (some ⟨attemptId, handle, target.jobName attemptId, recovered⟩) }

/-- `_checked_receipt` finds the receipt of the attempt with this handle. -/
def checkedReceipt (s : SlurmState ι) (request : TaskRequest) (handle : String) : Bool :=
  (s.receipts request.attemptId).any fun receipt =>
    receipt.attemptId = request.attemptId && receipt.handle = handle

/-- The replies a runner call can give.  Any call may raise; `poll`, `collect`
and `cancel` get past `_checked_receipt` or raise. -/
def permits (target : SlurmTarget) (s : SlurmState ι) : WorkerLabel ι → Bool
  | .runner worker _ reply =>
      match s.workers.pcs worker, reply with
      | .submitting _, .submitted submission =>
          match s.points worker with
          | .answering handle => submission.handle = handle &&
              (TargetState.ofName? submission.state).isSome
          | .returning handle => submission.handle = handle && submission.state = "queued"
          | _ => false
      | .poll work handle, .status status =>
          s.checkedReceipt work.request handle && (TargetState.ofName? status.state).isSome
      | .collect work handle, .result _ => s.checkedReceipt work.request handle
      | .cancel work handle, .done => s.checkedReceipt work.request handle
      | .finalize work ending, .done =>
          !target.policy.shouldClean ending.succeeded ||
            (s.receipts work.request.attemptId).isNone
      | _, _ => true
  | _ => true

/-- A worker that starts `submit` starts with the receipt. -/
def restart (s : SlurmState ι) : WorkerLabel ι → ι → SubmitPoint
  | .submit worker => Function.update s.points worker .reading
  | _ => s.points

def step (target : SlurmTarget) (profile : ι → WorkerProfile) (s : SlurmState ι) :
    SlurmLabel ι → Option (SlurmState ι)
  | .worker label =>
      if s.permits target label then
        (s.workers.step profile label).map fun workers =>
          { s with workers := workers, points := s.restart label }
      else none
  | .read worker =>
      match s.workers.pcs worker, s.points worker with
      | .submitting work, .reading =>
          match s.receipts work.request.attemptId with
          | none => some (s.setPoint worker .staging)
          | some receipt =>
              if receipt.attemptId = work.request.attemptId then
                some (s.setPoint worker (.answering receipt.handle))
              else none
      | _, _ => none
  | .search worker found =>
      match s.workers.pcs worker, s.points worker, found with
      | .submitting work, .staging, some handle =>
          if ⟨handle, target.jobName work.request.attemptId⟩ ∈ s.jobs then
            some (s.setPoint worker (.found handle))
          else none
      | .submitting _, .staging, none => some (s.setPoint worker .rendering)
      | _, _, _ => none
  | .sbatch worker jobId =>
      match s.workers.pcs worker, s.points worker with
      | .submitting work, .rendering =>
          if s.jobs.all fun job => job.jobId ≠ jobId then
            some { s.setPoint worker (.accepted jobId) with
              jobs := s.jobs ++ [⟨jobId, target.jobName work.request.attemptId⟩] }
          else none
      | _, _ => none
  | .write worker =>
      match s.workers.pcs worker, s.points worker with
      | .submitting work, .found handle => some
          (s.writeReceipt target worker work.request.attemptId handle true (.answering handle))
      | .submitting work, .accepted handle => some
          (s.writeReceipt target worker work.request.attemptId handle false (.returning handle))
      | _, _ => none
  | .clean worker =>
      match s.workers.pcs worker with
      | .finalize work ending =>
          if target.policy.shouldClean ending.succeeded then
            some { s with
              receipts := Function.update s.receipts work.request.attemptId none
              cleaned := s.cleaned ++ [work.request.attemptId] }
          else none
      | _ => none

end SlurmState

/-- The workers over an empty database, an empty staging root and a scheduler
without jobs. -/
def slurmSystem (target : SlurmTarget) (profile : ι → WorkerProfile) :
    TransitionSystem (SlurmState ι) (SlurmLabel ι) where
  Initial s := s = {}
  step := SlurmState.step target profile

end QhpcEcosystem
