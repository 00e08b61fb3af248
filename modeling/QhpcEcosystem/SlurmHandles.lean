/-
Every handle belongs to its attempt.  Whatever the workers do and wherever they
stop, a receipt, a recorded target handle and the handle of a call of the runner
name a job that was submitted for that very attempt.
-/
import QhpcEcosystem.SlurmSubmission

namespace QhpcEcosystem

/-! ## Program points -/

/-- The handle that an ending names. -/
def Ending.handle? : Ending → Option String
  | .canceled handle => some handle
  | .completed _ | .failed _ | .handled _ => none

/-- The work of a worker inside of `submit`. -/
def Pc.submitting? : Pc → Option Work
  | .submitting work => some work
  | _ => none

theorem Pc.submitting?_eq_some {pc : Pc} {work : Work} :
    pc.submitting? = some work ↔ pc = .submitting work := by
  constructor
  · intro h
    cases pc <;> cases h
    rfl
  · rintro rfl
    rfl

/-- The handle a worker goes by. -/
def Pc.handle? : Pc → Option String
  | .claimed lease => lease.targetHandle
  | .requested work => work.lease.targetHandle
  | .submitted _ submission _ | .recording _ submission => some submission.handle
  | .poll _ handle | .polled _ handle _ _ | .observing _ handle _ | .collect _ handle
  | .cancel _ handle | .cancelReturned _ handle _ => some handle
  | .finalize _ ending | .finalizeRaised _ ending _ _ | .finish _ ending => ending.handle?
  | .idle | .withdrawn _ | .marking _ | .submit _ | .submitting _ | .collected _ _ _
  | .reporting _ _ | .cancelRaised _ _ _ | .release _ | .requesting _ | .execute _
  | .complete _ _ | .fail _ _ => none

namespace Pc

variable {pc pc' : Pc} {profile : WorkerProfile} {work : Work} {handle : String}

theorem handle?_raised (error : Exn) : (pc.raised error).handle? = none := by
  cases pc with
  | finalizeRaised work ending _ _ => cases ending <;> rfl
  | finish work ending => cases ending <;> rfl
  | _ => rfl

theorem handle?_afterState {state : AttemptState}
    (h : (afterState work state).handle? = some handle) :
    work.lease.targetHandle = some handle := by
  obtain ⟨found, hfound, ⟨-, heq⟩ | ⟨-, heq⟩⟩ | ⟨-, ⟨-, heq⟩ | ⟨-, heq⟩⟩ :=
    afterState_cases work state <;> rw [heq] at h
  · rwa [hfound]
  · rwa [hfound]
  · cases h
  · cases h

theorem handle?_afterSubmission {submission : TargetSubmission} {state : AttemptState}
    (h : (afterSubmission work submission state).handle? = some handle) :
    submission.handle = handle := by
  obtain ⟨-, heq⟩ | ⟨-, heq⟩ | ⟨-, _, heq⟩ | heq :=
    afterSubmission_cases work submission state <;> rw [heq] at h
  · exact Option.some.inj h
  · exact Option.some.inj h
  · cases h
  · cases h

theorem handle?_afterStatus {known : String} {status : TargetStatus}
    (h : (afterStatus work known status).handle? = some handle) : known = handle := by
  obtain ⟨-, heq⟩ | ⟨-, _, heq⟩ | heq := afterStatus_cases work known status <;> rw [heq] at h
  · exact Option.some.inj h
  · cases h
  · cases h

/-- A worker gets to know a handle by a claim or by its submission. -/
theorem handle?_returned {reply : Reply}
    (h : (pc.returned profile reply).handle? = some handle) :
    pc.handle? = some handle ∨
      ∃ lease, pc = .idle ∧ reply = .claimed (some lease) ∧ lease.targetHandle = some handle := by
  cases pc with
  | idle =>
      simp only [returned] at h
      split at h
      · exact .inr ⟨_, rfl, rfl, h⟩
      · cases h
      · cases h
  | claimed lease =>
      simp only [returned] at h
      split at h
      · exact .inl h
      · cases h
  | requesting lease =>
      simp only [returned] at h
      split at h <;> cases h
  | requested held =>
      simp only [returned] at h
      split at h
      · exact .inl (handle?_afterState h)
      · cases h
  | recording held submission =>
      simp only [returned] at h
      split at h
      · exact .inl (congrArg some (handle?_afterSubmission h))
      · cases h
  | observing held known status =>
      exact .inl (congrArg some (handle?_afterStatus h))
  | _ => first | exact .inl h | cases h

theorem handle?_answered {elapsed : Nat} {reply : RunnerReply}
    (h : pc.answered elapsed reply = some pc') (hhandle : pc'.handle? = some handle) :
    pc.handle? = some handle ∨ ∃ work submission, pc = .submitting work ∧
      reply = .submitted submission ∧ submission.handle = handle := by
  cases pc with
  | submitting work =>
      cases reply <;> cases h
      · cases hhandle
      · exact .inr ⟨work, _, rfl, rfl, Option.some.inj hhandle⟩
  | _ => cases reply <;> cases h <;> first | exact .inl hhandle | cases hhandle

/-- Only the start of `submit` leads into it. -/
theorem returned_ne_submitting {operation : Operation} {reply : Reply}
    (hcall : pc.call profile = some operation) :
    pc.returned profile reply ≠ .submitting work := by
  intro h
  cases pc with
  | idle => simp only [returned] at h; split at h <;> cases h
  | claimed lease => simp only [returned] at h; split at h <;> cases h
  | requesting lease => simp only [returned] at h; split at h <;> cases h
  | requested held =>
      simp only [returned] at h
      split at h
      · obtain ⟨_, -, ⟨-, heq⟩ | ⟨-, heq⟩⟩ | ⟨-, ⟨-, heq⟩ | ⟨-, heq⟩⟩ :=
          afterState_cases held ‹AttemptState› <;> rw [heq] at h <;> cases h
      · cases h
  | recording held submission =>
      simp only [returned] at h
      split at h
      · obtain ⟨-, heq⟩ | ⟨-, heq⟩ | ⟨-, _, heq⟩ | heq :=
          afterSubmission_cases held submission ‹AttemptState› <;> rw [heq] at h <;> cases h
      · cases h
  | observing held known status =>
      simp only [returned] at h
      obtain ⟨-, heq⟩ | ⟨-, _, heq⟩ | heq := afterStatus_cases held known status <;>
        rw [heq] at h <;> cases h
  | submitting held => cases hcall
  | _ => cases h

theorem raised_ne_submitting {error : Exn} : pc.raised error ≠ .submitting work := by
  intro h
  cases pc with
  | finalizeRaised work ending _ _ => cases ending <;> cases h
  | finish work ending => cases ending <;> cases h
  | _ => cases h

theorem answered_ne_submitting {elapsed : Nat} {reply : RunnerReply}
    (h : pc.answered elapsed reply = some pc') : pc' ≠ .submitting work := by
  rintro rfl
  cases pc <;> cases reply <;> cases h

/-- The recorded handle is the one the worker goes by. -/
theorem handle?_call {lease : TaskLease} {targetState : String} {metadata : Metadata}
    (h : pc.call profile = some (.recordSubmission lease handle targetState metadata)) :
    pc.handle? = some handle := by
  cases pc with
  | finish work ending => cases ending <;> cases h
  | recording work submission => cases h; rfl
  | _ => cases h

end Pc

theorem SubmitPoint.handle?_of_returns? {point : SubmitPoint} {handle : String}
    (h : point.returns? = some handle) : point.handle? = some handle := by
  cases point <;> first | exact h | cases h

/-! ## Requests -/

namespace Workers

variable {ι : Type} {profile : ι → WorkerProfile}

/-- A worker works from a request for the attempt of its lease. -/
def RequestsMatch (pcs : ι → Pc) : Prop :=
  ∀ worker work, (pcs worker).work? = some work → work.request.attemptId = work.lease.attemptId

theorem attemptId_of_taskRequest {db : Db} {lease : TaskLease} {request : TaskRequest}
    (h : taskRequest db lease = .ok request) : request.attemptId = lease.attemptId := by
  simp only [taskRequest, bind, Except.bind] at h
  split at h
  · cases h
  · obtain ⟨_, _, _, _, _, _, _, _, _, _, rfl⟩ := taskRequestFor_eq_ok h
    rfl

variable [DecidableEq ι] {s s' : Workers ι} {label : WorkerLabel ι}
  {guard : Workers ι → WorkerLabel ι → Prop}

theorem RequestsMatch.setPc {pcs : ι → Pc} (h : RequestsMatch pcs) {worker : ι} {pc : Pc}
    (hpc : ∀ work, pc.work? = some work → work.request.attemptId = work.lease.attemptId) :
    RequestsMatch (Function.update pcs worker pc) := by
  intro other work hwork
  rw [Function.update_apply] at hwork
  split at hwork
  · exact hpc work hwork
  · exact h other work hwork

theorem RequestsMatch.step (h : RequestsMatch s.pcs) (hstep : Step profile s label s') :
    RequestsMatch s'.pcs := by
  cases hstep with
  | client _ => exact h
  | @replied worker now operation reply db hcall hok =>
      refine h.setPc fun work hwork => ?_
      obtain hold | ⟨rfl, rfl⟩ := Pc.work?_returned hcall hwork
      · exact h worker work hold
      · obtain ⟨request, hrequest, heq⟩ := map_ok hok
        cases heq
        exact attemptId_of_taskRequest hrequest
  | @raised worker _ _ _ _ _ _ =>
      exact h.setPc fun work hwork => h worker work (Pc.work?_raised hwork)
  | @submit worker work hpc =>
      refine h.setPc fun held hwork => ?_
      cases hwork
      exact h worker work (by rw [hpc]; rfl)
  | @runner worker _ _ pc hpc =>
      exact h.setPc fun work hwork => h worker work (Pc.work?_answered hpc hwork)
  | crash => exact h.setPc fun _ hwork => by cases hwork

theorem requestsMatch (h : (workerSystem profile).Reachable guard s) : RequestsMatch s.pcs := by
  refine h.invariant (fun s => RequestsMatch s.pcs) (fun s hs => ?_)
    fun s label s' _ hinv _ hstep => hinv.step (step_cases hstep)
  cases hs
  exact fun _ _ hwork => by cases hwork

/-- A worker inside of `submit` was there before, or has just started it. -/
theorem submitting_step (hstep : Step profile s label s') {worker : ι} {work : Work}
    (hpc : s'.pcs worker = .submitting work) :
    s.pcs worker = .submitting work ∧ label ≠ .submit worker ∨
      label = .submit worker ∧ s.pcs worker = .submit work := by
  cases hstep with
  | client _ => exact .inl ⟨hpc, fun h => by cases h⟩
  | @replied other _ _ _ _ hcall _ =>
      simp only [setPc, Function.update_apply] at hpc
      split at hpc
      · exact absurd hpc (Pc.returned_ne_submitting hcall)
      · exact .inl ⟨hpc, fun h => by cases h⟩
  | raised _ _ =>
      simp only [setPc, Function.update_apply] at hpc
      split at hpc
      · exact absurd hpc Pc.raised_ne_submitting
      · exact .inl ⟨hpc, fun h => by cases h⟩
  | @submit other held hother =>
      simp only [setPc, Function.update_apply] at hpc
      split at hpc
      · next hsame =>
          cases hpc
          rw [hsame]
          exact .inr ⟨rfl, hother⟩
      · next hne => exact .inl ⟨hpc, fun h => hne (by cases h; rfl)⟩
  | @runner other _ _ _ hanswered =>
      simp only [setPc, Function.update_apply] at hpc
      split at hpc
      · exact absurd hpc (Pc.answered_ne_submitting hanswered)
      · exact .inl ⟨hpc, fun h => by cases h⟩
  | crash =>
      simp only [setPc, Function.update_apply] at hpc
      split at hpc
      · cases hpc
      · exact .inl ⟨hpc, fun h => by cases h⟩

end Workers

/-! ## Steps of the runner -/

namespace SlurmState

variable {ι : Type} [DecidableEq ι] {target : SlurmTarget} {profile : ι → WorkerProfile}
  {guard : SlurmState ι → SlurmLabel ι → Prop} {s s' : SlurmState ι} {label : SlurmLabel ι}

/-- The possible steps of the system. -/
inductive Step (target : SlurmTarget) (profile : ι → WorkerProfile) (s : SlurmState ι) :
    SlurmLabel ι → SlurmState ι → Prop
  | worker {label : WorkerLabel ι} {workers : Workers ι} : s.permits target label = true →
      s.workers.step profile label = some workers →
      Step target profile s (.worker label)
        { s with workers := workers, points := s.restart label }
  | absent {worker : ι} {work : Work} : s.workers.pcs worker = .submitting work →
      s.points worker = .reading → s.receipts work.request.attemptId = none →
      Step target profile s (.read worker) (s.setPoint worker .staging)
  | present {worker : ι} {work : Work} {receipt : Receipt} :
      s.workers.pcs worker = .submitting work → s.points worker = .reading →
      s.receipts work.request.attemptId = some receipt →
      Step target profile s (.read worker) (s.setPoint worker (.answering receipt.handle))
  | found {worker : ι} {work : Work} {handle : String} :
      s.workers.pcs worker = .submitting work → s.points worker = .staging →
      ⟨handle, target.jobName work.request.attemptId⟩ ∈ s.jobs →
      Step target profile s (.search worker (some handle)) (s.setPoint worker (.found handle))
  | missing {worker : ι} {work : Work} : s.workers.pcs worker = .submitting work →
      s.points worker = .staging →
      Step target profile s (.search worker none) (s.setPoint worker .rendering)
  | sbatch {worker : ι} {work : Work} {jobId : String} :
      s.workers.pcs worker = .submitting work → s.points worker = .rendering →
      (∀ job ∈ s.jobs, job.jobId ≠ jobId) →
      Step target profile s (.sbatch worker jobId) { s.setPoint worker (.accepted jobId) with
        jobs := s.jobs ++ [⟨jobId, target.jobName work.request.attemptId⟩] }
  | write {worker : ι} {work : Work} {handle : String} {recovered : Bool}
      {point : SubmitPoint} : s.workers.pcs worker = .submitting work →
      (s.points worker).handle? = some handle → point.handle? = some handle →
      point.beforeJob = false →
      Step target profile s (.write worker)
        (s.writeReceipt target worker work.request.attemptId handle recovered point)
  | clean {worker : ι} {work : Work} {ending : Ending} :
      s.workers.pcs worker = .finalize work ending →
      target.policy.shouldClean ending.succeeded = true →
      Step target profile s (.clean worker) { s with
        receipts := Function.update s.receipts work.request.attemptId none
        cleaned := s.cleaned ++ [work.request.attemptId] }

theorem step_cases (h : s.step target profile label = some s') :
    Step target profile s label s' := by
  cases label with
  | worker label =>
      simp only [step] at h
      split at h
      · next hpermits =>
          obtain ⟨workers, hstep, rfl⟩ := Option.map_eq_some_iff.mp h
          exact .worker hpermits hstep
      · cases h
  | read worker =>
      simp only [step] at h
      split at h
      · next work hpc hpoint =>
          split at h
          · next hnone =>
              cases h
              exact .absent hpc hpoint hnone
          · next receipt hreceipt =>
              split at h
              · cases h
                exact .present hpc hpoint hreceipt
              · cases h
      · cases h
  | search worker found =>
      simp only [step] at h
      split at h
      · next work handle hpc hpoint =>
          split at h
          · next hjob =>
              cases h
              exact .found hpc hpoint hjob
          · cases h
      · next work hpc hpoint =>
          cases h
          exact .missing hpc hpoint
      · cases h
  | sbatch worker jobId =>
      simp only [step] at h
      split at h
      · next work hpc hpoint =>
          split at h
          · next hfresh =>
              cases h
              exact .sbatch hpc hpoint (by simpa using hfresh)
          · cases h
      · cases h
  | write worker =>
      simp only [step] at h
      split at h
      · next work handle hpc hpoint =>
          cases h
          exact .write hpc (by rw [hpoint]; rfl) rfl rfl
      · next work handle hpc hpoint =>
          cases h
          exact .write hpc (by rw [hpoint]; rfl) rfl rfl
      · cases h
  | clean worker =>
      simp only [step] at h
      split at h
      · next work ending hpc =>
          split at h
          · next hclean =>
              cases h
              exact .clean hpc hclean
          · cases h
      · cases h

theorem restart_of_ne {label : WorkerLabel ι} {worker : ι} (h : label ≠ .submit worker) :
    s.restart label worker = s.points worker := by
  cases label with
  | submit other =>
      have hne : worker ≠ other := fun hsame => h (by rw [hsame])
      simp [restart, hne]
  | _ => rfl

end SlurmState

/-- The runner leaves the steps of the workers as they are. -/
def slurmRefinement {ι : Type} [DecidableEq ι] (target : SlurmTarget)
    (profile : ι → WorkerProfile) :
    TransitionSystem.Refinement (slurmSystem target profile) (workerSystem profile) where
  abs := SlurmState.workers
  label _ label :=
    match label with
    | .worker label => some label
    | _ => none
  initial s h := by
    cases h
    rfl
  stutter s label s' h hlabel := by
    cases SlurmState.step_cases h with
    | worker _ _ => cases hlabel
    | _ => rfl
  simulate s label s' k h hlabel := by
    cases SlurmState.step_cases h with
    | worker _ hstep =>
        cases hlabel
        exact hstep
    | _ => cases hlabel

namespace SlurmState

variable {ι : Type} [DecidableEq ι] {target : SlurmTarget} {profile : ι → WorkerProfile}
  {guard : SlurmState ι → SlurmLabel ι → Prop} {s s' : SlurmState ι} {label : SlurmLabel ι}

theorem workers_reachable (h : (slurmSystem target profile).Reachable guard s) :
    (workerSystem profile).Reachable TransitionSystem.anyStep s.workers :=
  (slurmRefinement target profile).reachable (fun _ _ _ _ _ => trivial) h

/-- The job was submitted for the attempt. -/
def Submitted (target : SlurmTarget) (s : SlurmState ι) (attemptId : Uuid)
    (handle : String) : Prop :=
  ⟨handle, target.jobName attemptId⟩ ∈ s.jobs

/-- The job was submitted for the attempt, which has a receipt until its
directory is removed. -/
def Backed (target : SlurmTarget) (s : SlurmState ι) (attemptId : Uuid)
    (handle : String) : Prop :=
  s.Submitted target attemptId handle ∧
    (s.receipts attemptId ≠ none ∨ attemptId ∈ s.cleaned)

/-- Receipts, recorded handles and the handles that workers go by name jobs of
their attempts. -/
structure Owned (target : SlurmTarget) (s : SlurmState ι) : Prop where
  receipts : ∀ attemptId receipt, s.receipts attemptId = some receipt →
    receipt.attemptId = attemptId ∧ s.Submitted target attemptId receipt.handle
  rows : ∀ row ∈ s.workers.db.taskAttempts.rows, ∀ handle, row.targetHandle = some handle →
    s.Backed target row.id handle
  points : ∀ worker work handle, s.workers.pcs worker = .submitting work →
    (s.points worker).handle? = some handle →
    s.Submitted target work.request.attemptId handle
  returns : ∀ worker work handle, s.workers.pcs worker = .submitting work →
    (s.points worker).returns? = some handle → s.Backed target work.request.attemptId handle
  calls : ∀ worker lease handle, (s.workers.pcs worker).lease? = some lease →
    (s.workers.pcs worker).handle? = some handle → s.Backed target lease.attemptId handle

namespace Owned

omit [DecidableEq ι] in
/-- The engine records the handle that a worker gives it. -/
theorem rows_after (h : s.Owned target) (now : Time) {operation : Operation}
    (hcaller : operation.isClient = true ∨
      ∃ worker, (s.workers.pcs worker).call (profile worker) = some operation) :
    ∀ row' ∈ (operation.after now s.workers.db).taskAttempts.rows, ∀ handle,
      row'.targetHandle = some handle → s.Backed target row'.id handle := by
  intro row' hrow' handle hhandle
  obtain ⟨row, hrow, hid, hchange⟩ | hadded :=
    (operation.transition now s.workers.db).attemptChanges.new row' hrow'
  · rw [hid]
    obtain hkept | ⟨lease, recorded, state, metadata, rfl, hholds, hrecorded⟩ :=
      hchange.targetHandle
    · exact h.rows row hrow handle (hkept.symm.trans hhandle)
    · obtain rfl := Option.some.inj (hrecorded.symm.trans hhandle)
      obtain ⟨worker, hworker⟩ := hcaller.resolve_left (by simp [Operation.isClient])
      rw [Db.id_of_attempt? hholds.found]
      exact h.calls worker lease recorded (Pc.lease?_call hworker).symm (Pc.handle?_call hworker)
  · cases hadded with
    | started _ => cases hhandle

omit [DecidableEq ι] in
/-- A reply of `submit` names the job of the worker. -/
theorem of_permits (h : s.Owned target) {worker : ι} {work : Work} {elapsed : Nat}
    {submission : TargetSubmission}
    (hpermits : s.permits target (.runner worker elapsed (.submitted submission)) = true)
    (hpc : s.workers.pcs worker = .submitting work) :
    s.Backed target work.request.attemptId submission.handle := by
  simp only [permits, hpc] at hpermits
  split at hpermits
  · next handle hpoint =>
      simp only [Bool.and_eq_true, decide_eq_true_eq] at hpermits
      exact h.returns worker work _ hpc (by rw [hpoint, hpermits.1]; rfl)
  · next handle hpoint =>
      simp only [Bool.and_eq_true, decide_eq_true_eq] at hpermits
      exact h.returns worker work _ hpc (by rw [hpoint, hpermits.1]; rfl)
  · cases hpermits

theorem step_worker (h : s.Owned target)
    (hreach : (slurmSystem target profile).Reachable guard s) {label : WorkerLabel ι}
    {workers : Workers ι} (hpermits : s.permits target label = true)
    (hstep : s.workers.step profile label = some workers) :
    ({ s with workers := workers, points := s.restart label } : SlurmState ι).Owned target := by
  have hworkers := workers_reachable hreach
  refine ⟨h.receipts, ?_, ?_, ?_, ?_⟩
  · obtain hsame | ⟨operation, now, -, hcaller, hafter⟩ := Workers.db_step hstep
    · simp only [hsame]
      exact h.rows
    · simp only [hafter]
      exact h.rows_after now hcaller
  · intro worker work handle hpc hpoint
    obtain ⟨hold, hlabel⟩ | ⟨rfl, -⟩ := Workers.submitting_step (Workers.step_cases hstep) hpc
    · simp only [restart_of_ne hlabel] at hpoint
      exact h.points worker work handle hold hpoint
    · simp [restart, SubmitPoint.handle?] at hpoint
  · intro worker work handle hpc hpoint
    obtain ⟨hold, hlabel⟩ | ⟨rfl, -⟩ := Workers.submitting_step (Workers.step_cases hstep) hpc
    · simp only [restart_of_ne hlabel] at hpoint
      exact h.returns worker work handle hold hpoint
    · simp [restart, SubmitPoint.returns?] at hpoint
  · intro worker lease handle hlease hhandle
    cases Workers.step_cases hstep with
    | client _ => exact h.calls worker lease handle hlease hhandle
    | @replied other now operation reply db hcall hok =>
        simp only [Workers.setPc, Function.update_apply] at hlease hhandle
        split at hlease
        · next hsame =>
            subst hsame
            rw [if_pos rfl] at hhandle
            obtain ⟨hheld, -⟩ | ⟨hidle, rfl, -, -, row, hclaimed⟩ :=
              Workers.replied_cases hcall hok hlease
            · obtain hknown | ⟨_, hidle, -⟩ := Pc.handle?_returned hhandle
              · exact h.calls worker lease handle hheld hknown
              · rw [hidle] at hheld
                cases hheld
            · -- a claimed attempt brings its recorded handle along
              have hafter : db = operation.after now s.workers.db := by
                simp [Operation.after, hok]
              have hrow := Table.mem_of_row? hclaimed.found
              rw [hafter] at hrow
              obtain hknown | ⟨held, -, heq, hgiven⟩ := Pc.handle?_returned hhandle
              · rw [hidle] at hknown
                cases hknown
              · cases heq
                have hsubmitted := h.rows_after now (.inr ⟨worker, hcall⟩) row hrow handle
                  (hclaimed.targetHandle.trans hgiven)
                rwa [Db.id_of_attempt? hclaimed.found] at hsubmitted
        · next hother =>
            rw [if_neg hother] at hhandle
            exact h.calls worker lease handle hlease hhandle
    | @raised other _ _ _ _ _ _ =>
        simp only [Workers.setPc, Function.update_apply] at hlease hhandle
        split at hlease
        · next hsame =>
            rw [if_pos hsame, Pc.handle?_raised] at hhandle
            cases hhandle
        · next hother =>
            rw [if_neg hother] at hhandle
            exact h.calls worker lease handle hlease hhandle
    | @submit other work hpc =>
        simp only [Workers.setPc, Function.update_apply] at hlease hhandle
        split at hlease
        · next hsame =>
            rw [if_pos hsame] at hhandle
            cases hhandle
        · next hother =>
            rw [if_neg hother] at hhandle
            exact h.calls worker lease handle hlease hhandle
    | @runner other elapsed reply pc hpc =>
        simp only [Workers.setPc, Function.update_apply] at hlease hhandle
        split at hlease
        · next hsame =>
            subst hsame
            rw [if_pos rfl] at hhandle
            rw [Pc.lease?_answered hpc] at hlease
            obtain hknown | ⟨work, submission, hsubmitting, rfl, rfl⟩ :=
              Pc.handle?_answered hpc hhandle
            · exact h.calls worker lease handle hlease hknown
            · have hsubmitted := h.of_permits hpermits hsubmitting
              rw [Workers.requestsMatch hworkers worker work (by rw [hsubmitting]; rfl)]
                at hsubmitted
              rw [hsubmitting] at hlease
              cases hlease
              exact hsubmitted
        · next hother =>
            rw [if_neg hother] at hhandle
            exact h.calls worker lease handle hlease hhandle
    | crash =>
        simp only [Workers.setPc, Function.update_apply] at hlease hhandle
        split at hlease
        · cases hlease
        · next hother =>
            rw [if_neg hother] at hhandle
            exact h.calls worker lease handle hlease hhandle

/-- A worker inside of `submit` that goes on with a job of its attempt, or with
none. -/
theorem setPoint (h : s.Owned target) {worker : ι} {work : Work} {point : SubmitPoint}
    (hpc : s.workers.pcs worker = .submitting work)
    (hpoint : ∀ handle, point.handle? = some handle →
      s.Submitted target work.request.attemptId handle)
    (hreturns : ∀ handle, point.returns? = some handle →
      s.Backed target work.request.attemptId handle) :
    (s.setPoint worker point).Owned target := by
  refine ⟨h.receipts, h.rows, ?_, ?_, h.calls⟩
  · intro other held handle hheld hknown
    simp only [SlurmState.setPoint, Function.update_apply] at hknown
    split at hknown
    · next hsame =>
        rw [hsame] at hheld
        cases hpc.symm.trans hheld
        exact hpoint handle hknown
    · exact h.points other held handle hheld hknown
  · intro other held handle hheld hknown
    simp only [SlurmState.setPoint, Function.update_apply] at hknown
    split at hknown
    · next hsame =>
        rw [hsame] at hheld
        cases hpc.symm.trans hheld
        exact hreturns handle hknown
    · exact h.returns other held handle hheld hknown

omit [DecidableEq ι] in
/-- More jobs, and other receipts of the same attempts or of removed ones, take
no handle away. -/
theorem grow (h : s.Owned target) {receipts : Uuid → Option Receipt} {jobs : List SlurmJob}
    {cleaned : List Uuid} (hjobs : s.jobs ⊆ jobs)
    (hreceipts : ∀ attemptId receipt, receipts attemptId = some receipt →
      receipt.attemptId = attemptId ∧
        ⟨receipt.handle, target.jobName attemptId⟩ ∈ jobs)
    (hkept : ∀ attemptId, s.receipts attemptId ≠ none ∨ attemptId ∈ s.cleaned →
      receipts attemptId ≠ none ∨ attemptId ∈ cleaned) :
    ({ s with receipts := receipts, jobs := jobs, cleaned := cleaned } :
      SlurmState ι).Owned target where
  receipts := hreceipts
  rows row hrow handle hhandle := (h.rows row hrow handle hhandle).imp (hjobs ·) (hkept _)
  points worker work handle hpc hpoint := hjobs (h.points worker work handle hpc hpoint)
  returns worker work handle hpc hpoint :=
    (h.returns worker work handle hpc hpoint).imp (hjobs ·) (hkept _)
  calls worker lease handle hlease hhandle :=
    (h.calls worker lease handle hlease hhandle).imp (hjobs ·) (hkept _)

theorem step (h : s.Owned target) (hreach : (slurmSystem target profile).Reachable guard s)
    (hstep : Step target profile s label s') : s'.Owned target := by
  cases hstep with
  | worker hpermits hstep => exact h.step_worker hreach hpermits hstep
  | absent hpc _ _ =>
      exact h.setPoint hpc (fun _ hknown => by cases hknown) fun _ hknown => by cases hknown
  | present hpc _ hreceipt =>
      have hjob := (h.receipts _ _ hreceipt).2
      refine h.setPoint hpc (fun handle hknown => ?_) fun handle hknown => ?_
      · cases hknown
        exact hjob
      · cases hknown
        exact ⟨hjob, .inl (by simp [hreceipt])⟩
  | found hpc _ hjob =>
      refine h.setPoint hpc (fun handle hknown => ?_) fun _ hknown => by cases hknown
      cases hknown
      exact hjob
  | missing hpc _ =>
      exact h.setPoint hpc (fun _ hknown => by cases hknown) fun _ hknown => by cases hknown
  | @sbatch worker work jobId hpc _ _ =>
      have hgrown := h.grow (List.subset_append_left s.jobs
        [⟨jobId, target.jobName work.request.attemptId⟩]) (fun attemptId receipt hreceipt =>
          (h.receipts attemptId receipt hreceipt).imp_right (List.mem_append_left _))
        fun _ => id
      refine hgrown.setPoint hpc (fun handle hknown => ?_) fun _ hknown => by cases hknown
      cases hknown
      exact List.mem_append_right _ (List.mem_singleton_self _)
  | @write worker work handle recovered point hpc hknown hpoint _ =>
      have hjob := h.points worker work handle hpc hknown
      have hgrown : ({ s with
          receipts := Function.update s.receipts work.request.attemptId
            (some ⟨work.request.attemptId, handle, target.jobName work.request.attemptId,
              recovered⟩) } : SlurmState ι).Owned target := by
        refine h.grow (List.Subset.refl s.jobs) (fun attemptId receipt hreceipt => ?_)
          fun attemptId hkept => ?_
        · rw [Function.update_apply] at hreceipt
          split at hreceipt
          · next hsame =>
              cases hreceipt
              rw [hsame]
              exact ⟨rfl, hjob⟩
          · exact h.receipts attemptId receipt hreceipt
        · rw [Function.update_apply]
          split
          · exact .inl (by simp)
          · exact hkept
      refine hgrown.setPoint hpc (fun other hother => ?_) fun other hother => ?_
      · rw [← Option.some.inj (hpoint.symm.trans hother)]
        exact hjob
      · rw [← Option.some.inj (hpoint.symm.trans (SubmitPoint.handle?_of_returns? hother))]
        exact ⟨hjob, .inl (by simp)⟩
  | @clean worker work ending hpc _ =>
      refine h.grow (List.Subset.refl s.jobs) (fun attemptId receipt hreceipt => ?_)
        fun attemptId hkept => ?_
      · rw [Function.update_apply] at hreceipt
        split at hreceipt
        · cases hreceipt
        · exact h.receipts attemptId receipt hreceipt
      · rw [Function.update_apply]
        split
        · next hsame =>
            rw [hsame]
            exact .inr (List.mem_append_right _ (List.mem_singleton_self _))
        · exact hkept.imp_right (List.mem_append_left _)

end Owned

theorem owned (h : (slurmSystem target profile).Reachable guard s) : s.Owned target := by
  refine h.invariant (fun s => s.Owned target) (fun s hs => ?_)
    fun s label s' hreach hinv _ hstep => hinv.step hreach (step_cases hstep)
  cases hs
  exact ⟨fun _ _ hreceipt => (by cases hreceipt), fun _ hrow => (by cases hrow),
    fun _ _ _ hpc => (by cases hpc), fun _ _ _ hpc => (by cases hpc),
    fun _ _ _ hlease => (by cases hlease)⟩

/-- The scheduler never gives an identifier twice. -/
theorem jobIds_nodup (h : (slurmSystem target profile).Reachable guard s) :
    (s.jobs.map SlurmJob.jobId).Nodup := by
  refine h.invariant (fun s => (s.jobs.map SlurmJob.jobId).Nodup) (fun s hs => ?_)
    fun s label s' _ hinv _ hstep => ?_
  · cases hs
    exact List.nodup_nil
  · cases step_cases hstep with
    | sbatch _ _ hfresh =>
        rw [List.map_append, List.nodup_append']
        refine ⟨hinv, List.nodup_singleton _, ?_⟩
        rw [List.map_singleton, List.disjoint_singleton]
        intro hmem
        obtain ⟨job, hjob, hid⟩ := List.mem_map.mp hmem
        exact hfresh job hjob hid
    | _ => exact hinv

/-- The attempts have different job names. -/
def DistinctNames (target : SlurmTarget) (s : SlurmState ι) : Prop :=
  ∀ row ∈ s.workers.db.taskAttempts.rows, ∀ other ∈ s.workers.db.taskAttempts.rows,
    target.jobName row.id = target.jobName other.id → row.id = other.id

/-- A handle belongs to one attempt. -/
theorem attempt_of_submitted (h : (slurmSystem target profile).Reachable guard s)
    (hnames : s.DistinctNames target) {row other : Attempt}
    (hrow : row ∈ s.workers.db.taskAttempts.rows)
    (hother : other ∈ s.workers.db.taskAttempts.rows) {handle : String}
    (hsubmitted : s.Submitted target row.id handle)
    (hhandle : other.targetHandle = some handle) : other.id = row.id := by
  have hjob := ((owned h).rows other hother handle hhandle).1
  have hsame := List.inj_on_of_nodup_map (jobIds_nodup h) hjob hsubmitted rfl
  exact hnames other hother row hrow (congrArg SlurmJob.name hsame)

/-- The worker is about to call `poll`, `collect` or `cancel`. -/
def Calls (s : SlurmState ι) (worker : ι) (work : Work) (handle : String) : Prop :=
  s.workers.pcs worker = .poll work handle ∨ s.workers.pcs worker = .collect work handle ∨
    s.workers.pcs worker = .cancel work handle

omit [DecidableEq ι] in
theorem Calls.known {worker : ι} {work : Work} {handle : String}
    (h : s.Calls worker work handle) :
    (s.workers.pcs worker).work? = some work ∧ (s.workers.pcs worker).handle? = some handle := by
  rcases h with hpc | hpc | hpc <;> rw [hpc] <;> exact ⟨rfl, rfl⟩

/-- The call is about an attempt, and its handle names a job of that attempt. -/
theorem Calls.backed {worker : ι} {work : Work} {handle : String}
    (h : s.Calls worker work handle)
    (hreach : (slurmSystem target profile).Reachable guard s) :
    ∃ row ∈ s.workers.db.taskAttempts.rows, row.id = work.request.attemptId ∧
      s.Backed target row.id handle := by
  obtain ⟨hwork, hknown⟩ := h.known
  have hworkers := workers_reachable hreach
  have hlease := Pc.lease?_of_work? hwork
  have hbacked := (owned hreach).calls worker work.lease handle hlease hknown
  obtain ⟨row, hrow, -⟩ := (Workers.leases hworkers).attempt worker work.lease hlease
  have hid := Db.id_of_attempt? hrow
  refine ⟨row, Table.mem_of_row? hrow, ?_, by rwa [hid]⟩
  rw [hid, Workers.requestsMatch hworkers worker work hwork]

/-- In every run a receipt lies with the attempt it is about and names its job.
A recorded handle, and the handle of a call of `poll`, `collect` or `cancel`,
names a job that was submitted for the attempt and is recorded for no other one;
the attempt has a receipt, or its directory was removed. -/
theorem handles_owned (hreach : (slurmSystem target profile).Reachable guard s)
    (hnames : s.DistinctNames target) :
    (∀ attemptId receipt, s.receipts attemptId = some receipt →
      receipt.attemptId = attemptId ∧ s.Submitted target attemptId receipt.handle) ∧
    (∀ row ∈ s.workers.db.taskAttempts.rows, ∀ handle, row.targetHandle = some handle →
      s.Backed target row.id handle ∧
        ∀ other ∈ s.workers.db.taskAttempts.rows, other.targetHandle = some handle →
          other.id = row.id) ∧
    ∀ worker work handle, s.Calls worker work handle →
      s.Backed target work.request.attemptId handle ∧
        ∀ other ∈ s.workers.db.taskAttempts.rows, other.targetHandle = some handle →
          other.id = work.request.attemptId := by
  have howned := owned hreach
  refine ⟨howned.receipts, fun row hrow handle hhandle => ?_, fun worker work handle hcall => ?_⟩
  · have hbacked := howned.rows row hrow handle hhandle
    exact ⟨hbacked, fun other hother hsame =>
      attempt_of_submitted hreach hnames hrow hother hbacked.1 hsame⟩
  · obtain ⟨row, hrow, hid, hbacked⟩ := hcall.backed hreach
    rw [← hid]
    exact ⟨hbacked, fun other hother hsame =>
      attempt_of_submitted hreach hnames hrow hother hbacked.1 hsame⟩

/-- SHA-256 on the names of two attempts. -/
def sampleTarget (policy : CleanupPolicy) : SlurmTarget where
  hexdigest text :=
    if text = "attempt-2" then "66708974e5efa736dfb98996c3e198c012e29dc210e1b4f47cd5d093bdd7561d"
    else if text = "attempt-5" then
      "11314d18c4fa3268f0b6b976998c014d75dbcf909123b70dc65faa89033fdccf"
    else ""
  policy := policy

/-- A worker claims an attempt and submits it. -/
def submitSteps (worker : Fin 2) (start : Time) (jobId : String) : List (SlurmLabel (Fin 2)) :=
  (engineSteps worker start 4).map .worker ++
    [.worker (.submit worker), .read worker, .search worker none, .sbatch worker jobId,
      .write worker, .worker (.runner worker 0 (.submitted { handle := jobId }))] ++
    (engineSteps worker (start + 4) 6).map .worker

/-- The two attempts of the sample run, each submitted by a worker. -/
def submittedPair : List (SlurmLabel (Fin 2)) :=
  (clientSteps sampleSubmission).map .worker ++ submitSteps 0 1 "42" ++ submitSteps 1 11 "43"

theorem sampleTarget_jobName (policy : CleanupPolicy) :
    (sampleTarget policy).jobName 2 = "qhpc-66708974e5efa736dfb98996" ∧
      (sampleTarget policy).jobName 5 = "qhpc-11314d18c4fa3268f0b6b976" := by
  cases policy <;> decide

theorem sampleTarget_distinctNames {policy : CleanupPolicy} {s : SlurmState (Fin 2)}
    (hids : s.workers.db.taskAttempts.rows.map Attempt.id = [2, 5]) :
    s.DistinctNames (sampleTarget policy) := by
  have hid : ∀ row ∈ s.workers.db.taskAttempts.rows, row.id = 2 ∨ row.id = 5 := by
    intro row hrow
    have hmem := List.mem_map_of_mem (f := Attempt.id) hrow
    simpa [hids] using hmem
  obtain ⟨hfirst, hsecond⟩ := sampleTarget_jobName policy
  intro row hrow other hother hname
  rcases hid row hrow with heq | heq <;> rcases hid other hother with heq' | heq' <;>
    rw [heq, heq'] at hname ⊢
  · rw [hfirst, hsecond] at hname
    exact absurd hname (by decide)
  · rw [hfirst, hsecond] at hname
    exact absurd hname (by decide)

theorem handles_owned_sample :
    let s := (slurmSystem (sampleTarget .onSuccess) (sampleProfile .async)).after
      (fun _ _ => true) {} submittedPair
    (s.workers.db.taskAttempts.rows.map fun row => (row.id, row.targetHandle)) =
      [(2, some "42"), (5, some "43")] ∧
    ∀ worker work handle, s.Calls worker work handle →
      s.Backed (sampleTarget .onSuccess) work.request.attemptId handle ∧
        ∀ other ∈ s.workers.db.taskAttempts.rows, other.targetHandle = some handle →
          other.id = work.request.attemptId := by
  intro s
  have hempty : (slurmSystem (sampleTarget .onSuccess) (sampleProfile .async)).Reachable
      (fun _ _ => true = true) {} := .initial rfl
  refine ⟨by decide, (handles_owned (hempty.after submittedPair) ?_).2.2⟩
  exact sampleTarget_distinctNames (by decide)

end SlurmState

end QhpcEcosystem
