/-
The lineage of results under the workers.  Beside the system it is recorded what
each attempt was given when its job was launched and which attempt has completed
each task; the records follow the system and do not act on it.
-/
import QhpcEcosystem.DataLineage
import QhpcEcosystem.WorkerInvariants

namespace QhpcEcosystem

/-! ## Program points -/

/-- The lease and the request that a worker works from. -/
def Pc.work? : Pc → Option Work
  | .idle | .claimed _ | .requesting _ | .complete _ _ | .fail _ _ => none
  | .requested work | .withdrawn work | .marking work | .submit work | .submitting work
  | .submitted work _ _ | .recording work _ | .poll work _ | .polled work _ _ _
  | .observing work _ _ | .collect work _ | .collected work _ _ | .reporting work _
  | .cancel work _ | .cancelRaised work _ _ | .cancelReturned work _ _ | .release work
  | .finalize work _ | .finalizeRaised work _ _ _ | .finish work _ | .execute work =>
      some work

/-- The result of a job is at hand. -/
def Ending.isCompleted : Ending → Bool
  | .completed _ => true
  | .canceled _ | .failed _ | .handled _ => false

/-- The job of the attempt has been launched: the worker has called `submit` or
`execute`, or has found a handle. -/
def Pc.launched : Pc → Bool
  | .submitting _ | .submitted _ _ _ | .recording _ _ | .poll _ _ | .polled _ _ _ _
  | .observing _ _ _ | .collect _ _ | .collected _ _ _ | .reporting _ _ | .complete _ _ => true
  | .finalize _ ending | .finalizeRaised _ ending _ _ | .finish _ ending => ending.isCompleted
  | .idle | .claimed _ | .requested _ | .withdrawn _ | .marking _ | .submit _ | .cancel _ _
  | .cancelRaised _ _ _ | .cancelReturned _ _ _ | .release _ | .requesting _ | .execute _
  | .fail _ _ => false

namespace Pc

variable {pc pc' : Pc} {profile : WorkerProfile} {work : Work}

theorem lease?_of_work? (h : pc.work? = some work) : pc.lease? = some work.lease := by
  cases pc <;> cases h <;> rfl

theorem work?_raised {error : Exn} (h : (pc.raised error).work? = some work) :
    pc.work? = some work := by
  cases pc with
  | finalizeRaised work ending _ _ => cases ending <;> first | exact h | cases h
  | finish work ending => cases ending <;> first | exact h | cases h
  | _ => first | exact h | cases h

theorem work?_answered {elapsed : Nat} {reply : RunnerReply}
    (h : pc.answered elapsed reply = some pc') (hwork : pc'.work? = some work) :
    pc.work? = some work := by
  cases pc <;> cases reply <;> cases h <;> first | exact hwork | cases hwork

theorem work?_afterState (work : Work) (state : AttemptState) :
    (afterState work state).work? = some work := by
  obtain ⟨_, -, ⟨-, heq⟩ | ⟨-, heq⟩⟩ | ⟨-, ⟨-, heq⟩ | ⟨-, heq⟩⟩ :=
    afterState_cases work state <;> rw [heq] <;> rfl

theorem work?_afterSubmission (work : Work) (submission : TargetSubmission)
    (state : AttemptState) : (afterSubmission work submission state).work? = some work := by
  obtain ⟨-, heq⟩ | ⟨-, heq⟩ | ⟨-, _, heq⟩ | heq :=
    afterSubmission_cases work submission state <;> rw [heq] <;> rfl

theorem work?_afterStatus (work : Work) (handle : String) (status : TargetStatus) :
    (afterStatus work handle status).work? = some work := by
  obtain ⟨-, heq⟩ | ⟨-, _, heq⟩ | heq := afterStatus_cases work handle status <;>
    rw [heq] <;> rfl

/-- A worker works from what `task_request` has returned to it. -/
theorem work?_returned {reply : Reply} {operation : Operation}
    (hcall : pc.call profile = some operation)
    (h : (pc.returned profile reply).work? = some work) :
    pc.work? = some work ∨
      operation = .taskRequest work.lease ∧ reply = .request work.request := by
  cases pc with
  | idle =>
      simp only [returned] at h
      split at h <;> cases h
  | claimed held =>
      simp only [returned] at h
      split at h
      · cases h
        cases hcall
        exact .inr ⟨rfl, rfl⟩
      · cases h
  | requesting held =>
      simp only [returned] at h
      split at h
      · cases h
        cases hcall
        exact .inr ⟨rfl, rfl⟩
      · cases h
  | requested held =>
      simp only [returned] at h
      split at h
      · rw [work?_afterState] at h
        exact .inl h
      · cases h
  | recording held submission =>
      simp only [returned] at h
      split at h
      · rw [work?_afterSubmission] at h
        exact .inl h
      · cases h
  | observing held handle status =>
      simp only [returned, work?_afterStatus] at h
      exact .inl h
  | _ => first | exact .inl h | cases h

theorem launched_raised (error : Exn) : (pc.raised error).launched = false := by
  cases pc with
  | finalizeRaised work ending _ _ => cases ending <;> rfl
  | finish work ending => cases ending <;> rfl
  | _ => rfl

theorem launched_answered {elapsed : Nat} {reply : RunnerReply}
    (h : pc.answered elapsed reply = some pc') (hlaunched : pc'.launched = true) :
    pc.launched = true ∨ ∃ work, pc = .execute work := by
  cases pc <;> cases reply <;> cases h <;>
    first | exact .inl hlaunched | exact .inl rfl | exact .inr ⟨_, rfl⟩

/-- A worker finds a launched job by the handle of its lease. -/
theorem launched_returned {reply : Reply} (h : (pc.returned profile reply).launched = true) :
    pc.launched = true ∨ ∃ lease, pc.lease? = some lease ∧ lease.targetHandle ≠ none := by
  cases pc with
  | idle =>
      simp only [returned] at h
      split at h <;> cases h
  | claimed held =>
      simp only [returned] at h
      split at h <;> cases h
  | requesting held =>
      simp only [returned] at h
      split at h <;> cases h
  | requested held =>
      simp only [returned] at h
      split at h
      · next state =>
          obtain ⟨handle, hhandle, -⟩ | ⟨-, ⟨-, heq⟩ | ⟨-, heq⟩⟩ := afterState_cases held state
          · exact .inr ⟨held.lease, rfl, by simp [hhandle]⟩
          · rw [heq] at h
            cases h
          · rw [heq] at h
            cases h
      · cases h
  | recording held submission => exact .inl rfl
  | observing held handle status => exact .inl rfl
  | _ => first | exact .inl h | exact .inl rfl | cases h

theorem call_completeTask {lease : TaskLease} {result : TaskResult}
    (h : pc.call profile = some (.completeTask lease result)) :
    pc.lease? = some lease ∧ pc.launched = true := by
  cases pc with
  | finish work ending =>
      cases ending <;> cases h
      exact ⟨rfl, rfl⟩
  | complete held result =>
      cases h
      exact ⟨rfl, rfl⟩
  | _ => cases h

end Pc

/-! ## The record -/

/-- What the attempts were given when their jobs were launched, and the attempt
that has completed each task. -/
structure Lineage where
  given : List (Uuid × Dict String ArtifactRecord) := []
  succeededBy : Uuid × String → Option Uuid := fun _ => none

/-- The attempt with the inputs of the request. -/
def Work.given (work : Work) : Uuid × Dict String ArtifactRecord :=
  (work.lease.attemptId, work.request.inputs)

variable {ι : Type}

namespace Workers

/-- The job that the step launches, with its inputs. -/
def launches (s : Workers ι) : WorkerLabel ι → List (Uuid × Dict String ArtifactRecord)
  | .submit worker =>
      match s.pcs worker with
      | .submit work => [work.given]
      | _ => []
  | .runner worker _ _ =>
      match s.pcs worker with
      | .execute work => [work.given]
      | _ => []
  | _ => []

/-- The lease under which the step completes a task. -/
def completes (profile : ι → WorkerProfile) (s : Workers ι) : WorkerLabel ι → Option TaskLease
  | .engine worker now none =>
      match (s.pcs worker).call (profile worker) with
      | some (.completeTask lease result) =>
          if (s.db.task? lease.runId lease.nodeId).all (fun task => task.state ≠ .succeeded) ∧
              (completeTask s.db now lease result).isOk then some lease else none
      | _ => none
  | _ => none

def lineage (profile : ι → WorkerProfile) (s : Workers ι) (label : WorkerLabel ι)
    (record : Lineage) : Lineage where
  given := record.given ++ s.launches label
  succeededBy :=
    match s.completes profile label with
    | some lease => Function.update record.succeededBy (lease.runId, lease.nodeId)
        (some lease.attemptId)
    | none => record.succeededBy

end Workers

/-- The workers with the record of the lineage. -/
def lineageSystem [DecidableEq ι] (profile : ι → WorkerProfile) :
    TransitionSystem (Workers ι × Lineage) (WorkerLabel ι) :=
  (workerSystem profile).instrument {} (Workers.lineage profile)

variable [DecidableEq ι] {profile : ι → WorkerProfile} {s s' : Workers ι}
  {label : WorkerLabel ι} {record : Lineage}

/-- The job of the attempt was launched with recorded inputs. -/
def Lineage.Gave (record : Lineage) (attemptId : Uuid) : Prop :=
  ∃ inputs, (attemptId, inputs) ∈ record.given

namespace Workers

omit [DecidableEq ι] in
theorem gave_lineage {attemptId : Uuid} (h : record.Gave attemptId) :
    (s.lineage profile label record).Gave attemptId := by
  obtain ⟨inputs, hmem⟩ := h
  exact ⟨inputs, List.mem_append_left _ hmem⟩

/-- Whoever has a handle or a launched job of an attempt, the attempt was given
inputs. -/
structure Launches (s : Workers ι) (record : Lineage) : Prop where
  handles : ∀ row ∈ s.db.taskAttempts.rows, row.targetHandle ≠ none → record.Gave row.id
  leases : ∀ worker lease, (s.pcs worker).lease? = some lease → lease.targetHandle ≠ none →
    record.Gave lease.attemptId
  points : ∀ worker lease, (s.pcs worker).lease? = some lease →
    (s.pcs worker).launched = true → record.Gave lease.attemptId

namespace Launches

variable (h : Launches s record)

include h

omit [DecidableEq ι] in
/-- Only `record_submission` records a handle. -/
theorem transition {db : Db} {now : Time} {operation : Operation}
    (htransition : s.db.Transition now operation db)
    (hsubmission : ∀ lease handle state metadata,
      operation = .recordSubmission lease handle state metadata → record.Gave lease.attemptId) :
    ∀ row ∈ db.taskAttempts.rows, row.targetHandle ≠ none → record.Gave row.id := by
  intro row' hrow' hhandle
  obtain ⟨row, hrow, hid, hchange⟩ | hadded := htransition.attemptChanges.new row' hrow'
  · rw [hid]
    rcases hchange.targetHandle with hsame | ⟨lease, _, _, _, heq, hholds, -⟩
    · exact h.handles row hrow (by rwa [← hsame])
    · rw [Db.id_of_attempt? hholds.found]
      exact hsubmission _ _ _ _ heq
  · cases hadded with
    | started _ => exact absurd rfl hhandle

omit h in
/-- What holds of the other workers and of the new point holds of all. -/
theorem ofPc {db : Db} {pcs : ι → Pc} {records records' : List CallRecord}
    {record' : Lineage} {worker : ι} {pc : Pc}
    (h : Launches ⟨db, pcs, records⟩ record)
    (hmore : ∀ attemptId, record.Gave attemptId → record'.Gave attemptId) {db' : Db}
    (hhandles : ∀ row ∈ db'.taskAttempts.rows, row.targetHandle ≠ none → record'.Gave row.id)
    (hlease : ∀ lease, pc.lease? = some lease → lease.targetHandle ≠ none →
      record'.Gave lease.attemptId)
    (hpoint : ∀ lease, pc.lease? = some lease → pc.launched = true →
      record'.Gave lease.attemptId) :
    Launches ⟨db', Function.update pcs worker pc, records'⟩ record' where
  handles := hhandles
  leases other lease hheld hhandle := by
    simp only [Function.update_apply] at hheld
    split at hheld
    · exact hlease lease hheld hhandle
    · exact hmore _ (h.leases other lease hheld hhandle)
  points other lease hheld hlaunched := by
    simp only [Function.update_apply] at hheld hlaunched
    split at hheld
    · next hsame =>
        rw [if_pos hsame] at hlaunched
        exact hpoint lease hheld hlaunched
    · next hother =>
        rw [if_neg hother] at hlaunched
        exact hmore _ (h.points other lease hheld hlaunched)

theorem step (hstep : Step profile s label s') :
    Launches s' (s.lineage profile label record) := by
  have hmore : ∀ attemptId, record.Gave attemptId →
      (s.lineage profile label record).Gave attemptId := fun _ => gave_lineage
  cases hstep with
  | @client operation now hclient =>
      refine ⟨fun row hrow hhandle => hmore _ ?_, fun worker lease hlease hhandle =>
        hmore _ (h.leases worker lease hlease hhandle), fun worker lease hlease hlaunched =>
        hmore _ (h.points worker lease hlease hlaunched)⟩
      refine h.transition (operation.transition now s.db) ?_ row hrow hhandle
      rintro lease handle state metadata rfl
      cases hclient
  | @replied worker now operation reply db hcall hok =>
      have hhandles := h.transition (transition_of_perform hok) (by
        rintro lease handle state metadata rfl
        obtain ⟨work, submission, hpc, rfl⟩ := Pc.call_recordSubmission hcall
        exact h.points worker work.lease (by rw [hpc]; rfl) (by rw [hpc]; rfl))
      have hheld : ∀ lease, ((s.pcs worker).returned (profile worker) reply).lease? = some lease →
          lease.targetHandle ≠ none → record.Gave lease.attemptId := by
        intro lease hlease hhandle
        rcases replied_cases hcall hok hlease with ⟨hheld, -⟩ | ⟨-, -, -, -, row, hclaimed⟩
        · exact h.leases worker lease hheld hhandle
        · have hrow := hhandles row (Table.mem_of_row? hclaimed.found)
            (by rwa [hclaimed.targetHandle])
          rwa [Db.id_of_attempt? hclaimed.found] at hrow
      refine h.ofPc hmore (fun row hrow hhandle => hmore _ (hhandles row hrow hhandle))
        (fun lease hlease hhandle => hmore _ (hheld lease hlease hhandle))
        fun lease hlease hlaunched => hmore _ ?_
      rcases Pc.launched_returned hlaunched with hbefore | ⟨held, hown, hhandle⟩
      · rcases replied_cases hcall hok hlease with ⟨hown, -⟩ | ⟨hidle, -⟩
        · exact h.points worker lease hown hbefore
        · rw [hidle] at hbefore
          cases hbefore
      · rcases replied_cases hcall hok hlease with ⟨hsame, -⟩ | ⟨hidle, -⟩
        · obtain rfl := Option.some.inj (hown.symm.trans hsame)
          exact h.leases worker held hown hhandle
        · rw [hidle] at hown
          cases hown
  | @raised worker now fault operation error hcall herror =>
      refine h.ofPc hmore (fun row hrow hhandle => hmore _ (h.handles row hrow hhandle))
        (fun lease hlease hhandle =>
          hmore _ (h.leases worker lease (Pc.lease?_raised hlease) hhandle))
        fun lease _ hlaunched => ?_
      rw [Pc.launched_raised] at hlaunched
      cases hlaunched
  | @submit worker work hpc =>
      have hlaunch : (s.lineage profile (.submit worker) record).Gave work.lease.attemptId :=
        ⟨work.request.inputs, List.mem_append_right _ (by simp [launches, hpc, Work.given])⟩
      refine h.ofPc hmore (fun row hrow hhandle => hmore _ (h.handles row hrow hhandle))
        (fun lease hlease _ => ?_) fun lease hlease _ => ?_
      · cases hlease
        exact hlaunch
      · cases hlease
        exact hlaunch
  | @runner worker elapsed reply pc hpc =>
      refine h.ofPc hmore (fun row hrow hhandle => hmore _ (h.handles row hrow hhandle))
        (fun lease hlease hhandle => ?_) fun lease hlease hlaunched => ?_
      · rw [Pc.lease?_answered hpc] at hlease
        exact hmore _ (h.leases worker lease hlease hhandle)
      · rw [Pc.lease?_answered hpc] at hlease
        rcases Pc.launched_answered hpc hlaunched with hbefore | ⟨work, hwork⟩
        · exact hmore _ (h.points worker lease hlease hbefore)
        · rw [hwork] at hlease
          cases hlease
          exact ⟨work.request.inputs,
            List.mem_append_right _ (by simp [launches, hwork, Work.given])⟩
  | @crash worker =>
      exact h.ofPc hmore (fun row hrow hhandle => hmore _ (h.handles row hrow hhandle))
        (fun _ hlease => (by cases hlease)) fun _ hlease => (by cases hlease)

end Launches

/-! ## Inputs in hand -/

/-- The inputs were given to the attempt, or a worker has them in hand for it. -/
def Handed (s : Workers ι) (record : Lineage) (attemptId : Uuid)
    (inputs : Dict String ArtifactRecord) : Prop :=
  (attemptId, inputs) ∈ record.given ∨
    ∃ worker work, (s.pcs worker).work? = some work ∧ work.given = (attemptId, inputs)

/-- Inputs in hand were in hand before, or come from a request. -/
theorem handed_cases (hstep : Step profile s label s') {attemptId : Uuid}
    {inputs : Dict String ArtifactRecord}
    (h : Handed s' (s.lineage profile label record) attemptId inputs) :
    Handed s record attemptId inputs ∨
      s'.db = s.db ∧ ∃ work : Work, taskRequest s.db work.lease = .ok work.request ∧
        work.given = (attemptId, inputs) := by
  rcases h with hgiven | ⟨other, held, hheld, hsame⟩
  · rcases List.mem_append.mp hgiven with hold | hnew
    · exact .inl (.inl hold)
    · have hpoint : ∀ {worker : ι} {work : Work}, (s.pcs worker).work? = some work →
          (attemptId, inputs) ∈ [work.given] → Handed s record attemptId inputs :=
        fun hwork hmem => .inr ⟨_, _, hwork, (List.mem_singleton.mp hmem).symm⟩
      cases hstep with
      | submit hpc =>
          simp only [launches, hpc] at hnew
          exact .inl (hpoint (by rw [hpc]; rfl) hnew)
      | @runner worker _ _ _ hpc =>
          simp only [launches] at hnew
          split at hnew
          · next hwork => exact .inl (hpoint (by rw [hwork]; rfl) hnew)
          · cases hnew
      | client _ => cases hnew
      | replied _ _ => cases hnew
      | raised _ _ => cases hnew
      | crash => cases hnew
  · cases hstep with
    | client _ => exact .inl (.inr ⟨other, held, hheld, hsame⟩)
    | @replied worker now operation reply db hcall hok =>
        simp only [setPc, Function.update_apply] at hheld
        split at hheld
        · rcases Pc.work?_returned hcall hheld with hbefore | ⟨rfl, rfl⟩
          · exact .inl (.inr ⟨worker, held, hbefore, hsame⟩)
          · obtain ⟨request, hrequest, heq⟩ := map_ok hok
            cases heq
            exact .inr ⟨rfl, held, hrequest, hsame⟩
        · exact .inl (.inr ⟨other, held, hheld, hsame⟩)
    | @raised worker _ _ _ _ _ _ =>
        simp only [setPc, Function.update_apply] at hheld
        split at hheld
        · exact .inl (.inr ⟨worker, held, Pc.work?_raised hheld, hsame⟩)
        · exact .inl (.inr ⟨other, held, hheld, hsame⟩)
    | @submit worker work hpc =>
        simp only [setPc, Function.update_apply] at hheld
        split at hheld
        · exact .inl (.inr ⟨worker, held, by rw [hpc]; exact hheld, hsame⟩)
        · exact .inl (.inr ⟨other, held, hheld, hsame⟩)
    | @runner worker _ _ _ hpc =>
        simp only [setPc, Function.update_apply] at hheld
        split at hheld
        · exact .inl (.inr ⟨worker, held, Pc.work?_answered hpc hheld, hsame⟩)
        · exact .inl (.inr ⟨other, held, hheld, hsame⟩)
    | crash =>
        simp only [setPc, Function.update_apply] at hheld
        split at hheld
        · cases hheld
        · exact .inl (.inr ⟨other, held, hheld, hsame⟩)

/-- The attempt is live, or it has completed its task, which has stayed so. -/
def Counts (db : Db) (record : Lineage) (row : Attempt) : Prop :=
  row.state.live = true ∨ ∃ task, db.task? row.runId row.nodeId = some task ∧
    task.state = .succeeded ∧ record.succeededBy (row.runId, row.nodeId) = some row.id

omit [DecidableEq ι] in
/-- A task is completed once, under the lease of an attempt whose job the worker has
launched. -/
theorem completes_spec {lease : TaskLease} (h : s.completes profile label = some lease) :
    (∃ row, s.db.Leased lease row) ∧
    (∀ task, s.db.task? lease.runId lease.nodeId = some task → task.state ≠ .succeeded) ∧
    ∃ worker, (s.pcs worker).lease? = some lease ∧ (s.pcs worker).launched = true := by
  cases label with
  | engine worker now fault =>
      cases fault with
      | some error => cases h
      | none =>
          simp only [completes] at h
          split at h
          · next held result hcall =>
              split at h
              · next hcompletes =>
                  cases h
                  obtain ⟨hopen, hok⟩ := hcompletes
                  refine ⟨?_, fun task htask => by simpa [htask] using hopen, worker,
                    Pc.call_completeTask hcall⟩
                  cases hresult : completeTask s.db now lease result with
                  | error error => simp [hresult, Except.isOk, Except.toBool] at hok
                  | ok db =>
                      obtain ⟨task, htask, hsucceeded, -⟩ | ⟨_, row, _, _, _, _, _, _, _, hleased,
                        -⟩ := completeTask_ok hresult
                      · simp [htask, hsucceeded] at hopen
                      · exact ⟨row, hleased⟩
              · cases h
          · cases h
  | _ => cases h

/-- A step is a guarded transition of the database, and it records the
completions. -/
theorem guarded_step (hstep : Step profile s label s')
    (hguard : s.lifted profile keepsLineage label = true) :
    ∃ operation now, keepsLineage s.db (operation, now) = true ∧
      s.db.Transition now operation s'.db ∧
      ∀ lease result task, operation = .completeTask lease result →
        s.db.task? lease.runId lease.nodeId = some task → task.state = .running →
        s.completes profile label = some lease := by
  have hquiet : ∀ db, db = s.db → ∃ operation now, keepsLineage s.db (operation, now) = true ∧
      s.db.Transition now operation db ∧
      ∀ lease result task, operation = .completeTask lease result →
        s.db.task? lease.runId lease.nodeId = some task → task.state = .running →
        s.completes profile label = some lease := by
    rintro _ rfl
    exact ⟨.cancelRun 0, 0, rfl, .refl _ _ _, fun _ _ _ heq => (by cases heq)⟩
  cases hstep with
  | @client operation now hclient =>
      refine ⟨operation, now, by simpa [lifted, operation?] using hguard,
        operation.transition now s.db, ?_⟩
      rintro lease result task rfl
      cases hclient
  | @replied worker now operation reply db hcall hok =>
      refine ⟨operation, now, by simpa [lifted, operation?, hcall] using hguard,
        transition_of_perform hok, ?_⟩
      rintro lease result task rfl htask hrunning
      obtain ⟨stored, hcomplete, -⟩ := map_ok hok
      simp [completes, hcall, htask, hrunning, hcomplete, Except.isOk, Except.toBool]
  | raised _ _ => exact hquiet _ rfl
  | submit _ => exact hquiet _ rfl
  | runner _ => exact hquiet _ rfl
  | crash => exact hquiet _ rfl

omit [DecidableEq ι] in
/-- What counts after a step counted before, and something stands on its parents. -/
theorem counts_before {db : Db} {now : Time} {operation : Operation} (htokens : s.db.Tokens)
    (htransition : s.db.Transition now operation db)
    (hcompletes : ∀ lease result task, operation = .completeTask lease result →
      s.db.task? lease.runId lease.nodeId = some task → task.state = .running →
      s.completes profile label = some lease) {row row' : Attempt}
    (hrow : row ∈ s.db.taskAttempts.rows) (hchange : s.db.AttemptChange now operation row row')
    (h : Counts db (s.lineage profile label record) row') :
    Counts s.db record row ∧ s.db.StandsOn db row.runId row.nodeId := by
  obtain ⟨hid, hrun, hnode, -⟩ := hchange.keeps
  rcases h with hlive | ⟨task', htask', hsucceeded, hwinner⟩
  · have hwaslive := hchange.live htokens hlive
    exact ⟨.inl hwaslive, .inl ⟨row, hrow, rfl, rfl, hwaslive⟩⟩
  rw [hrun, hnode] at htask' hwinner
  obtain ⟨htaskRun, htaskNode⟩ := Db.place_of_task? htask'
  have hmem := Table.mem_of_row? htask'
  refine ⟨?_, .inr ⟨task', hmem, htaskRun, htaskNode, hsucceeded⟩⟩
  by_cases hown : ∃ lease, s.completes profile label = some lease ∧
      (lease.runId, lease.nodeId) = (row.runId, row.nodeId)
  · -- the attempt completes its task in this step
    obtain ⟨lease, hlease, hplace⟩ := hown
    obtain ⟨⟨held, hleased⟩, -⟩ := completes_spec hlease
    simp only [lineage, hlease, hplace, Function.update_self, Option.some.injEq] at hwinner
    have hsame : held = row := s.db.taskAttempts.eq_of_key_eq (Table.mem_of_row? hleased.found)
      hrow ((Db.id_of_attempt? hleased.found).trans (hwinner.trans hid))
    exact .inl (by rw [← hsame]; exact htokens.held_live hleased)
  · have hkept : record.succeededBy (row.runId, row.nodeId) = some row.id := by
      rw [← hid, ← hwinner]
      cases hlease : s.completes profile label with
      | none => simp only [lineage, hlease]
      | some lease =>
          simp only [lineage, hlease]
          rw [Function.update_of_ne]
          exact fun hplace => hown ⟨lease, hlease, hplace.symm⟩
    obtain ⟨task, htask, hsameRun, hsameNode, htaskChange⟩ | ⟨run, tasks, hadds, hadded⟩ :=
      htransition.taskChanges.new task' hmem
    · have hfound : s.db.task? row.runId row.nodeId = some task := by
        rw [← htaskRun, ← htaskNode, hsameRun, hsameNode]
        exact Table.row?_of_mem htask
      rcases htaskChange.outputs with ⟨-, hstate⟩ |
        ⟨lease, result, _, _, heq, hplace, hrunning, -⟩ | ⟨_, _, -, -, -, hpending⟩
      · exact .inr ⟨task, hfound, hstate hsucceeded, hkept⟩
      · obtain ⟨hleaseRun, hleaseNode⟩ := Db.place_of_task? hplace
        exact absurd ⟨lease, hcompletes lease result task heq hplace hrunning, by
          rw [← hleaseRun, ← hleaseNode, ← hsameRun, ← hsameNode, htaskRun, htaskNode]⟩ hown
      · rw [hpending] at hsucceeded
        cases hsucceeded
    · obtain ⟨submitted, -, -, -, hsubmits, -⟩ := hadds.submits
      rw [(hsubmits.pending task' hadded).2] at hsucceeded
      cases hsucceeded

theorem holds_of_taskRequest {db : Db} {lease : TaskLease} {request : TaskRequest}
    (h : taskRequest db lease = .ok request) : ∃ row, db.Holds lease row := by
  simp only [taskRequest, bind, Except.bind] at h
  split at h
  · cases h
  · next row hrow => exact ⟨row, assertLease_eq_ok.mp hrow⟩

/-- What counts reflects the recorded outputs of its parents, and every succeeded
task was completed by an attempt that was given inputs. -/
structure Traced (s : Workers ι) (record : Lineage) : Prop where
  known : ∀ attemptId inputs, Handed s record attemptId inputs →
    ∃ row, s.db.attempt? attemptId = some row
  reflects : ∀ row ∈ s.db.taskAttempts.rows, Counts s.db record row → ∀ inputs,
    Handed s record row.id inputs → s.db.Reflects row.runId row.nodeId inputs
  winners : ∀ task ∈ s.db.tasks.rows, task.state = .succeeded →
    ∃ row ∈ s.db.taskAttempts.rows, row.runId = task.runId ∧ row.nodeId = task.nodeId ∧
      record.succeededBy (task.runId, task.nodeId) = some row.id ∧ record.Gave row.id

namespace Traced

variable (h : Traced s record) (hstep : Step profile s label s')

include h hstep

theorem known_step {db : Db} {now : Time} {operation : Operation} (hdb : s'.db = db)
    (htransition : s.db.Transition now operation db) :
    ∀ attemptId inputs, Handed s' (s.lineage profile label record) attemptId inputs →
      ∃ row, s'.db.attempt? attemptId = some row := by
  intro attemptId inputs hhanded
  have hknown : ∃ row, s.db.attempt? attemptId = some row := by
    rcases handed_cases hstep hhanded with hold | ⟨-, work, hrequest, hsame⟩
    · exact h.known attemptId inputs hold
    · obtain ⟨row, hholds⟩ := holds_of_taskRequest hrequest
      obtain ⟨rfl, -⟩ := Prod.mk.inj hsame
      exact ⟨row, hholds.found⟩
  obtain ⟨row, hrow⟩ := hknown
  obtain ⟨row', hrow', hid, -⟩ := htransition.attemptChanges.old row (Table.mem_of_row? hrow)
  rw [hdb, ← Db.id_of_attempt? hrow, ← hid]
  exact ⟨row', Table.row?_of_mem hrow'⟩

theorem step (hintegrity : s.db.Integrity) (htokens : s.db.Tokens) (hgrounded : s.db.Grounded)
    (hlaunches : Launches s record) (hguard : s.lifted profile keepsLineage label = true) :
    Traced s' (s.lineage profile label record) := by
  obtain ⟨operation, now, hkeeps, htransition, hcompletes⟩ := guarded_step hstep hguard
  refine ⟨h.known_step hstep rfl htransition, ?_, ?_⟩
  · intro row' hrow' hcounts inputs hhanded
    obtain ⟨row, hrow, hid, hchange⟩ | hadded := htransition.attemptChanges.new row' hrow'
    · obtain ⟨hbefore, hstands⟩ :=
        counts_before htokens htransition hcompletes hrow hchange hcounts
      obtain ⟨owner, howner⟩ := hintegrity.attemptRun hrow
      obtain ⟨-, hrun, hnode, -⟩ := hchange.keeps
      rw [hrun, hnode]
      have hreflects : s.db.Reflects row.runId row.nodeId inputs := by
        rw [hid] at hhanded
        rcases handed_cases hstep hhanded with hold | ⟨-, work, hrequest, hsame⟩
        · exact h.reflects row hrow hbefore inputs hold
        · obtain ⟨held, hholds⟩ := holds_of_taskRequest hrequest
          obtain ⟨hattempt, rfl⟩ := Prod.mk.inj hsame
          have hsame : held = row := s.db.taskAttempts.eq_of_key_eq
            (Table.mem_of_row? hholds.found) hrow
            ((Db.id_of_attempt? hholds.found).trans hattempt)
          rw [← hsame]
          exact hgrounded.request hholds (htokens.held_live hholds.toLeased) hrequest
      exact hreflects.step hintegrity howner hkeeps htransition hstands
    · -- a fresh attempt has nothing in hand
      exfalso
      have hfresh : s.db.uuids < row'.id := by
        cases hadded with
        | started _ => exact Nat.lt_succ_self _
      rcases handed_cases hstep hhanded with hold | ⟨hsameDb, -⟩
      · obtain ⟨known, hknown⟩ := h.known row'.id inputs hold
        have hlow := htokens.ids known (Table.mem_of_row? hknown)
        rw [Db.id_of_attempt? hknown] at hlow
        exact lt_asymm hfresh hlow
      · rw [hsameDb] at hrow'
        exact lt_asymm hfresh (htokens.ids row' hrow')
  · intro task' htask' hsucceeded
    obtain ⟨task, htask, hrun, hnode, hchange⟩ | ⟨run, tasks, hadds, hadded⟩ :=
      htransition.taskChanges.new task' htask'
    · have hcarry : ∀ row ∈ s.db.taskAttempts.rows, row.runId = task.runId →
          row.nodeId = task.nodeId → (s.lineage profile label record).succeededBy
            (task.runId, task.nodeId) = some row.id → record.Gave row.id →
          ∃ row' ∈ s'.db.taskAttempts.rows, row'.runId = task'.runId ∧
            row'.nodeId = task'.nodeId ∧ (s.lineage profile label record).succeededBy
              (task'.runId, task'.nodeId) = some row'.id ∧
            (s.lineage profile label record).Gave row'.id := by
        intro row hrow hrowRun hrowNode hwinner hgave
        obtain ⟨row', hrow', hid, hrowChange⟩ := htransition.attemptChanges.old row hrow
        obtain ⟨-, hkeptRun, hkeptNode, -⟩ := hrowChange.keeps
        refine ⟨row', hrow', by rw [hkeptRun, hrowRun, hrun], by rw [hkeptNode, hrowNode, hnode],
          by rw [hrun, hnode, hid, hwinner], ?_⟩
        rw [hid]
        exact gave_lineage hgave
      rcases hchange.outputs with ⟨-, hstate⟩ |
        ⟨lease, result, _, _, heq, hplace, hrunning, -⟩ | ⟨_, _, -, -, -, hpending⟩
      · have hwas := hstate hsucceeded
        obtain ⟨row, hrow, hrowRun, hrowNode, hwinner, hgave⟩ := h.winners task htask hwas
        refine hcarry row hrow hrowRun hrowNode ?_ hgave
        rw [← hwinner]
        cases hlease : s.completes profile label with
        | none => simp only [lineage, hlease]
        | some lease =>
            simp only [lineage, hlease]
            rw [Function.update_of_ne]
            intro hplace
            obtain ⟨hleaseRun, hleaseNode⟩ := Prod.mk.inj hplace
            have hfound : s.db.task? task.runId task.nodeId = some task :=
              Table.row?_of_mem htask
            rw [hleaseRun, hleaseNode] at hfound
            exact (completes_spec hlease).2.1 task hfound hwas
      · have hlease := hcompletes lease result task heq hplace hrunning
        obtain ⟨⟨row, hleased⟩, -, worker, hown, hlaunched⟩ := completes_spec hlease
        obtain ⟨hplaceRun, hplaceNode⟩ := Db.place_of_task? hplace
        have hid := Db.id_of_attempt? hleased.found
        refine hcarry row (Table.mem_of_row? hleased.found) (hleased.runId.trans hplaceRun.symm)
          (hleased.nodeId.trans hplaceNode.symm) ?_ ?_
        · simp only [lineage, hlease, hplaceRun, hplaceNode, Function.update_self, hid]
        · rw [hid]
          exact hlaunches.points worker lease hown hlaunched
      · rw [hpending] at hsucceeded
        cases hsucceeded
    · obtain ⟨submitted, -, -, -, hsubmits, -⟩ := hadds.submits
      rw [(hsubmits.pending task' hadded).2] at hsucceeded
      cases hsucceeded

end Traced

theorem traced {s : Workers ι × Lineage} (h : (lineageSystem profile).Reachable
    (fun s label => s.1.lifted profile keepsLineage label = true) s) :
    Launches s.1 s.2 ∧ Traced s.1 s.2 := by
  refine h.invariant (fun s => Launches s.1 s.2 ∧ Traced s.1 s.2) (fun s hs => ?_)
    fun s label s' hreach hinv hguard hnext => ?_
  · obtain ⟨s, record⟩ := s
    obtain ⟨hinitial, rfl⟩ := hs
    cases hinitial
    exact ⟨⟨fun _ hrow => (by cases hrow), fun _ _ hlease => (by cases hlease),
      fun _ _ hlease => (by cases hlease)⟩, ⟨fun _ _ hhanded => (by
        rcases hhanded with hnone | ⟨_, _, hnone, -⟩ <;> cases hnone),
      fun _ hrow => (by cases hrow), fun _ htask => (by cases htask)⟩⟩
  · obtain ⟨hlaunches, htraced⟩ := hinv
    obtain ⟨hstep, hrecord⟩ := TransitionSystem.instrument_step hnext
    have hstep := step_cases hstep
    have hworkers : (workerSystem profile).Reachable
        (fun s label => s.lifted profile keepsLineage label = true) s.1 :=
      TransitionSystem.Reachable.of_instrument hreach
    rw [hrecord]
    exact ⟨hlaunches.step hstep, htraced.step hstep (integrity hworkers) (tokens hworkers)
      (engine_grounded (engine_reachable_lifted hworkers)) hlaunches hguard⟩

/-- Every succeeded task was computed from the outputs that its parents, which have
succeeded, record now: its attempt was given them when the job was launched. -/
def LineageKept (db : Db) (record : Lineage) : Prop :=
  ∀ task ∈ db.tasks.rows, task.state = .succeeded → ∃ attempt ∈ db.taskAttempts.rows,
    attempt.runId = task.runId ∧ attempt.nodeId = task.nodeId ∧
    record.succeededBy (task.runId, task.nodeId) = some attempt.id ∧
    (∃ inputs, (attempt.id, inputs) ∈ record.given) ∧
    ∀ inputs, (attempt.id, inputs) ∈ record.given →
      db.Reflects task.runId task.nodeId inputs

/-- While a retry finds no live attempt downstream and no succeeded task is canceled
or reopened, the lineage is kept. -/
theorem lineage_kept {s : Workers ι × Lineage} (h : (lineageSystem profile).Reachable
    (fun s label => s.1.lifted profile keepsLineage label = true) s) :
    LineageKept s.1.db s.2 := by
  intro task htask hsucceeded
  obtain ⟨-, htraced⟩ := traced h
  obtain ⟨row, hrow, hrun, hnode, hwinner, hgave⟩ := htraced.winners task htask hsucceeded
  refine ⟨row, hrow, hrun, hnode, hwinner, hgave, fun inputs hgiven => ?_⟩
  have hcounts : Counts s.1.db s.2 row := by
    refine .inr ⟨task, ?_, hsucceeded, by rw [hrun, hnode, hwinner]⟩
    rw [hrun, hnode]
    exact Table.row?_of_mem htask
  have hreflects := htraced.reflects row hrow hcounts inputs (.inl hgiven)
  rwa [hrun, hnode] at hreflects

/-- A worker claims a pending task and the job has ended when `submit` returns. -/
def finishedJob (worker : Fin 2) (start : Time) : List (WorkerLabel (Fin 2)) :=
  engineSteps worker start 4 ++
    [.submit worker, .runner worker 0 (.submitted { handle := "42", state := "succeeded" })] ++
    engineSteps worker (start + 4) 2 ++ [.runner worker 0 (.result sampleResult)] ++
    engineSteps worker (start + 6) 2 ++ [.runner worker 0 .done] ++
    engineSteps worker (start + 8) 1

/-- The first task of the chain is retried before the second is claimed. -/
def settledLineage : List (WorkerLabel (Fin 2)) :=
  clientSteps chainSubmission ++ finishedJob 0 1 ++ [.client (.retryTask 0 "a") 10] ++
    finishedJob 1 11 ++ finishedJob 0 20

theorem lineage_kept_settledLineage :
    let profile := sampleProfile .async
    let s := (lineageSystem profile).after (fun s => s.1.lifted profile keepsLineage) ({}, {})
      settledLineage
    s.1.db.tasks.rows.map (fun task => (task.nodeId, task.state, task.attempt)) =
        [("a", .succeeded, 2), ("b", .succeeded, 1)] ∧ LineageKept s.1.db s.2 :=
  ⟨by decide, lineage_kept ((TransitionSystem.Reachable.initial
    (T := lineageSystem (sampleProfile .async)) (s := ({}, {})) ⟨rfl, rfl⟩).after
      settledLineage)⟩

/-- The first task of the chain is retried while the job of the second is polled.
Its first attempt is recovered after the second one has started, and completes. -/
def staleInputs : List (WorkerLabel (Fin 2)) :=
  clientSteps chainSubmission ++ finishedJob 0 1 ++ engineSteps 0 10 4 ++
    [.submit 0, .runner 0 0 sampleJob] ++ engineSteps 0 14 6 ++
    [.client (.retryTask 0 "a") 20] ++ finishedJob 1 21 ++ engineSteps 1 30 1 ++
    [.runner 0 0 (.status { state := "running" })] ++ engineSteps 0 31 6 ++
    [.runner 0 0 (.status { state := "succeeded" })] ++ engineSteps 0 37 2 ++
    [.runner 0 0 (.result sampleResult)] ++ engineSteps 0 39 2 ++ [.runner 0 0 .done] ++
    engineSteps 0 41 1

/-- The run has succeeded, with a result computed from an output that the retry has
replaced. -/
theorem lineage_broken :
    let s := (lineageSystem (sampleProfile .async)).after (fun _ _ => true) ({}, {}) staleInputs
    s.1.db.runs.rows.map Run.state = [.succeeded] ∧
    s.1.db.tasks.rows.map (fun task =>
        (task.runId, task.nodeId, task.state, task.outputs.rows)) =
      [(0, "a", .succeeded, [("out", 9)]), (0, "b", .succeeded, [("out", 13)])] ∧
    s.2.succeededBy (0, "b") = some 5 ∧
    s.2.given.map (fun item => (item.1, item.2.rows.map fun input => (input.1, input.2.id))) =
      [(2, []), (5, [("in", 3)]), (8, [])] ∧ ¬ LineageKept s.1.db s.2 := by
  intro s
  have hedges : (s.1.db.definition? 0).map Workflow.edges = some chainWorkflow.edges := by decide
  have htasks : s.1.db.tasks.rows.map (fun task =>
      (task.runId, task.nodeId, task.state, task.outputs.rows)) =
        [(0, "a", .succeeded, [("out", 9)]), (0, "b", .succeeded, [("out", 13)])] := by decide
  have hwinner : s.2.succeededBy (0, "b") = some 5 := by decide
  have hgiven : s.2.given.map (fun item =>
      (item.1, item.2.rows.map fun input => (input.1, input.2.id))) =
        [(2, []), (5, [("in", 3)]), (8, [])] := by decide
  refine ⟨by decide, htasks, hwinner, hgiven, fun h => ?_⟩
  clear_value s
  have htask : (0, "b", TaskState.succeeded, [("out", 13)]) ∈ s.1.db.tasks.rows.map (fun task =>
      (task.runId, task.nodeId, task.state, task.outputs.rows)) := by
    rw [htasks]
    exact List.mem_cons_of_mem _ List.mem_cons_self
  obtain ⟨task, hmem, htask⟩ := List.mem_map.mp htask
  simp only [Prod.mk.injEq] at htask
  obtain ⟨attempt, -, -, -, hattempt, -, hreflects⟩ := h task hmem htask.2.2.1
  rw [htask.1, htask.2.1] at hattempt hreflects
  have hgave : (5, [("in", 3)]) ∈ s.2.given.map (fun item =>
      (item.1, item.2.rows.map fun input => (input.1, input.2.id))) := by
    rw [hgiven]
    exact List.mem_cons_of_mem _ List.mem_cons_self
  obtain ⟨⟨attemptId, inputs⟩, hrecorded, hinputs⟩ := List.mem_map.mp hgave
  obtain ⟨rfl, hinputs⟩ := Prod.mk.inj hinputs
  obtain ⟨definition, hdefinition, hsame⟩ := Option.map_eq_some_iff.mp hedges
  have hsole : definition.SoleEdge ⟨⟨"a", "out", "data@1"⟩, ⟨"b", "in", "data@1"⟩⟩ := by
    rw [Workflow.SoleEdge, hsame]
    decide
  rw [← Option.some.inj (hwinner.symm.trans hattempt)] at hreflects
  obtain ⟨parent, record, hparent, -, houtput, hinput⟩ :=
    hreflects inputs hrecorded definition hdefinition _ hsole rfl
  -- the artifact that was given is not the one that is recorded
  have hnew : record.id = 9 := by
    obtain ⟨hrun, hnode⟩ := Db.place_of_task? hparent
    have hrow := List.mem_map_of_mem (f := fun task : Task =>
      (task.runId, task.nodeId, task.state, task.outputs.rows)) (Table.mem_of_row? hparent)
    rw [htasks] at hrow
    have hout := Table.mem_of_row? houtput
    simp [hrun, hnode] at hrow
    simpa [hrow.2] using hout
  have hold : record.id = 3 := by
    have hin := List.mem_map_of_mem (f := fun input : String × ArtifactRecord =>
      (input.1, input.2.id)) (Table.mem_of_row? hinput)
    rw [hinputs] at hin
    simpa using hin
  rw [hnew] at hold
  cases hold

end Workers

end QhpcEcosystem
