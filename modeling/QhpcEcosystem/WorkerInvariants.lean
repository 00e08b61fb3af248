/-
Invariants of the workers.  A lease belongs to one worker at a time, and while
it is valid the row of its attempt is as the program point of that worker says:
only the cancellation of the run can interfere, and only before a target handle
is recorded.
-/
import QhpcEcosystem.AttemptChange
import QhpcEcosystem.LateCancellation
import QhpcEcosystem.Worker

namespace QhpcEcosystem

/-! ## Leases of program points -/

namespace Pc

variable {pc pc' : Pc} {profile : WorkerProfile} {lease : TaskLease}

theorem lease?_raised {error : Exn} (h : (pc.raised error).lease? = some lease) :
    pc.lease? = some lease := by
  cases pc with
  | finalizeRaised work ending _ _ => cases ending <;> first | exact h | cases h
  | finish work ending => cases ending <;> first | exact h | cases h
  | _ => first | exact h | cases h

theorem lease?_answered {elapsed : Nat} {reply : RunnerReply}
    (h : pc.answered elapsed reply = some pc') : pc'.lease? = pc.lease? := by
  cases pc <;> cases reply <;> cases h <;> rfl

theorem afterState_cases (work : Work) (state : AttemptState) :
    (∃ handle, work.lease.targetHandle = some handle ∧
      (state = .cancelRequested ∧ afterState work state = .cancel work handle ∨
        state ≠ .cancelRequested ∧ afterState work state = .poll work handle)) ∨
    work.lease.targetHandle = none ∧
      (state = .cancelRequested ∧ afterState work state = .withdrawn work ∨
        state ≠ .cancelRequested ∧ afterState work state = .marking work) := by
  unfold afterState
  split
  · next handle hhandle =>
      refine .inl ⟨handle, hhandle, ?_⟩
      split
      · next hstate => exact .inl ⟨hstate, rfl⟩
      · next hstate => exact .inr ⟨hstate, rfl⟩
  · next hhandle =>
      refine .inr ⟨hhandle, ?_⟩
      split
      · next hstate => exact .inl ⟨hstate, rfl⟩
      · next hstate => exact .inr ⟨hstate, rfl⟩

theorem afterSubmission_cases (work : Work) (submission : TargetSubmission)
    (state : AttemptState) :
    state = .cancelRequested ∧
        afterSubmission work submission state = .cancel work submission.handle ∨
      submission.state = "succeeded" ∧
        afterSubmission work submission state = .collect work submission.handle ∨
      (submission.state = "failed" ∨ submission.state = "canceled") ∧
        (∃ error, afterSubmission work submission state = .finalize work (.failed error)) ∨
      afterSubmission work submission state = .release work := by
  unfold afterSubmission
  split
  · next hstate => exact .inl ⟨hstate, rfl⟩
  · split
    · next hdone => exact .inr (.inl ⟨hdone, rfl⟩)
    · split
      · next hended => exact .inr (.inr (.inl ⟨by simpa using hended, _, rfl⟩))
      · exact .inr (.inr (.inr rfl))

theorem afterStatus_cases (work : Work) (handle : String) (status : TargetStatus) :
    status.state = "succeeded" ∧ afterStatus work handle status = .collect work handle ∨
      (status.state = "failed" ∨ status.state = "canceled") ∧
        (∃ error, afterStatus work handle status = .finalize work (.failed error)) ∨
      afterStatus work handle status = .release work := by
  unfold afterStatus
  split
  · next hdone => exact .inl ⟨hdone, rfl⟩
  · split
    · next hfailed => exact .inr (.inl ⟨.inl hfailed, _, rfl⟩)
    · split
      · next hcanceled => exact .inr (.inl ⟨.inr hcanceled, _, rfl⟩)
      · exact .inr (.inr rfl)

theorem lease?_afterState (work : Work) (state : AttemptState) :
    (afterState work state).lease? = some work.lease := by
  obtain ⟨_, -, ⟨-, heq⟩ | ⟨-, heq⟩⟩ | ⟨-, ⟨-, heq⟩ | ⟨-, heq⟩⟩ :=
    afterState_cases work state <;> rw [heq] <;> rfl

theorem lease?_afterSubmission (work : Work) (submission : TargetSubmission)
    (state : AttemptState) :
    (afterSubmission work submission state).lease? = some work.lease := by
  obtain ⟨-, heq⟩ | ⟨-, heq⟩ | ⟨-, _, heq⟩ | heq :=
    afterSubmission_cases work submission state <;> rw [heq] <;> rfl

theorem lease?_afterStatus (work : Work) (handle : String) (status : TargetStatus) :
    (afterStatus work handle status).lease? = some work.lease := by
  obtain ⟨-, heq⟩ | ⟨-, _, heq⟩ | heq := afterStatus_cases work handle status <;>
    rw [heq] <;> rfl

/-- A worker keeps its lease until it is idle, and gets one by a claim. -/
theorem lease?_returned {reply : Reply}
    (h : (pc.returned profile reply).lease? = some lease) :
    pc.lease? = some lease ∨ pc = .idle ∧ reply = .claimed (some lease) := by
  cases pc with
  | idle =>
      simp only [returned] at h
      split at h <;> cases h <;> exact .inr ⟨rfl, rfl⟩
  | claimed held =>
      simp only [returned] at h
      split at h
      · exact .inl h
      · cases h
  | requesting held =>
      simp only [returned] at h
      split at h
      · exact .inl h
      · cases h
  | requested work =>
      simp only [returned] at h
      split at h
      · rw [lease?_afterState] at h
        exact .inl h
      · cases h
  | recording work submission =>
      simp only [returned] at h
      split at h
      · rw [lease?_afterSubmission] at h
        exact .inl h
      · cases h
  | observing work handle status =>
      simp only [returned, lease?_afterStatus] at h
      exact .inl h
  | _ => first | exact .inl h | cases h

/-- The call at a program point bears its lease. -/
theorem lease?_call {operation : Operation} (h : pc.call profile = some operation) :
    operation.lease? = pc.lease? := by
  cases pc with
  | finish work ending => cases ending <;> cases h <;> rfl
  | _ => cases h <;> rfl

section Calls

variable {targetHandle targetState : String} {metadata : Metadata}

theorem call_markSubmitting (h : pc.call profile = some (.markSubmitting lease)) :
    ∃ work, pc = .marking work ∧ work.lease = lease := by
  cases pc with
  | finish work ending => cases ending <;> cases h
  | marking work =>
      cases h
      exact ⟨work, rfl, rfl⟩
  | _ => cases h

theorem call_recordSubmission
    (h : pc.call profile = some (.recordSubmission lease targetHandle targetState metadata)) :
    ∃ work submission, pc = .recording work submission ∧ work.lease = lease := by
  cases pc with
  | finish work ending => cases ending <;> cases h
  | recording work submission =>
      cases h
      exact ⟨work, submission, rfl, rfl⟩
  | _ => cases h

theorem call_recordTargetStatus
    (h : pc.call profile = some (.recordTargetStatus lease targetState metadata)) :
    ∃ work handle status, pc = .observing work handle status ∧ work.lease = lease := by
  cases pc with
  | finish work ending => cases ending <;> cases h
  | observing work handle status =>
      cases h
      exact ⟨work, handle, status, rfl, rfl⟩
  | _ => cases h

theorem call_releaseLease (h : pc.call profile = some (.releaseLease lease)) :
    ∃ work, pc = .release work ∧ work.lease = lease := by
  cases pc with
  | finish work ending => cases ending <;> cases h
  | release work =>
      cases h
      exact ⟨work, rfl, rfl⟩
  | _ => cases h

/-- No worker makes a call of clients. -/
theorem call_isClient {operation : Operation} (h : pc.call profile = some operation) :
    operation.isClient = false := by
  cases pc with
  | finish work ending => cases ending <;> cases h <;> rfl
  | _ => cases h <;> rfl

end Calls

end Pc

variable {ι : Type} {profile : ι → WorkerProfile}

/-! ## One worker for each lease -/

namespace Workers

/-- The leases that workers bear are different ones, each names an attempt, and
an attempt under its token is that attempt, leased to that worker. -/
structure Leases (db : Db) (pcs : ι → Pc) : Prop where
  drawn : ∀ worker lease, (pcs worker).lease? = some lease → lease.token < db.uuids
  distinct : ∀ worker other lease lease', (pcs worker).lease? = some lease →
    (pcs other).lease? = some lease' → lease.token = lease'.token → worker = other
  attempt : ∀ worker lease, (pcs worker).lease? = some lease → ∃ row,
    db.attempt? lease.attemptId = some row ∧ row.runId = lease.runId ∧
      row.nodeId = lease.nodeId ∧ row.number = lease.attemptNumber
  bearer : ∀ worker lease, (pcs worker).lease? = some lease →
    ∀ row ∈ db.taskAttempts.rows, row.leaseToken = some lease.token →
      row.id = lease.attemptId ∧ row.workerId = some lease.workerId

namespace Leases

variable {db db' : Db} {pcs : ι → Pc} (h : Leases db pcs)

include h

/-- A row under the token of a worker is the row that its lease names. -/
theorem holds {worker : ι} {lease : TaskLease} (hlease : (pcs worker).lease? = some lease)
    {row : Attempt} (hrow : row ∈ db.taskAttempts.rows)
    (htoken : row.leaseToken = some lease.token) : db.Holds lease row := by
  obtain ⟨hid, hworker⟩ := h.bearer worker lease hlease row hrow htoken
  obtain ⟨found, hfound, hrun, hnode, -⟩ := h.attempt worker lease hlease
  obtain rfl : found = row :=
    db.taskAttempts.eq_of_key_eq (Table.mem_of_row? hfound) hrow
      ((Db.id_of_attempt? hfound).trans hid.symm)
  exact ⟨⟨hfound, hrun, hnode, htoken⟩, hworker⟩

/-- A change of the database alone. -/
theorem transition {now : Time} {operation : Operation}
    (htransition : db.Transition now operation db') : Leases db' pcs := by
  have hchanges := htransition.attemptChanges
  refine ⟨fun worker lease hlease =>
    (h.drawn worker lease hlease).trans_le htransition.grows.uuids, h.distinct, ?_, ?_⟩
  · intro worker lease hlease
    obtain ⟨row, hrow, hrun, hnode, hnumber⟩ := h.attempt worker lease hlease
    obtain ⟨row', hrow', hid, hchange⟩ := hchanges.old row (Table.mem_of_row? hrow)
    obtain ⟨-, hrun', hnode', hnumber', -⟩ := hchange.keeps
    have hfound := Table.row?_of_mem hrow'
    rw [Attempt.key_eq, hid, Db.id_of_attempt? hrow] at hfound
    exact ⟨row', hfound, hrun'.trans hrun, hnode'.trans hnode, hnumber'.trans hnumber⟩
  · intro worker lease hlease row' hrow' htoken
    have hdrawn := h.drawn worker lease hlease
    obtain ⟨row, hrow, hid, hchange⟩ | hadded := hchanges.new row' hrow'
    · obtain ⟨htoken', hworker⟩ := hchange.bearer htoken hdrawn
      obtain ⟨hid', hworker'⟩ := h.bearer worker lease hlease row hrow htoken'
      exact ⟨hid.trans hid', hworker.trans hworker'⟩
    · cases hadded with
      | started _ =>
          have htoken : some db.uuids = some lease.token := htoken
          rw [Option.some.injEq] at htoken
          grind

variable [DecidableEq ι]

/-- A worker that goes on under its lease or gives it up. -/
theorem setPc {worker : ι} {pc : Pc}
    (hpc : ∀ lease, pc.lease? = some lease → (pcs worker).lease? = some lease) :
    Leases db (Function.update pcs worker pc) := by
  have hold : ∀ other lease, (Function.update pcs worker pc other).lease? = some lease →
      (pcs other).lease? = some lease := by
    intro other lease hlease
    rw [Function.update_apply] at hlease
    split at hlease
    · next hsame =>
        rw [hsame]
        exact hpc lease hlease
    · exact hlease
  exact ⟨fun other lease hlease => h.drawn other lease (hold other lease hlease),
    fun other other' lease lease' hlease hlease' =>
      h.distinct other other' lease lease' (hold _ _ hlease) (hold _ _ hlease'),
    fun other lease hlease => h.attempt other lease (hold other lease hlease),
    fun other lease hlease => h.bearer other lease (hold other lease hlease)⟩

/-- A worker that has claimed an attempt under a fresh token. -/
theorem claim {worker : ι} {pc : Pc} (lease : TaskLease) {row : Attempt}
    (hlease : pc.lease? = some lease) (hfresh : ∀ other held,
      (pcs other).lease? = some held → held.token < lease.token)
    (hdrawn : lease.token < db.uuids) (hclaimed : db.Claimed lease row)
    (htokens : db.Tokens) : Leases db (Function.update pcs worker pc) := by
  have hcases : ∀ other held,
      (Function.update pcs worker pc other).lease? = some held →
      other = worker ∧ held = lease ∨ other ≠ worker ∧ (pcs other).lease? = some held := by
    intro other held hheld
    rw [Function.update_apply] at hheld
    split at hheld
    · next hsame =>
        rw [hlease] at hheld
        exact .inl ⟨hsame, (Option.some.inj hheld).symm⟩
    · next hother => exact .inr ⟨hother, hheld⟩
  refine ⟨?_, ?_, ?_, ?_⟩
  · intro other held hheld
    obtain ⟨-, rfl⟩ | ⟨-, hheld⟩ := hcases other held hheld
    · exact hdrawn
    · exact h.drawn other held hheld
  · intro other other' held held' hheld hheld' htoken
    obtain ⟨hsame, rfl⟩ | ⟨-, hold⟩ := hcases other held hheld
    · obtain ⟨hsame', -⟩ | ⟨-, hold'⟩ := hcases other' held' hheld'
      · exact hsame.trans hsame'.symm
      · have := hfresh other' held' hold'
        grind
    · obtain ⟨-, rfl⟩ | ⟨-, hold'⟩ := hcases other' held' hheld'
      · have := hfresh other held hold
        grind
      · exact h.distinct other other' held held' hold hold' htoken
  · intro other held hheld
    obtain ⟨-, rfl⟩ | ⟨-, hheld⟩ := hcases other held hheld
    · exact ⟨row, hclaimed.found, hclaimed.runId, hclaimed.nodeId, hclaimed.number⟩
    · exact h.attempt other held hheld
  · intro other held hheld row' hrow' htoken
    obtain ⟨-, rfl⟩ | ⟨-, hheld⟩ := hcases other held hheld
    · obtain rfl := htokens.inj row' hrow' row (Table.mem_of_row? hclaimed.found) _ htoken
        hclaimed.token
      exact ⟨Db.id_of_attempt? hclaimed.found, hclaimed.workerId⟩
    · exact h.bearer other held hheld row' hrow' htoken

end Leases

end Workers

/-! ## Steps -/

variable [DecidableEq ι]

namespace Workers

/-- The possible steps of the system. -/
inductive Step (profile : ι → WorkerProfile) (s : Workers ι) :
    WorkerLabel ι → Workers ι → Prop
  | client {operation : Operation} {now : Time} : operation.isClient = true →
      Step profile s (.client operation now) { s with db := operation.after now s.db }
  | replied {worker : ι} {now : Time} {operation : Operation} {reply : Reply} {db : Db} :
      (s.pcs worker).call (profile worker) = some operation →
      perform s.db now operation = .ok (reply, db) →
      Step profile s (.engine worker now none)
        { s.setPc worker ((s.pcs worker).returned (profile worker) reply) with
          db := db, records := s.records ++ operation.record s.db }
  | raised {worker : ι} {now : Time} {fault : Option Exn} {operation : Operation}
      {error : Exn} : (s.pcs worker).call (profile worker) = some operation →
      fault = some error ∨ fault = none ∧ perform s.db now operation = .error error →
      Step profile s (.engine worker now fault)
        (s.setPc worker ((s.pcs worker).raised error))
  | submit {worker : ι} {work : Work} : s.pcs worker = .submit work →
      Step profile s (.submit worker) { s.setPc worker (.submitting work) with
        records := s.records ++ [.submitStarted work.lease.attemptId work.lease.token] }
  | runner {worker : ι} {elapsed : Nat} {reply : RunnerReply} {pc : Pc} :
      (s.pcs worker).answered elapsed reply = some pc →
      Step profile s (.runner worker elapsed reply)
        { s.setPc worker pc with records := s.records ++ (s.pcs worker).record reply }
  | crash {worker : ι} : Step profile s (.crash worker) (s.setPc worker .idle)

variable {s s' : Workers ι} {label : WorkerLabel ι}

theorem step_cases (h : s.step profile label = some s') : Step profile s label s' := by
  cases label with
  | client operation now =>
      simp only [step] at h
      split at h
      · next hclient =>
          cases h
          exact .client hclient
      · cases h
  | engine worker now fault =>
      simp only [step, callEngine] at h
      split at h
      · cases h
      · next hcall =>
          cases h
          exact .raised hcall (.inl rfl)
      · next hcall =>
          split at h
          · next hraised =>
              cases h
              exact .raised hcall (.inr ⟨rfl, hraised⟩)
          · next hok =>
              cases h
              exact .replied hcall hok
  | submit worker =>
      simp only [step] at h
      split at h
      · next hpc =>
          cases h
          exact .submit hpc
      · cases h
  | runner worker elapsed reply =>
      obtain ⟨pc, hpc, rfl⟩ := Option.map_eq_some_iff.mp h
      exact .runner hpc
  | crash worker =>
      cases h
      exact .crash

end Workers

/-! ## The engine under the workers -/

/-- The engine operation of a step. -/
def Workers.operation? (profile : ι → WorkerProfile) (s : Workers ι) :
    WorkerLabel ι → Option (Operation × Time)
  | .client operation now => some (operation, now)
  | .engine worker now none => ((s.pcs worker).call (profile worker)).map fun call => (call, now)
  | .engine _ _ (some _) | .submit _ | .runner _ _ _ | .crash _ => none

/-- The workers use the engine only by its operations. -/
def workerRefinement (profile : ι → WorkerProfile) :
    TransitionSystem.Refinement (workerSystem profile) engine where
  abs := Workers.db
  label := Workers.operation? profile
  initial s h := by
    cases h
    rfl
  stutter s label s' h hlabel := by
    cases Workers.step_cases h with
    | client _ => cases hlabel
    | replied hcall _ => simp [Workers.operation?, hcall] at hlabel
    | raised _ _ => rfl
    | submit _ => rfl
    | runner _ => rfl
    | crash => rfl
  simulate s label s' k h hlabel := by
    cases Workers.step_cases h with
    | client _ =>
        cases hlabel
        rfl
    | replied hcall hok =>
        simp only [Workers.operation?, hcall, Option.map_some, Option.some.injEq] at hlabel
        subst hlabel
        simp [engine, Operation.after, hok]
    | raised hcall herror =>
        rcases herror with rfl | ⟨rfl, herror⟩
        · cases hlabel
        · simp only [Workers.operation?, hcall, Option.map_some, Option.some.injEq] at hlabel
          subst hlabel
          simp [engine, Operation.after, herror, Workers.setPc]
    | submit _ => cases hlabel
    | runner _ => cases hlabel
    | crash => cases hlabel

namespace Workers

variable {s s' : Workers ι} {label : WorkerLabel ι}
  {guard : Workers ι → WorkerLabel ι → Prop}

theorem engine_reachable (h : (workerSystem profile).Reachable guard s) :
    engine.Reachable TransitionSystem.anyStep s.db :=
  (workerRefinement profile).reachable (fun _ _ _ _ _ => trivial) h

theorem integrity (h : (workerSystem profile).Reachable guard s) : s.db.Integrity :=
  engine_integrity (engine_reachable h)

/-- A step performs an operation of a client or of a worker, or leaves the
database alone. -/
theorem db_step (h : s.step profile label = some s') :
    s'.db = s.db ∨ ∃ operation now, s.operation? profile label = some (operation, now) ∧
      (operation.isClient = true ∨
        ∃ worker, (s.pcs worker).call (profile worker) = some operation) ∧
      s'.db = operation.after now s.db := by
  cases step_cases h with
  | @client operation now hclient => exact .inr ⟨operation, now, rfl, .inl hclient, rfl⟩
  | @replied worker now operation reply db hcall hok =>
      exact .inr ⟨operation, now, by simp [operation?, hcall], .inr ⟨worker, hcall⟩,
        by simp [Operation.after, hok]⟩
  | raised _ _ => exact .inl rfl
  | submit _ => exact .inl rfl
  | runner _ => exact .inl rfl
  | crash => exact .inl rfl

/-- A law of the database that the operations of clients and workers keep. -/
theorem db_invariant (Inv : Db → Prop) (hempty : Inv {})
    (hstep : ∀ (s : Workers ι) label now operation,
      (workerSystem profile).Reachable guard s → Inv s.db → guard s label →
      s.operation? profile label = some (operation, now) →
      operation.isClient = true ∨
        (∃ worker, (s.pcs worker).call (profile worker) = some operation) →
      Inv (operation.after now s.db))
    (h : (workerSystem profile).Reachable guard s) : Inv s.db := by
  refine h.invariant (fun s => Inv s.db) (fun s hs => ?_)
    fun s label s' hreach hinv hguard hnext => ?_
  · cases hs
    exact hempty
  · obtain hsame | ⟨operation, now, hop, hcaller, hafter⟩ := db_step hnext
    · rwa [hsame]
    · rw [hafter]
      exact hstep s label now operation hreach hinv hguard hop hcaller

/-- A condition on the engine operations of the system. -/
def lifted (profile : ι → WorkerProfile) (check : Db → Operation × Time → Bool)
    (s : Workers ι) (label : WorkerLabel ι) : Bool :=
  (s.operation? profile label).all (check s.db)

theorem engine_reachable_lifted {check : Db → Operation × Time → Bool}
    (h : (workerSystem profile).Reachable (fun s label => s.lifted profile check label = true)
      s) : engine.Reachable (fun db label => check db label = true) s.db :=
  (workerRefinement profile).reachable (fun s label k hguard hlabel => by
    have hlabel : s.operation? profile label = some k := hlabel
    simp only [lifted, hlabel, Option.all_some] at hguard
    exact hguard) h

theorem tokens (h : (workerSystem profile).Reachable guard s) : s.db.Tokens :=
  engine_tokens (engine_reachable h)

theorem canceledRuns (h : (workerSystem profile).Reachable guard s) : s.db.CanceledRuns :=
  engine_canceledRuns (engine_reachable h)

/-! ## The steps of a lease -/


omit [DecidableEq ι] in
/-- A worker that holds a lease after a call held it before, or has claimed it. -/
theorem replied_cases {worker : ι} {now : Time} {operation : Operation} {reply : Reply}
    {db : Db} {lease : TaskLease}
    (hcall : (s.pcs worker).call (profile worker) = some operation)
    (hok : perform s.db now operation = .ok (reply, db))
    (hlease : ((s.pcs worker).returned (profile worker) reply).lease? = some lease) :
    (s.pcs worker).lease? = some lease ∧ operation.lease? = some lease ∨
    s.pcs worker = .idle ∧ reply = .claimed (some lease) ∧ lease.token = s.db.uuids ∧
      s.db.uuids < db.uuids ∧ ∃ row, db.Claimed lease row := by
  rcases Pc.lease?_returned hlease with hheld | ⟨hidle, rfl⟩
  · exact .inl ⟨hheld, (Pc.lease?_call hcall).trans hheld⟩
  · rw [hidle] at hcall
    cases hcall
    obtain ⟨⟨claimed, stored⟩, hclaim, heq⟩ := map_ok hok
    cases heq
    obtain ⟨htoken, huuids, hclaimed⟩ := (claimTask_ok hclaim).claimed
    rw [resetExpiredLeases_uuids] at htoken huuids
    exact .inr ⟨hidle, rfl, htoken, huuids, hclaimed⟩

theorem Leases.step (h : Leases s.db s.pcs) (htokens : s.db.Tokens)
    (hstep : Step profile s label s') : Leases s'.db s'.pcs := by
  cases hstep with
  | @client operation now _ => exact h.transition (operation.transition now s.db)
  | @replied worker now operation reply db hcall hok =>
      have htransition := transition_of_perform hok
      have hdb := h.transition htransition
      by_cases hclaimed : ∃ lease row, s.pcs worker = .idle ∧
          reply = .claimed (some lease) ∧ lease.token = s.db.uuids ∧
          s.db.uuids < db.uuids ∧ db.Claimed lease row
      · obtain ⟨lease, row, hidle, rfl, htoken, huuids, hclaimed⟩ := hclaimed
        refine hdb.claim lease ?_ ?_ (by grind) hclaimed (htokens.step htransition)
        · rw [hidle]
          simp only [Pc.returned]
          cases (profile worker).kind <;> rfl
        · intro other held hheld
          have := h.drawn other held hheld
          grind
      · refine hdb.setPc fun lease hlease => ?_
        rcases replied_cases hcall hok hlease with hheld | ⟨h₁, h₂, h₃, h₄, row, h₅⟩
        · exact hheld.1
        · exact absurd ⟨lease, row, h₁, h₂, h₃, h₄, h₅⟩ hclaimed
  | raised _ _ => exact h.setPc fun lease hlease => Pc.lease?_raised hlease
  | submit hpc =>
      refine h.setPc fun lease hlease => ?_
      rw [hpc]
      exact hlease
  | runner hpc =>
      refine h.setPc fun lease hlease => ?_
      rw [← Pc.lease?_answered hpc]
      exact hlease
  | crash => exact h.setPc fun lease hlease => by cases hlease

theorem leases (h : (workerSystem profile).Reachable guard s) : Leases s.db s.pcs := by
  refine h.invariant (fun s => Leases s.db s.pcs) (fun s hs => ?_)
    fun s label s' hreach hinv _ hstep => hinv.step (tokens hreach) (step_cases hstep)
  cases hs
  exact ⟨fun _ _ h => (by cases h), fun _ _ _ _ h => (by cases h),
    fun _ _ h => (by cases h), fun _ _ h => (by cases h)⟩

/-- A row that is under the token of a worker after its own call is what the call has
made of the row under this token. -/
theorem row_of_reply (hreach : (workerSystem profile).Reachable guard s) {worker : ι}
    {now : Time} {operation : Operation} {reply : Reply} {db : Db} {lease : TaskLease}
    (hok : perform s.db now operation = .ok (reply, db))
    (hheld : (s.pcs worker).lease? = some lease) (hborne : operation.lease? = some lease)
    {row' : Attempt} (hrow' : row' ∈ db.taskAttempts.rows)
    (htoken : row'.leaseToken = some lease.token) :
    ∃ row ∈ s.db.taskAttempts.rows, row.leaseToken = some lease.token ∧ s.db.Holds lease row ∧
      operation.Returns now row reply row' := by
  have hleases := leases hreach
  have hdrawn := hleases.drawn worker lease hheld
  obtain ⟨row, hrow, -, hchange⟩ | hadded :=
    (transition_of_perform hok).attemptChanges.new row' hrow'
  · obtain ⟨htoken', -⟩ := hchange.bearer htoken hdrawn
    have hholds := hleases.holds hheld hrow htoken'
    obtain ⟨after, hafter, hreturns⟩ := returns_of_perform hok hborne hholds
    have hid := (Db.id_of_attempt? hholds.found).symm.trans hchange.keeps.1.symm
    have hfound := Table.row?_of_mem hrow'
    rw [Attempt.key_eq, ← hid] at hfound
    obtain rfl := Option.some.inj (hfound.symm.trans hafter)
    exact ⟨row, hrow, htoken', hholds, hreturns⟩
  · cases hadded with
    | started _ =>
        have htoken : some s.db.uuids = some lease.token := htoken
        rw [Option.some.injEq] at htoken
        grind

/-! ## Laws of the held attempt -/

/-- Every attempt under a valid lease satisfies `Q` at the program point of the
bearer. -/
def Held (Q : Pc → Attempt → Prop) (db : Db) (pcs : ι → Pc) : Prop :=
  ∀ worker lease, (pcs worker).lease? = some lease → ∀ row ∈ db.taskAttempts.rows,
    row.leaseToken = some lease.token → Q (pcs worker) row

/-- When one worker moves, the law is owed for it and for the others. -/
theorem Held.setPc {Q : Pc → Attempt → Prop} {db : Db} {pcs : ι → Pc} {worker : ι} {pc : Pc}
    (hmoved : ∀ lease, pc.lease? = some lease → ∀ row ∈ db.taskAttempts.rows,
      row.leaseToken = some lease.token → Q pc row)
    (hothers : ∀ other ≠ worker, ∀ lease, (pcs other).lease? = some lease →
      ∀ row ∈ db.taskAttempts.rows, row.leaseToken = some lease.token → Q (pcs other) row) :
    Held Q db (Function.update pcs worker pc) := by
  intro other lease hlease row hrow htoken
  rw [Function.update_apply] at hlease ⊢
  split at hlease
  · next hsame =>
      rw [if_pos hsame]
      exact hmoved lease hlease row hrow htoken
  · next hother =>
      rw [if_neg hother]
      exact hothers other hother lease hlease row hrow htoken

/-- What a law of the held attempt has to keep: the steps of the bearer, and
the cancellation of the run. -/
structure HeldRule (profile : ι → WorkerProfile)
    (guard : Workers ι → WorkerLabel ι → Prop)
    (Q : List CallRecord → Pc → Attempt → Prop) : Prop where
  more : ∀ {records added pc row}, Q records pc row → Q (records ++ added) pc row
  cancel : ∀ {s : Workers ι} {worker now lease row},
    (workerSystem profile).Reachable guard s → guard s (.client (.cancelRun row.runId) now) →
    (s.pcs worker).lease? = some lease → s.db.Holds lease row →
    s.db.CancelsLeased row → Q s.records (s.pcs worker) row →
    Q s.records (s.pcs worker) { row with state := .cancelRequested }
  claim : ∀ {records : List CallRecord} {db : Db} {worker lease row}, db.Claimed lease row →
    Q records (Pc.returned (profile worker) (.claimed (some lease)) .idle) row
  reply : ∀ {s : Workers ι} {worker now operation lease reply row row'},
    (workerSystem profile).Reachable guard s → guard s (.engine worker now none) →
    (s.pcs worker).call (profile worker) = some operation →
    (s.pcs worker).lease? = some lease → s.db.Holds lease row →
    operation.Returns now row reply row' → Q s.records (s.pcs worker) row →
    ((s.pcs worker).returned (profile worker) reply).lease? = some lease →
    row'.leaseToken = some lease.token →
    Q (s.records ++ operation.record s.db) ((s.pcs worker).returned (profile worker) reply) row'
  raise : ∀ {s : Workers ι} {worker now fault operation lease error row},
    (workerSystem profile).Reachable guard s → guard s (.engine worker now fault) →
    (s.pcs worker).call (profile worker) = some operation →
    fault = some error ∨ fault = none ∧ perform s.db now operation = .error error →
    (s.pcs worker).lease? = some lease → s.db.Holds lease row →
    Q s.records (s.pcs worker) row → Q s.records ((s.pcs worker).raised error) row
  submit : ∀ {records work row}, Q records (.submit work) row →
    Q (records ++ [.submitStarted work.lease.attemptId work.lease.token])
      (.submitting work) row
  answer : ∀ {s : Workers ι} {worker elapsed reply lease pc row},
    (workerSystem profile).Reachable guard s → guard s (.runner worker elapsed reply) →
    (s.pcs worker).answered elapsed reply = some pc →
    (s.pcs worker).lease? = some lease → s.db.Holds lease row →
    Q s.records (s.pcs worker) row → Q (s.records ++ (s.pcs worker).record reply) pc row

namespace HeldRule

variable {Q : List CallRecord → Pc → Attempt → Prop} (rule : HeldRule profile guard Q)

include rule

/-- A step of others keeps the law. -/
theorem foreign (hreach : (workerSystem profile).Reachable guard s) {now : Time}
    {operation : Operation} {db : Db}
    (htransition : s.db.Transition now operation db)
    (hcancel : ∀ runId, operation = .cancelRun runId → guard s (.client operation now))
    {worker : ι} {lease : TaskLease} (hlease : (s.pcs worker).lease? = some lease)
    (hforeign : ∀ borne, operation.lease? = some borne → borne.token ≠ lease.token)
    (h : Held (Q s.records) s.db s.pcs) {row' : Attempt}
    (hrow' : row' ∈ db.taskAttempts.rows) (htoken : row'.leaseToken = some lease.token) :
    Q s.records (s.pcs worker) row' := by
  have hleases := leases hreach
  have hdrawn := hleases.drawn worker lease hlease
  obtain ⟨row, hrow, -, hchange⟩ | hadded := htransition.attemptChanges.new row' hrow'
  · obtain ⟨hheld, rfl | ⟨rfl, hcancels, rfl⟩⟩ := hchange.foreign htoken hdrawn hforeign
    · exact h worker lease hlease _ hrow htoken
    · exact rule.cancel hreach (hcancel _ rfl) hlease (hleases.holds hlease hrow hheld) hcancels
        (h worker lease hlease row hrow hheld)
  · cases hadded with
    | started _ =>
        have htoken : some s.db.uuids = some lease.token := htoken
        rw [Option.some.injEq] at htoken
        grind

/-- A call that returns. -/
theorem replied (hreach : (workerSystem profile).Reachable guard s)
    (h : Held (Q s.records) s.db s.pcs) {worker : ι} {now : Time} {operation : Operation}
    {reply : Reply} {db : Db} (hguard : guard s (.engine worker now none))
    (hcall : (s.pcs worker).call (profile worker) = some operation)
    (hok : perform s.db now operation = .ok (reply, db)) :
    Held (Q (s.records ++ operation.record s.db)) db
      (Function.update s.pcs worker ((s.pcs worker).returned (profile worker) reply)) := by
  have htransition := transition_of_perform hok
  refine Held.setPc (fun lease hlease row' hrow' htoken => ?_)
    fun other hother lease hlease row' hrow' htoken => ?_
  · rcases replied_cases hcall hok hlease with
      ⟨hheld, hborne⟩ | ⟨hidle, rfl, -, -, row, hclaimed⟩
    · obtain ⟨row, hrow, htoken', hholds, hreturns⟩ :=
        row_of_reply hreach hok hheld hborne hrow' htoken
      exact rule.reply hreach hguard hcall hheld hholds hreturns
        (h worker lease hheld row hrow htoken') hlease htoken
    · obtain rfl := ((tokens hreach).step htransition).inj row' hrow' row
        (Table.mem_of_row? hclaimed.found) _ htoken hclaimed.token
      rw [hidle]
      exact rule.claim hclaimed
  · have hnocancel : ∀ runId, operation = .cancelRun runId →
        guard s (.client operation now) := by
      rintro runId rfl
      have hclient := Pc.call_isClient hcall
      cases hclient
    refine rule.more (rule.foreign hreach htransition hnocancel hlease ?_ h hrow' htoken)
    intro borne hborne htoken'
    rw [Pc.lease?_call hcall] at hborne
    exact hother ((leases hreach).distinct other worker lease borne hlease hborne htoken'.symm)

/-- A call that raises. -/
theorem raised (hreach : (workerSystem profile).Reachable guard s)
    (h : Held (Q s.records) s.db s.pcs) {worker : ι} {now : Time} {fault : Option Exn}
    {operation : Operation} {error : Exn} (hguard : guard s (.engine worker now fault))
    (hcall : (s.pcs worker).call (profile worker) = some operation)
    (herror : fault = some error ∨ fault = none ∧ perform s.db now operation = .error error) :
    Held (Q s.records) s.db (Function.update s.pcs worker ((s.pcs worker).raised error)) := by
  refine Held.setPc (fun lease hlease row hrow htoken => ?_) fun other _ => h other
  have hheld := Pc.lease?_raised hlease
  exact rule.raise hreach hguard hcall herror hheld
    ((leases hreach).holds hheld hrow htoken) (h worker lease hheld row hrow htoken)

/-- A submission that starts. -/
theorem submits (h : Held (Q s.records) s.db s.pcs) {worker : ι} {work : Work}
    (hpc : s.pcs worker = .submit work) :
    Held (Q (s.records ++ [.submitStarted work.lease.attemptId work.lease.token])) s.db
      (Function.update s.pcs worker (.submitting work)) := by
  refine Held.setPc (fun lease hlease row hrow htoken => ?_)
    fun other _ lease hlease row hrow htoken =>
      rule.more (h other lease hlease row hrow htoken)
  have hheld : (s.pcs worker).lease? = some lease := by
    rw [hpc]
    exact hlease
  have hQ := h worker lease hheld row hrow htoken
  rw [hpc] at hQ
  exact rule.submit hQ

/-- A runner that answers. -/
theorem answered (hreach : (workerSystem profile).Reachable guard s)
    (h : Held (Q s.records) s.db s.pcs) {worker : ι} {elapsed : Nat} {reply : RunnerReply}
    {pc : Pc} (hguard : guard s (.runner worker elapsed reply))
    (hpc : (s.pcs worker).answered elapsed reply = some pc) :
    Held (Q (s.records ++ (s.pcs worker).record reply)) s.db
      (Function.update s.pcs worker pc) := by
  refine Held.setPc (fun lease hlease row hrow htoken => ?_)
    fun other _ lease hlease row hrow htoken =>
      rule.more (h other lease hlease row hrow htoken)
  have hheld := (Pc.lease?_answered hpc).symm.trans hlease
  exact rule.answer hreach hguard hpc hheld ((leases hreach).holds hheld hrow htoken)
    (h worker lease hheld row hrow htoken)

theorem step (hreach : (workerSystem profile).Reachable guard s)
    (h : Held (Q s.records) s.db s.pcs) (hguard : guard s label)
    (hstep : Step profile s label s') : Held (Q s'.records) s'.db s'.pcs := by
  cases hstep with
  | @client operation now hclient =>
      intro worker lease hlease row' hrow' htoken
      refine rule.foreign hreach (operation.transition now s.db) (fun _ _ => hguard) hlease ?_ h
        hrow' htoken
      intro borne hborne
      cases operation <;> cases hborne <;> cases hclient
  | replied hcall hok => exact rule.replied hreach h hguard hcall hok
  | raised hcall herror => exact rule.raised hreach h hguard hcall herror
  | submit hpc => exact rule.submits h hpc
  | runner hpc => exact rule.answered hreach h hguard hpc
  | crash =>
      exact Held.setPc (fun lease hlease => by cases hlease) fun other _ => h other

theorem reachable (h : (workerSystem profile).Reachable guard s) :
    Held (Q s.records) s.db s.pcs := by
  refine h.invariant (fun s => Held (Q s.records) s.db s.pcs) (fun s hs => ?_)
    fun s label s' hreach hinv hguard hstep =>
      rule.step hreach hinv hguard (step_cases hstep)
  cases hs
  exact fun _ _ hlease => by cases hlease

end HeldRule

end Workers

end QhpcEcosystem
