/-
Whether an asynchronous worker gets round to all its work.  On a target whose jobs stay
alive every call of `run_once` ends by releasing its lease, and the attempt it attended
to keeps its place at the head of the line: the next call takes up the same attempt.
-/
import QhpcEcosystem.ClaimOrder
import QhpcEcosystem.TargetJobs

namespace QhpcEcosystem

/-! ## Targets with live jobs -/

/-- A target on which no job ends: `submit` returns a handle of a queued job, `poll` finds
the job running and `cancel` raises.  The replies may differ from one call of `run_once` to
the next, and the clock from one step of a call to the next. -/
structure LiveTarget where
  clock : Nat → Nat → Time
  elapsed : Nat → Nat
  handle : Nat → String
  submitMetadata : Nat → Metadata
  statusMetadata : Nat → Metadata
  cancelError : Nat → Exn
  valid : ∀ n, handle n ≠ "" ∧ (handle n).toList.any isSpace = false

namespace LiveTarget

variable {ι : Type} [DecidableEq ι]

section Definitions

variable (profile : ι → WorkerProfile) (target : LiveTarget) (worker : ι)

/-- What happens next at a program point, at step `k` of call `n`.  The calls of the runner
that end an attempt are not made. -/
def label (n k : Nat) : Pc → WorkerLabel ι
  | .submit _ => .submit worker
  | .submitting _ => .runner worker (target.elapsed n) (.submitted {
      handle := target.handle n, metadata := target.submitMetadata n })
  | .poll _ _ => .runner worker (target.elapsed n) (.status {
      state := "running", metadata := target.statusMetadata n })
  | .cancel _ _ => .runner worker (target.elapsed n) (.raised (target.cancelError n))
  | _ => .engine worker (target.clock n k) none

def step (n k : Nat) (s : Workers ι) : Workers ι :=
  (Workers.step profile s (target.label worker n k (s.pcs worker))).getD s

/-- The rest of a call from step `k` on, until the worker is idle. -/
def finish (n : Nat) : Nat → Nat → Workers ι → Workers ι
  | 0, _, s => s
  | fuel + 1, k, s =>
      match s.pcs worker with
      | .idle => s
      | _ => finish n fuel (k + 1) (step profile target worker n k s)

/-- `run_once` of an idle worker; a call takes at most nine steps. -/
def runOnce (n : Nat) (s : Workers ι) : Workers ι :=
  finish profile target worker n 8 1 (step profile target worker n 0 s)

/-- The state before call `n`. -/
def before (s : Workers ι) : Nat → Workers ι
  | 0 => s
  | n + 1 => runOnce profile target worker n (before s n)

/-- What call `n` has claimed. -/
def claimed (s : Workers ι) (n : Nat) : Option TaskLease :=
  ((step profile target worker n 0 (before profile target worker s n)).pcs worker).lease?

/-- Within the calls every attempt to recover has been leased, and every ready task has been
claimed and submitted. -/
structure ServesAll (s : Workers ι) (calls : Nat) : Prop where
  attempts : ∀ row ∈ s.db.recoverables (profile worker).admission, ∃ n < calls, ∃ lease,
    claimed profile target worker s n = some lease ∧ lease.attemptId = row.attempt.id
  tasks : ∀ task ∈ s.db.readyTasks (profile worker).admission, ∃ n < calls, ∃ lease,
    claimed profile target worker s n = some lease ∧ lease.recovered = false ∧
    lease.runId = task.runId ∧ lease.nodeId = task.nodeId ∧
    .submitStarted lease.attemptId lease.token ∈
      (before profile target worker s (n + 1)).records

/-- No lease expires, and each call that claims a lease ends by releasing it. -/
structure Undisturbed (s : Workers ι) (calls : Nat) : Prop where
  unexpired : ∀ n < calls, (before profile target worker s n).db.Unexpired (target.clock n 0)
  released : ∀ n < calls, ∀ lease ∈ claimed profile target worker s n,
    ∀ row ∈ (before profile target worker s (n + 1)).db.attempt? lease.attemptId,
      row.leaseToken = none

end Definitions

end LiveTarget

/-- The work at hand for a worker: attempts to recover and ready tasks. -/
def Db.demand (db : Db) (admission : Admission) : Nat :=
  (db.recoverables admission).length + (db.readyTasks admission).length

/-! ## Attending to one attempt -/

section Attending

variable {db db' : Db} {lease : TaskLease} {row : Attempt}

theorem engine_perform {now : Time} {operation : Operation} {reply : Reply}
    (hreach : engine.Reachable TransitionSystem.anyStep db)
    (hok : perform db now operation = .ok (reply, db')) :
    engine.Reachable TransitionSystem.anyStep db' := by
  have hstep : engine.step db (operation, now) = some db' := by
    simp [engine, Operation.after, hok]
  exact .step hreach trivial hstep

theorem engine_claim {now : Time} {workerId : String} {leaseSeconds : Int}
    {admission : Admission} {claimed : Option TaskLease}
    (hreach : engine.Reachable TransitionSystem.anyStep db)
    (hok : claimTask db now workerId leaseSeconds admission = .ok (claimed, db')) :
    engine.Reachable TransitionSystem.anyStep db' := by
  have hperform : perform db now (.claimTask workerId leaseSeconds admission) =
      .ok (.claimed claimed, db') := by
    simp [perform, hok, Except.map]
  exact engine_perform hreach hperform

theorem Db.Attends.ofLease {f : RowUpdate Attempt} (hholds : db.Holds lease row)
    (hchanges : db.Changes (.ofLease lease f) db') (hplace : Attempt.KeepsPlace f row) :
    db.Attends lease.attemptId db' := by
  refine .ofChanges hchanges rfl rfl rfl rfl rfl (fun _ => ⟨rfl, rfl⟩) fun found hfound => ?_
  rw [Option.some.inj (hfound.symm.trans hholds.found)]
  exact hplace

/-- A rewritten row is still held when the columns of the lease are kept. -/
theorem Db.Holds.rewritten {e : Effect} {f : RowUpdate Attempt} (hholds : db.Holds lease row)
    (hchanges : db.Changes e db') (heffect : e.attempt = .forKey lease.attemptId f)
    (hplace : (f.apply row).runId = row.runId ∧ (f.apply row).nodeId = row.nodeId)
    (hlease : (f.apply row).leaseToken = row.leaseToken ∧ (f.apply row).workerId = row.workerId) :
    db'.Holds lease (f.apply row) :=
  ⟨⟨hchanges.held heffect hholds.toLeased, hplace.1.trans hholds.runId,
    hplace.2.trans hholds.nodeId, hlease.1.trans hholds.token⟩, hlease.2.trans hholds.workerId⟩

variable (hholds : db.Holds lease row) (now : Time)

include hholds

theorem attemptState_attends :
    perform db now (.attemptState lease) = .ok (.state row.state, db) := by
  simp only [perform, attemptState, assertLease_eq_ok.mpr hholds]
  rfl

theorem recordStage_attends (stage : String) (hstage : isIdentifier stage = true)
    (elapsed : Nat) (details : List (String × Value)) :
    ∃ reply db', perform db now (.recordStage lease stage elapsed details) = .ok (reply, db') ∧
      db.Attends lease.attemptId db' ∧ db'.Holds lease row := by
  obtain ⟨reply, db', hok⟩ := recordStage_isOk hholds now hstage elapsed details
  obtain ⟨stored, hstored, heq⟩ := map_ok hok
  cases heq
  obtain ⟨-, events, rfl⟩ := recordStage_ok hstored
  refine ⟨_, _, hok, ?_, ⟨⟨hholds.found, hholds.runId, hholds.nodeId, hholds.token⟩,
    hholds.workerId⟩⟩
  apply Db.Attends.unchanged <;> rfl

/-- The intent to submit is recorded. -/
theorem markSubmitting_attends (hstate : row.state = .leased ∨ row.state = .submitting) :
    ∃ reply db', perform db now (.markSubmitting lease) = .ok (reply, db') ∧
      db.Attends lease.attemptId db' ∧
      db'.Holds lease ((Attempt.setState .submitting).apply row) := by
  have hok : ∃ db', markSubmitting db now lease = .ok db' := by
    rcases hstate with hstate | hstate <;>
      simp only [markSubmitting, assertLease_eq_ok.mpr hholds, bind, Except.bind, hstate] <;>
      exact ⟨_, rfl⟩
  obtain ⟨db', hok⟩ := hok
  obtain ⟨other, hother, hcase⟩ := markSubmitting_ok hok
  have hsame : other = row := Option.some.inj (hother.found.symm.trans hholds.found)
  subst hsame
  have hlive : other.state ≠ .cancelRequested := by
    rcases hstate with hstate | hstate <;> simp [hstate]
  obtain ⟨hcanceled, -⟩ | ⟨-, hchanges⟩ := hcase
  · exact absurd hcanceled hlive
  · refine ⟨.done, db', by simp [perform, hok, Except.map], ?_,
      hholds.rewritten hchanges rfl ⟨rfl, rfl⟩ ⟨rfl, rfl⟩⟩
    refine .ofLease hholds hchanges ⟨rfl, rfl, rfl, ?_⟩
    simp [Attempt.setState, hlive]

/-- The submission of a job that is queued is recorded. -/
theorem recordSubmission_attends (hstate : row.state = .submitting) {handle : String}
    (hhandle : handle ≠ "" ∧ handle.toList.any isSpace = false) (metadata : Metadata) :
    ∃ db' row', perform db now (.recordSubmission lease handle "queued" metadata) =
        .ok (.state .submitted, db') ∧
      db.Attends lease.attemptId db' ∧ db'.Holds lease row' ∧
      row'.state = .submitted ∧ row'.targetHandle = some handle := by
  have htarget : TargetState.ofName? "queued" = some .queued := TargetState.ofName?_name .queued
  have hok : ∃ db', recordSubmission db now lease handle "queued" metadata =
      .ok (.submitted, db') := by
    simp only [recordSubmission, hhandle.1, hhandle.2, htarget, assertLease_eq_ok.mpr hholds,
      hstate, bind, Except.bind, pure, Except.pure]
    exact ⟨_, rfl⟩
  obtain ⟨db', hok⟩ := hok
  obtain ⟨other, target, hother, -, -, hchanges⟩ := recordSubmission_ok hok
  refine ⟨db', _, by simp [perform, hok, Except.map], ?_,
    hholds.rewritten hchanges rfl ⟨rfl, rfl⟩ ⟨rfl, rfl⟩, rfl, rfl⟩
  refine .ofLease hholds hchanges ⟨rfl, rfl, rfl, ?_⟩
  simp [Attempt.submit, hstate]

/-- The status of a running job is recorded. -/
theorem recordTargetStatus_attends (hstate : row.state ≠ .cancelRequested)
    (metadata : Metadata) :
    ∃ reply db' row', perform db now (.recordTargetStatus lease "running" metadata) =
        .ok (reply, db') ∧
      db.Attends lease.attemptId db' ∧ db'.Holds lease row' ∧
      row'.state = .running ∧ row'.targetHandle = row.targetHandle := by
  have htarget : TargetState.ofName? "running" = some .running :=
    TargetState.ofName?_name .running
  obtain ⟨reply, db', hok⟩ := recordTargetStatus_isOk hholds now htarget metadata
  obtain ⟨stored, hstored, heq⟩ := map_ok hok
  cases heq
  obtain ⟨other, target, hother, hname, hchanges⟩ := recordTargetStatus_ok hstored
  have hsame : target = .running := Option.some.inj (hname.symm.trans htarget)
  subst hsame
  refine ⟨_, _, _, hok, ?_,
    hholds.rewritten hchanges rfl ⟨rfl, rfl⟩ ⟨rfl, rfl⟩, rfl, rfl⟩
  refine .ofLease hholds hchanges ⟨rfl, rfl, rfl, ?_⟩
  simp [Attempt.observe, observedState, hstate]

/-- A lease is released. -/
theorem releaseLease_attends :
    ∃ reply db', perform db now (.releaseLease lease) = .ok (reply, db') ∧
      db.Attends lease.attemptId db' ∧
      db'.attempt? lease.attemptId = some row.withoutLease := by
  obtain ⟨reply, db', hok⟩ := releaseLease_isOk hholds now
  obtain ⟨stored, hstored, heq⟩ := map_ok hok
  cases heq
  obtain ⟨-, hchanges⟩ := releaseLease_ok hstored
  refine ⟨_, _, hok, ?_, hchanges.held rfl hholds.toLeased⟩
  refine .ofChanges hchanges rfl rfl rfl rfl rfl (fun task => ?_)
    fun _ _ => ⟨rfl, rfl, rfl, Iff.rfl⟩
  simp only [Effect.ofToken, RowUpdate.onlyIf_apply]
  split <;> exact ⟨rfl, rfl⟩

end Attending

/-! ## The course of a call -/

namespace LiveTarget

variable {ι : Type} [DecidableEq ι] {profile : ι → WorkerProfile} {target : LiveTarget}
  {worker : ι} {n k fuel : Nat} {s : Workers ι} {pc pc' : Pc} {db db' : Db}
  {records : List CallRecord}

/-- The state with the worker at a program point of its call. -/
def place (s : Workers ι) (worker : ι) (pc : Pc) (db : Db) (records : List CallRecord) :
    Workers ι :=
  ⟨db, Function.update s.pcs worker pc, records⟩

@[simp] theorem place_pcs : (place s worker pc db records).pcs worker = pc := by
  simp [place]

omit [DecidableEq ι] in
theorem label_of_call {operation : Operation} (h : pc.call (profile worker) = some operation) :
    target.label worker n k pc = .engine worker (target.clock n k) none := by
  cases pc <;> first | rfl | cases h

/-- A call of the engine that returns. -/
theorem step_call {operation : Operation} {reply : Reply}
    (hcall : pc.call (profile worker) = some operation)
    (hok : perform db (target.clock n k) operation = .ok (reply, db')) :
    step profile target worker n k (place s worker pc db records) =
      place s worker (pc.returned (profile worker) reply) db' (records ++ operation.record db) := by
  rw [step, place_pcs, label_of_call hcall]
  simp [Workers.step, Workers.callEngine, hcall, hok, place, Workers.setPc]

/-- A call of the runner that returns or raises. -/
theorem step_reply {elapsed : Nat} {reply : RunnerReply}
    (hlabel : target.label worker n k pc = .runner worker elapsed reply)
    (hpc : pc.answered elapsed reply = some pc') :
    step profile target worker n k (place s worker pc db records) =
      place s worker pc' db (records ++ pc.record reply) := by
  rw [step, place_pcs, hlabel]
  simp [Workers.step, hpc, place, Workers.setPc]

theorem step_submit {work : Work} :
    step profile target worker n k (place s worker (.submit work) db records) =
      place s worker (.submitting work) db
        (records ++ [.submitStarted work.lease.attemptId work.lease.token]) := by
  rw [step, place_pcs]
  simp [label, Workers.step, place, Workers.setPc]

theorem finish_idle :
    finish profile target worker n fuel k (place s worker .idle db records) =
      place s worker .idle db records := by
  cases fuel with
  | zero => rfl
  | succ fuel => simp [finish]

theorem finish_step {lease : TaskLease} (hpc : pc.lease? = some lease) :
    finish profile target worker n (fuel + 1) k (place s worker pc db records) =
      finish profile target worker n fuel (k + 1)
        (step profile target worker n k (place s worker pc db records)) := by
  rw [finish, place_pcs]
  cases pc <;> first | rfl | cases hpc

/-- The call for an attempt has ended in `s'`: the worker is idle, has attended to that
attempt alone, and left it to be recovered. -/
structure Ends (worker : ι) (lease : TaskLease) (db : Db) (records : List CallRecord)
    (s' : Workers ι) : Prop where
  idle : s'.pcs worker = .idle
  attends : db.Attends lease.attemptId s'.db
  waits : ∃ row, s'.db.attempt? lease.attemptId = some row ∧ row.recoverable = true ∧
    row.runId = lease.runId ∧ row.nodeId = lease.nodeId
  records : records ⊆ s'.records
  reachable : engine.Reachable TransitionSystem.anyStep db →
    engine.Reachable TransitionSystem.anyStep s'.db

omit [DecidableEq ι] in
/-- What was done before counts as well. -/
theorem Ends.after {lease : TaskLease} {records' : List CallRecord} {s' : Workers ι}
    (h : Ends worker lease db' records' s') (hattends : db.Attends lease.attemptId db')
    (hrecords : records ⊆ records')
    (hreach : engine.Reachable TransitionSystem.anyStep db →
      engine.Reachable TransitionSystem.anyStep db') : Ends worker lease db records s' where
  idle := h.idle
  attends := hattends.trans h.attends
  waits := h.waits
  records := List.Subset.trans hrecords h.records
  reachable hdb := h.reachable (hreach hdb)

section Course

variable {work : Work} {row : Attempt} (hholds : db.Holds work.lease row)

include hholds

theorem release_ends (hwaits : row.withoutLease.recoverable = true) :
    Ends worker work.lease db records (finish profile target worker n (fuel + 1) k
      (place s worker (.release work) db records)) := by
  obtain ⟨reply, db', hok, hattends, hrow⟩ := releaseLease_attends hholds (target.clock n k)
  rw [finish_step rfl, step_call rfl hok]
  simp only [Pc.returned, finish_idle]
  exact ⟨place_pcs, hattends, ⟨_, hrow, hwaits, hholds.runId, hholds.nodeId⟩,
    List.subset_append_left _ _, fun hdb => engine_perform hdb hok⟩

/-- A cancellation that raises. -/
theorem cancel_ends {handle : String} (hstate : row.state = .cancelRequested)
    (hhandle : row.targetHandle = some handle) :
    Ends worker work.lease db records (finish profile target worker n (fuel + 3) k
      (place s worker (.cancel work handle) db records)) := by
  rw [finish_step rfl, step_reply rfl rfl, finish_step rfl]
  obtain ⟨reply, db', hok, hattends, hholds'⟩ := recordStage_attends hholds
    (target.clock n (k + 1)) "worker.cancel" (by decide) (target.elapsed n)
    [("error", .str (target.cancelError n).message)]
  rw [step_call rfl hok]
  have hwaits : row.withoutLease.recoverable = true := by
    simp [Attempt.recoverable, Attempt.withoutLease, hhandle, hstate]
  refine (release_ends hholds' hwaits).after hattends ?_ fun hdb => engine_perform hdb hok
  intro record hrecord
  simp [hrecord]

/-- A poll that finds the job running. -/
theorem poll_ends {handle : String} (hstate : row.state ≠ .cancelRequested)
    (hhandle : row.targetHandle = some handle) :
    Ends worker work.lease db records (finish profile target worker n (fuel + 4) k
      (place s worker (.poll work handle) db records)) := by
  rw [finish_step rfl, step_reply rfl rfl, finish_step rfl]
  obtain ⟨reply, staged, hstaged, hattends, hholds'⟩ := recordStage_attends hholds
    (target.clock n (k + 1)) "worker.poll" (by decide) (target.elapsed n) []
  rw [step_call rfl hstaged, finish_step rfl]
  obtain ⟨reply', db', observed, hok, hattends', hholds'', hrunning, hkept⟩ :=
    recordTargetStatus_attends hholds' (target.clock n (k + 2)) hstate (target.statusMetadata n)
  rw [step_call rfl hok]
  have hwaits : observed.withoutLease.recoverable = true := by
    simp [Attempt.recoverable, Attempt.withoutLease, hkept, hhandle, hrunning]
  refine (release_ends hholds'' hwaits).after (hattends.trans hattends') ?_
    fun hdb => engine_perform (engine_perform hdb hstaged) hok
  intro record hrecord
  simp [hrecord]

/-- The submission of a job that is queued. -/
theorem submit_ends (hstate : row.state = .leased ∨ row.state = .submitting) :
    Ends worker work.lease db (records ++ [.submitStarted work.lease.attemptId work.lease.token])
      (finish profile target worker n (fuel + 6) k
        (place s worker (.marking work) db records)) := by
  obtain ⟨reply, marked, hmarked, hattends, hholds'⟩ :=
    markSubmitting_attends hholds (target.clock n k) hstate
  rw [finish_step rfl, step_call rfl hmarked]
  simp only [Pc.returned]
  rw [finish_step rfl, step_submit, finish_step rfl, step_reply rfl rfl, finish_step rfl]
  obtain ⟨reply', staged, hstaged, hattends', hholds'⟩ := recordStage_attends hholds'
    (target.clock n (k + 3)) "worker.submit" (by decide) (target.elapsed n) []
  rw [step_call rfl hstaged, finish_step rfl]
  obtain ⟨db', submitted, hok, hattends'', hholds'', hsubmitted, hhandle⟩ :=
    recordSubmission_attends hholds' (target.clock n (k + 4)) rfl (target.valid n)
      (target.submitMetadata n)
  rw [step_call rfl hok]
  have hwaits : submitted.withoutLease.recoverable = true := by
    simp [Attempt.recoverable, Attempt.withoutLease, hhandle, hsubmitted]
  refine (release_ends hholds'' hwaits).after (hattends.trans (hattends'.trans hattends'')) ?_
    fun hdb => engine_perform (engine_perform (engine_perform hdb hmarked) hstaged) hok
  intro record hrecord
  rcases List.mem_append.mp hrecord with hrecord | hrecord
  · simp [hrecord]
  · simp only [List.mem_singleton] at hrecord
    simp [hrecord]

end Course

/-- What a call adds to the records when it submits the job of its lease. -/
def submission (lease : TaskLease) : List CallRecord :=
  if lease.targetHandle = none then [.submitStarted lease.attemptId lease.token] else []

/-- The branches of a call: a requested cancellation, a poll, or a submission. -/
theorem requested_ends (work : Work) {row : Attempt} (hclaimed : db.Claimed work.lease row) :
    Ends worker work.lease db (records ++ submission work.lease)
      (finish profile target worker n 6 k
        (place s worker (Pc.afterState work row.state) db records)) := by
  have hholds := hclaimed.toHolds
  obtain ⟨handle, hhandle, ⟨hstate, heq⟩ | ⟨hstate, heq⟩⟩ | ⟨hhandle, hcase⟩ :=
    Pc.afterState_cases work row.state
  · rw [heq, submission, hhandle, if_neg (by simp), List.append_nil]
    exact cancel_ends hholds hstate (hclaimed.targetHandle.trans hhandle)
  · rw [heq, submission, hhandle, if_neg (by simp), List.append_nil]
    exact poll_ends hholds hstate (hclaimed.targetHandle.trans hhandle)
  · have hrow : row.targetHandle = none := hclaimed.targetHandle.trans hhandle
    -- an attempt without a handle was opened by the claim or is being submitted
    have hopen : row.state = .leased ∨ row.state = .submitting := by
      rcases hclaimed.origin with ⟨hleased, -⟩ | hrecoverable
      · exact .inl hleased
      · simp only [Attempt.recoverable, Attempt.withoutLease, hrow] at hrecoverable
        exact .inr (by simpa using hrecoverable)
    have heq : Pc.afterState work row.state = .marking work := by
      rcases hcase with ⟨hstate, -⟩ | ⟨-, heq⟩
      · rcases hopen with hopen | hopen <;> rw [hopen] at hstate <;> cases hstate
      · exact heq
    rw [heq, submission, if_pos hhandle]
    exact submit_ends hholds hopen

/-- From its claim on, a call that ends without the lease has attended to the attempt; it
has submitted the job unless there was one. -/
theorem claimed_ends {lease : TaskLease} {row : Attempt} (hclaimed : db.Claimed lease row)
    (hreleased : ∀ row, (finish profile target worker n 8 1
      (place s worker (.claimed lease) db records)).db.attempt? lease.attemptId = some row →
        row.leaseToken = none) :
    Ends worker lease db (records ++ submission lease)
      (finish profile target worker n 8 1 (place s worker (.claimed lease) db records)) := by
  have hholds := hclaimed.toHolds
  rw [finish_step rfl] at hreleased ⊢
  cases hrequest : taskRequest db lease with
  | error error =>
      -- the exception leaves `run_once` and the lease stays
      have hraised : step profile target worker n 1 (place s worker (.claimed lease) db records) =
          place s worker .idle db records := by
        rw [step, place_pcs]
        simp [label, Workers.step, Workers.callEngine, place, Pc.call, perform, hrequest,
          Except.map, Workers.setPc, Pc.raised]
      rw [hraised, finish_idle] at hreleased
      have htoken := hreleased row hholds.found
      rw [hholds.token] at htoken
      cases htoken
  | ok request =>
      have hok : perform db (target.clock n 1) (.taskRequest lease) =
          .ok (.request request, db) := by
        simp [perform, hrequest, Except.map]
      have hstate := attemptState_attends hholds (target.clock n 2)
      rw [step_call rfl hok]
      simp only [Pc.returned, Operation.record, List.append_nil]
      rw [finish_step rfl, step_call rfl hstate]
      simp only [Pc.returned, Operation.record, List.append_nil]
      exact requested_ends ⟨lease, request⟩ hclaimed

/-! ## What a call takes up -/

section Calls

variable (hasync : (profile worker).kind = .async) (hidle : s.pcs worker = .idle)

include hasync hidle

/-- A claim that returns a lease. -/
theorem step_claim {lease : TaskLease} (hok : claimTask s.db (target.clock n 0)
      (profile worker).workerId (profile worker).leaseSeconds (profile worker).admission =
        .ok (some lease, db)) :
    step profile target worker n 0 s = place s worker (.claimed lease) db s.records := by
  have hperform : perform s.db (target.clock n 0) (.claimTask (profile worker).workerId
      (profile worker).leaseSeconds (profile worker).admission) =
        .ok (.claimed (some lease), db) := by
    simp [perform, hok, Except.map]
  rw [step, hidle]
  simp [label, Workers.step, Workers.callEngine, hidle, Pc.call, hperform, Pc.returned, hasync,
    Operation.record, place, Workers.setPc]

variable (hreleased : ∀ lease,
  ((step profile target worker n 0 s).pcs worker).lease? = some lease →
    ∀ row, (runOnce profile target worker n s).db.attempt? lease.attemptId = some row →
      row.leaseToken = none)

include hreleased

/-- A call with a claim ends by releasing its lease. -/
theorem call_ends {lease : TaskLease} (hok : claimTask s.db (target.clock n 0)
      (profile worker).workerId (profile worker).leaseSeconds (profile worker).admission =
        .ok (some lease, db)) :
    ((step profile target worker n 0 s).pcs worker).lease? = some lease ∧
      Ends worker lease db (s.records ++ submission lease)
        (runOnce profile target worker n s) := by
  have hstep : step profile target worker n 0 s =
      place s worker (.claimed lease) db s.records := step_claim hasync hidle hok
  have hlease : ((step profile target worker n 0 s).pcs worker).lease? = some lease := by
    rw [hstep, place_pcs]
    rfl
  obtain ⟨-, -, row, hclaimed⟩ := (claimTask_ok hok).claimed
  have hends := hreleased lease hlease
  refine ⟨hlease, ?_⟩
  rw [runOnce, hstep] at hends ⊢
  exact claimed_ends hclaimed hends

variable (hreach : engine.Reachable TransitionSystem.anyStep s.db)
  (hunexpired : s.db.Unexpired (target.clock n 0))

include hreach hunexpired

/-- The attempt at the head of the line is leased, and is at the head of the line again when
the call ends. -/
theorem call_recovers {row : JoinedAttempt}
    (hhead : s.db.headOfLine? (profile worker).admission = some row) :
    ∃ lease, ((step profile target worker n 0 s).pcs worker).lease? = some lease ∧
      lease.attemptId = row.attempt.id ∧ lease.recovered = true ∧
      (runOnce profile target worker n s).pcs worker = .idle ∧
      engine.Reachable TransitionSystem.anyStep (runOnce profile target worker n s).db ∧
      ((runOnce profile target worker n s).db.headOfLine? (profile worker).admission).map
        (fun joined => joined.attempt.id) = some row.attempt.id := by
  have hok := claimTask_recovers hunexpired (profile worker).workerId (profile worker).positive
    hhead
  obtain ⟨hlease, hends⟩ := call_ends hasync hidle hreleased hok
  refine ⟨_, hlease, rfl, rfl, hends.idle, hends.reachable (engine_claim hreach hok), ?_⟩
  have hattends : s.db.Attends row.attempt.id (runOnce profile target worker n s).db :=
    .trans (.recoverAttempt _ _ _ _ _) hends.attends
  obtain ⟨hmem, hrecoverable, -⟩ :=
    mem_recoverableAttempts.mp (List.mem_of_find?_eq_some hhead)
  rw [hattends.headOfLine?, hhead, Option.map_some]
  · intro other hother hid
    rw [s.db.taskAttempts.eq_of_key_eq hother hmem hid]
    exact hrecoverable
  · intro other hother hid
    obtain ⟨found, hfound, hwaits, -⟩ := hends.waits
    have hsame : other = found := by
      refine (runOnce profile target worker n s).db.taskAttempts.eq_of_key_eq hother
        (Table.mem_of_row? hfound) ?_
      rw [Attempt.key_eq, Attempt.key_eq, hid, Db.id_of_attempt? hfound]
      rfl
    rw [hsame]
    exact hwaits

/-- Without an attempt to recover, a ready task is claimed and submitted; its attempt is at
the head of the line when the call ends. -/
theorem call_starts (hnone : s.db.headOfLine? (profile worker).admission = none)
    (hready : s.db.readyTasks (profile worker).admission ≠ []) :
    ∃ task lease, task ∈ s.db.readyTasks (profile worker).admission ∧
      ((step profile target worker n 0 s).pcs worker).lease? = some lease ∧
      lease.recovered = false ∧ lease.runId = task.runId ∧ lease.nodeId = task.nodeId ∧
      .submitStarted lease.attemptId lease.token ∈
        (runOnce profile target worker n s).records ∧
      (runOnce profile target worker n s).pcs worker = .idle ∧
      engine.Reachable TransitionSystem.anyStep (runOnce profile target worker n s).db ∧
      ((runOnce profile target worker n s).db.headOfLine? (profile worker).admission).map
        (fun joined => joined.attempt.id) = some lease.attemptId := by
  obtain ⟨task, lease, next, htask, hfresh, hlease, hok⟩ :=
    claimTask_starts hunexpired (profile worker).workerId (profile worker).positive
      (engine_integrity hreach) (engine_tokens hreach) hnone hready
  obtain ⟨hclaimed, hends⟩ := call_ends hasync hidle hreleased hok
  obtain ⟨hrun, hnode, hid, htoken, -, -, hhandle, -, hchanges⟩ := leaseTask_ok hlease
  obtain ⟨row, hrow, hwaits, hrowRun, hrowNode⟩ := hends.waits
  refine ⟨task, lease, mem_readyTasks.mpr htask, hclaimed, hfresh, hrun, hnode, ?_, hends.idle,
    hends.reachable (engine_claim hreach hok), ?_⟩
  · apply hends.records
    simp [submission, hhandle]
  · rw [← hid] at hchanges
    exact hends.attends.headOfLine?_start hchanges htask hnone hrow hwaits
      (hrowRun.trans hrun) (hrowNode.trans hnode)

end Calls

/-! ## Runs of calls -/

/-- The worker is idle, and the attempt is at the head of its line. -/
structure AtHead (profile : ι → WorkerProfile) (worker : ι) (attemptId : Uuid)
    (s : Workers ι) : Prop where
  idle : s.pcs worker = .idle
  reachable : engine.Reachable TransitionSystem.anyStep s.db
  head : (s.db.headOfLine? (profile worker).admission).map (fun row => row.attempt.id) =
    some attemptId

section Runs

variable {calls : Nat} (hasync : (profile worker).kind = .async)
  (hcalls : Undisturbed profile target worker s calls)

include hasync hcalls

/-- A call takes up the attempt at the head of the line and puts it back there. -/
theorem AtHead.call {attemptId : Uuid} (hn : n < calls)
    (h : AtHead profile worker attemptId (before profile target worker s n)) :
    (∃ lease, claimed profile target worker s n = some lease ∧ lease.attemptId = attemptId ∧
      lease.recovered = true) ∧
      AtHead profile worker attemptId (before profile target worker s (n + 1)) := by
  obtain ⟨row, hhead, hid⟩ := Option.map_eq_some_iff.mp h.head
  obtain ⟨lease, hlease, hattempt, hrecovered, hidle, hreach, hafter⟩ := call_recovers hasync
    h.idle (hcalls.released n hn) h.reachable (hcalls.unexpired n hn) hhead
  exact ⟨⟨lease, hlease, hattempt.trans hid, hrecovered⟩, hidle, hreach,
    hafter.trans (congrArg some hid)⟩

/-- Every later call takes up the same attempt. -/
theorem AtHead.again {attemptId : Uuid} {first : Nat}
    (h : AtHead profile worker attemptId (before profile target worker s first)) :
    ∀ n, first ≤ n → n < calls → ∃ lease,
      claimed profile target worker s n = some lease ∧ lease.attemptId = attemptId ∧
      lease.recovered = true := by
  have hstays : ∀ n, first ≤ n → n < calls →
      AtHead profile worker attemptId (before profile target worker s n) := by
    intro n hfirst
    induction n, hfirst using Nat.le_induction with
    | base => exact fun _ => h
    | succ n _ ih =>
        intro hn
        have hprevious : n < calls := by omega
        exact ((ih hprevious).call hasync hcalls hprevious).2
  intro n hfirst hn
  exact ((hstays n hfirst hn).call hasync hcalls hn).1

variable (hidle : s.pcs worker = .idle)
  (hreach : engine.Reachable TransitionSystem.anyStep s.db)

include hidle hreach

/-- The first call starts a ready task when there is nothing to recover. -/
theorem first_call_starts (hpositive : 0 < calls)
    (hnone : s.db.recoverables (profile worker).admission = [])
    (hready : s.db.readyTasks (profile worker).admission ≠ []) :
    ∃ task lease, task ∈ s.db.readyTasks (profile worker).admission ∧
      claimed profile target worker s 0 = some lease ∧ lease.recovered = false ∧
      lease.runId = task.runId ∧ lease.nodeId = task.nodeId ∧
      .submitStarted lease.attemptId lease.token ∈
        (before profile target worker s 1).records ∧
      AtHead profile worker lease.attemptId (before profile target worker s 1) := by
  have hhead : s.db.headOfLine? (profile worker).admission = none := by
    rw [Db.headOfLine?_eq, hnone]
    rfl
  obtain ⟨task, lease, htask, hlease, hfresh, hrun, hnode, hsubmitted, hafter⟩ :=
    call_starts hasync hidle (hcalls.released 0 hpositive) hreach (hcalls.unexpired 0 hpositive)
      hhead hready
  exact ⟨task, lease, htask, hlease, hfresh, hrun, hnode, hsubmitted, hafter.1, hafter.2.1,
    hafter.2.2⟩

/-- While an attempt waits to be recovered, every call takes up the first one. -/
theorem recovered_again {row : JoinedAttempt} {rest : List JoinedAttempt}
    (hwaiting : s.db.recoverables (profile worker).admission = row :: rest) :
    ∀ n < calls, ∃ lease, claimed profile target worker s n = some lease ∧
      lease.attemptId = row.attempt.id ∧ lease.recovered = true := by
  have hhead : AtHead profile worker row.attempt.id (before profile target worker s 0) := by
    refine ⟨hidle, hreach, ?_⟩
    rw [before, Db.headOfLine?_eq, hwaiting]
    rfl
  intro n hn
  exact hhead.again hasync hcalls n (Nat.zero_le n) hn

/-- Of two attempts or tasks that wait for a worker, one is never taken up. -/
theorem not_servesAll (hpositive : 0 < calls)
    (hdemand : 2 ≤ s.db.demand (profile worker).admission) :
    ¬ ServesAll profile target worker s calls := by
  intro hserves
  cases hwaiting : s.db.recoverables (profile worker).admission with
  | cons row rest =>
      have hagain := recovered_again hasync hcalls hidle hreach hwaiting
      have hstarts : s.db.readyTasks (profile worker).admission = [] := by
        rw [List.eq_nil_iff_forall_not_mem]
        intro task htask
        obtain ⟨n, hn, lease, hlease, hfresh, -⟩ := hserves.tasks task htask
        obtain ⟨other, hother, -, hrecovered⟩ := hagain n hn
        rw [hlease] at hother
        cases hother
        rw [hfresh] at hrecovered
        cases hrecovered
      have halone : rest = [] := by
        rw [List.eq_nil_iff_forall_not_mem]
        intro other hother
        obtain ⟨n, hn, lease, hlease, hid⟩ :=
          hserves.attempts other (by simp [hwaiting, hother])
        obtain ⟨lease', hlease', hid', -⟩ := hagain n hn
        rw [hlease] at hlease'
        cases hlease'
        have hnodup := s.db.nodup_recoverables (profile worker).admission
        rw [hwaiting, List.map_cons, List.nodup_cons, ← hid', hid] at hnodup
        exact hnodup.1 (List.mem_map_of_mem hother)
      simp [Db.demand, hwaiting, hstarts, halone] at hdemand
  | nil =>
      have hready : s.db.readyTasks (profile worker).admission ≠ [] := by
        intro hnone
        simp [Db.demand, hwaiting, hnone] at hdemand
      obtain ⟨task, lease, htask, hlease, -, hrun, hnode, -, hhead⟩ :=
        first_call_starts hasync hcalls hidle hreach hpositive hwaiting hready
      have hagain := hhead.again hasync hcalls
      have hmany : s.db.readyTasks (profile worker).admission ≠ [task] := by
        intro hone
        simp [Db.demand, hwaiting, hone] at hdemand
      have hnodup := s.db.nodup_readyTasks (profile worker).admission
      obtain ⟨other, hother, hne⟩ :=
        ((hnodup.ne_singleton_iff task).mp hmany).resolve_left hready
      obtain ⟨n, hn, lease', hlease', hfresh, hrun', hnode', -⟩ := hserves.tasks other hother
      cases n with
      | zero =>
          rw [hlease] at hlease'
          cases hlease'
          have hkey : Keyed.key other = (Keyed.key task : Uuid × String) := by
            rw [Task.key_eq, Task.key_eq, ← hrun, ← hnode, ← hrun', ← hnode']
          exact hne (s.db.tasks.eq_of_key_eq (mem_readyTasks.mp hother).mem
            (mem_readyTasks.mp htask).mem hkey)
      | succ n =>
          obtain ⟨again, hclaimed, -, hrecovered⟩ := hagain (n + 1) (by omega) hn
          rw [hlease'] at hclaimed
          cases hclaimed
          rw [hfresh] at hrecovered
          cases hrecovered

/-- A worker takes up the only attempt or task that waits for it. -/
theorem servesAll_of_le_one (hdemand : s.db.demand (profile worker).admission ≤ 1)
    (hcount : s.db.demand (profile worker).admission = calls) :
    ServesAll profile target worker s calls := by
  have hsum : (s.db.recoverables (profile worker).admission).length +
      (s.db.readyTasks (profile worker).admission).length ≤ 1 := hdemand
  constructor
  · intro row hrow
    have hlength := List.length_pos_of_mem hrow
    have hsingle : s.db.recoverables (profile worker).admission = [row] := by
      obtain ⟨only, honly⟩ := List.length_eq_one_iff.mp (show
        (s.db.recoverables (profile worker).admission).length = 1 by omega)
      rw [honly] at hrow ⊢
      rw [List.mem_singleton.mp hrow]
    have hpositive : 0 < calls := by
      rw [← hcount, Db.demand]
      omega
    obtain ⟨lease, hlease, hid, -⟩ :=
      recovered_again hasync hcalls hidle hreach hsingle 0 hpositive
    exact ⟨0, hpositive, lease, hlease, hid⟩
  · intro task htask
    have hlength := List.length_pos_of_mem htask
    have hnone : s.db.recoverables (profile worker).admission = [] := by
      rw [← List.length_eq_zero_iff]
      omega
    have hpositive : 0 < calls := by
      rw [← hcount, Db.demand]
      omega
    obtain ⟨started, lease, hstarted, hlease, hfresh, hrun, hnode, hsubmitted, -⟩ :=
      first_call_starts hasync hcalls hidle hreach hpositive hnone (List.ne_nil_of_mem htask)
    have hsame : started = task := by
      obtain ⟨only, honly⟩ := List.length_eq_one_iff.mp (show
        (s.db.readyTasks (profile worker).admission).length = 1 by omega)
      rw [honly] at hstarted htask
      rw [List.mem_singleton.mp hstarted, List.mem_singleton.mp htask]
    rw [← hsame]
    exact ⟨0, hpositive, lease, hlease, hfresh, hrun, hnode, hsubmitted⟩

end Runs

/-! ## All the work of a worker -/

/-- The calls of `run_once` get round to every attempt and task that waits for the worker
exactly when there is at most one of them: a live job keeps the worker to itself. -/
theorem serves_all_exactly (hasync : (profile worker).kind = .async)
    (hidle : s.pcs worker = .idle) (hreach : engine.Reachable TransitionSystem.anyStep s.db)
    (hcalls : Undisturbed profile target worker s (s.db.demand (profile worker).admission)) :
    ServesAll profile target worker s (s.db.demand (profile worker).admission) ↔
      s.db.demand (profile worker).admission ≤ 1 := by
  constructor
  · intro hserves
    by_contra hmany
    exact not_servesAll hasync hcalls hidle hreach (by omega) (by omega) hserves
  · intro hone
    exact servesAll_of_le_one hasync hcalls hidle hreach hone rfl

instance (db : Db) (now : Time) : Decidable (db.Unexpired now) :=
  decidable_of_iff ((∀ task ∈ db.tasks.rows, lapsed now task.leaseExpiresAt = false) ∧
      ∀ attempt ∈ db.taskAttempts.rows, lapsed now attempt.leaseExpiresAt = false)
    ⟨fun h => ⟨h.1, h.2⟩, fun h => ⟨h.tasks, h.attempts⟩⟩

/-- A target with a clock of microseconds. -/
def sampleTarget : LiveTarget where
  clock n k := 10 * n + k
  elapsed _ := 1
  handle _ := "42"
  submitMetadata _ := Table.empty
  statusMetadata _ := Table.empty
  cancelError _ := runtimeError "scancel failed"
  valid _ := by decide

/-- The workers of a submission, all idle. -/
def submitted (labels : List (Operation × Time)) : Workers (Fin 2) where
  db := engine.after (fun _ _ => true) {} labels

theorem submitted_reachable (labels : List (Operation × Time)) :
    engine.Reachable TransitionSystem.anyStep (submitted labels).db :=
  ((TransitionSystem.Reachable.initial rfl).after labels).unguarded

/-- In the chain one task is ready, and the worker claims and submits it. -/
theorem serves_all_exactly_chain :
    let s := submitted chainSubmission
    s.db.demand .any = 1 ∧
      ServesAll (sampleProfile .async) sampleTarget 0 s (s.db.demand .any) := by
  refine ⟨by decide, ?_⟩
  have hcalls : Undisturbed (sampleProfile .async) sampleTarget 0 (submitted chainSubmission)
      ((submitted chainSubmission).db.demand (sampleProfile .async 0).admission) :=
    ⟨by decide, by decide⟩
  exact (serves_all_exactly rfl rfl (submitted_reachable chainSubmission) hcalls).mpr (by decide)

/-- The job of one of two independent tasks keeps the worker from the other task. -/
theorem live_job_monopolizes :
    ¬ ∀ (profile : Fin 2 → WorkerProfile) (target : LiveTarget) (worker : Fin 2)
      (s : Workers (Fin 2)), (profile worker).kind = .async → s.pcs worker = .idle →
      engine.Reachable TransitionSystem.anyStep s.db →
      Undisturbed profile target worker s (s.db.demand (profile worker).admission) →
      ServesAll profile target worker s (s.db.demand (profile worker).admission) := by
  intro h
  have hcalls : Undisturbed (sampleProfile .async) sampleTarget 0 (submitted sampleSubmission)
      ((submitted sampleSubmission).db.demand (sampleProfile .async 0).admission) :=
    ⟨by decide, by decide⟩
  have hreach := submitted_reachable sampleSubmission
  have hserves := h _ _ _ _ rfl rfl hreach hcalls
  exact not_servesAll rfl hcalls rfl hreach (by decide) (by decide) hserves

end LiveTarget

end QhpcEcosystem
