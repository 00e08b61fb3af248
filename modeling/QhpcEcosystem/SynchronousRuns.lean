/-
Synchronous workers over one database.  Every worker runs the same task function;
leases expire, workers crash and attempts are taken over at any moment.  However the
calls interleave, a worker only ever completes a task with its value and fails it
when it has none, so a run ends with the meaning of its workflow.
-/
import QhpcEcosystem.RunAgreement
import QhpcEcosystem.RunMeaning
import QhpcEcosystem.WorkerLineage

namespace QhpcEcosystem

universe u

variable {γ : Type u}

/-! ## Program points -/

/-- The reply of the runner is what the task gives on the request. -/
def RunnerReply.Answers (compute : TaskFunction γ) (read : ArtifactResult → γ)
    (request : TaskRequest) : RunnerReply → Prop
  | .raised _ => compute (request.call read) = none
  | .result taskResult => ∃ contents, compute (request.call read) = some contents ∧
      taskResult.Presents read request.outputTypes contents
  | .submitted _ | .status _ | .done => False

/-- What the database holds for a worker at its program point: whoever executes a task
has its call, and whoever reports its end reports its value, unless the report has no
effect. -/
def Db.Faithful (db : Db) (compute : TaskFunction γ) (read : ArtifactResult → γ) :
    Pc → Prop
  | .idle | .requesting _ => True
  | .execute work => db.ParentsSucceeded work.lease.runId work.lease.nodeId ∧
      db.call read work.lease.runId work.lease.nodeId = some (work.request.call read)
  | .complete lease result => db.ParentsSucceeded lease.runId lease.nodeId ∧
      db.Yields compute read lease.runId lease.nodeId result
  | .fail lease _ => (db.ParentsSucceeded lease.runId lease.nodeId ∧
      db.Fails compute read lease.runId lease.nodeId) ∨ ∀ task row, ¬ db.Bears lease task row
  | _ => False

section Transition

variable {db db' : Db} {now : Time} {operation : Operation} {compute : TaskFunction γ}
  {read : ArtifactResult → γ}

/-- A task that runs under a token drawn before ran under it before. -/
theorem Db.TaskChange.bears_before {task task' : Task} {token : Uuid}
    (h : db.TaskChange now operation task task') (hrunning : task'.state = .running)
    (htoken : task'.leaseToken = some token) (hdrawn : token < db.uuids) :
    task.state = .running ∧ task.leaseToken = some token := by
  cases h with
  | kept | renewed _ => exact ⟨hrunning, htoken⟩
  | released _ => cases htoken
  | attemptCanceled _ _ | canceled _ | completed _ _ _ _ _ _ | failed _ _ _ _ | retried _ _ =>
      cases hrunning
  | @expired _ _ _ _ expired _ =>
      cases hexpiry : expired.expiry <;> rw [hexpiry] at htoken <;> cases htoken
  | recovered | started _ =>
      have hfresh : some db.uuids = some token := htoken
      obtain rfl := Option.some.inj hfresh
      exact absurd hdrawn (lt_irrefl _)

/-- A lease that is in force after a step was in force before it. -/
theorem Db.Bears.before {lease : TaskLease} {task' : Task} {row' : Attempt}
    (h : db'.Bears lease task' row') (hstep : db.Transition now operation db')
    (hdrawn : lease.token < db.uuids) : ∃ task row, db.Bears lease task row := by
  obtain ⟨row, hrow, hid, hchange⟩ | hadded :=
    hstep.attemptChanges.new row' (Table.mem_of_row? h.leased.found)
  · obtain ⟨hheld, -⟩ := hchange.bearer h.leased.token hdrawn
    obtain ⟨-, hrun, hnode, -⟩ := hchange.keeps
    have hleased : db.Leased lease row := by
      refine ⟨?_, hrun.symm.trans h.leased.runId, hnode.symm.trans h.leased.nodeId, hheld⟩
      rw [← Db.id_of_attempt? h.leased.found, hid]
      exact Table.row?_of_mem hrow
    obtain ⟨task, htask, hsameRun, hsameNode, htaskChange⟩ | ⟨run, tasks, hadds, hadded⟩ :=
      hstep.taskChanges.new task' (Table.mem_of_row? h.found)
    · obtain ⟨hrunning, htoken⟩ := htaskChange.bears_before h.running h.token hdrawn
      obtain ⟨hplaceRun, hplaceNode⟩ := Db.place_of_task? h.found
      refine ⟨task, row, ?_, hrunning, htoken, hleased⟩
      rw [← hplaceRun, ← hplaceNode, hsameRun, hsameNode]
      exact Table.row?_of_mem htask
    · obtain ⟨stored, -, -, -, hsubmits, -⟩ := hadds.submits
      have hrunning := h.running
      rw [(hsubmits.pending task' hadded).2] at hrunning
      cases hrunning
  · cases hadded with
    | started _ =>
        have hfresh : some db.uuids = some lease.token := h.leased.token
        obtain hfresh := Option.some.inj hfresh
        rw [← hfresh] at hdrawn
        exact absurd hdrawn (lt_irrefl _)

/-- What is known of a call whose parents have succeeded stays known. -/
theorem Db.Undisturbed.call_stays (h : db.Undisturbed)
    (hguard : undisturbed db (operation, now) = true) (hstep : db.Transition now operation db')
    (hintegrity : db.Integrity) (htyped : db.Typed) {runId : Uuid} {nodeId : String}
    {call : TaskCall γ} (hparents : db.ParentsSucceeded runId nodeId)
    (hcall : db.call read runId nodeId = some call) :
    db'.ParentsSucceeded runId nodeId ∧ db'.call read runId nodeId = some call := by
  have htask : ∃ task, db.task? runId nodeId = some task := by
    unfold Db.call at hcall
    split at hcall
    · next htask => exact ⟨_, htask⟩
    · cases hcall
  obtain ⟨task, htask⟩ := htask
  exact ⟨h.parentsSucceeded hguard hstep hintegrity hparents htask,
    (h.call_eq hguard hstep hintegrity htyped hparents htask).trans hcall⟩

/-- A step of the database leaves the workers faithful. -/
theorem Db.Faithful.transition {pc : Pc} (h : db.Faithful compute read pc)
    (hundisturbed : db.Undisturbed) (hguard : undisturbed db (operation, now) = true)
    (hstep : db.Transition now operation db') (hintegrity : db.Integrity) (htyped : db.Typed)
    (hdrawn : ∀ lease, pc.lease? = some lease → lease.token < db.uuids) :
    db'.Faithful compute read pc := by
  cases pc with
  | idle | requesting _ => trivial
  | execute work =>
      obtain ⟨hparents, hcall⟩ := h
      exact hundisturbed.call_stays hguard hstep hintegrity htyped hparents hcall
  | complete lease result =>
      obtain ⟨hparents, call, contents, hcall, hcompute, hpresents⟩ := h
      obtain ⟨hparents, hcall⟩ :=
        hundisturbed.call_stays hguard hstep hintegrity htyped hparents hcall
      exact ⟨hparents, call, contents, hcall, hcompute, hpresents⟩
  | fail lease error =>
      rcases h with ⟨hparents, call, hcall, hcompute⟩ | hstale
      · obtain ⟨hparents, hcall⟩ :=
          hundisturbed.call_stays hguard hstep hintegrity htyped hparents hcall
        exact .inl ⟨hparents, call, hcall, hcompute⟩
      · refine .inr fun task' row' hbears => ?_
        obtain ⟨task, row, hbefore⟩ := hbears.before hstep (hdrawn lease rfl)
        exact hstale task row hbefore
  | _ => exact h.elim

end Transition

/-! ## Steps -/

section Points

variable {db db' : Db} {now : Time} {operation : Operation} {compute : TaskFunction γ}
  {read : ArtifactResult → γ} {pc : Pc} {profile : WorkerProfile}

/-- A faithful worker completes a task with its value and fails it when it has none. -/
theorem Db.Faithful.follows (h : db.Faithful compute read pc)
    (hcall : pc.call profile = some operation) :
    QhpcEcosystem.follows compute read db (operation, now) := by
  cases pc with
  | idle | requesting _ =>
      cases hcall
      rfl
  | execute work => cases hcall
  | complete lease result =>
      cases hcall
      exact fun _ _ _ => h.2
  | fail lease error =>
      cases hcall
      intro task row hbears
      rcases h with ⟨-, hfails⟩ | hstale
      · exact hfails
      · exact absurd hbears (hstale task row)
  | _ => exact h.elim

/-- The engine returns to a faithful worker the call of its task. -/
theorem Db.Faithful.returned (h : db.Faithful compute read pc) (hsync : profile.kind = .sync)
    (hgrounded : db.Grounded) (htokens : db.Tokens) {reply : Reply}
    (hcall : pc.call profile = some operation)
    (hok : perform db now operation = .ok (reply, db')) :
    db'.Faithful compute read (pc.returned profile reply) := by
  cases pc with
  | idle =>
      simp only [Pc.returned]
      split
      · next hasync =>
          rw [hsync] at hasync
          cases hasync
      · trivial
      · trivial
  | requesting lease =>
      cases hcall
      obtain ⟨request, hrequest, heq⟩ := map_ok hok
      cases heq
      obtain ⟨row, hholds⟩ := Workers.holds_of_taskRequest hrequest
      have hparents := hgrounded.attempts row (Table.mem_of_row? hholds.found)
        (htokens.held_live hholds.toLeased)
      rw [hholds.runId, hholds.nodeId] at hparents
      simp only [taskRequest, assertLease_eq_ok.mpr hholds, bind, Except.bind] at hrequest
      exact ⟨hparents, taskRequestFor_call hrequest⟩
  | execute work => cases hcall
  | complete _ _ | fail _ _ => trivial
  | _ => exact h.elim

/-- A call of a faithful worker raises only when its lease is no longer in force. -/
theorem Db.Faithful.raised (h : db.Faithful compute read pc)
    (hreach : engine.Reachable (QhpcEcosystem.follows compute read) db) {error : Exn}
    (hcall : pc.call profile = some operation) (hraised : perform db now operation = .error error)
    (hholds : ∀ lease row, pc.lease? = some lease → db.Leased lease row → db.Holds lease row) :
    db.Faithful compute read (pc.raised error) := by
  have hquiet := engine_follows_undisturbed hreach
  have hgrounded := engine_grounded (engine_undisturbed_lineage hquiet)
  have hintegrity := engine_integrity hreach
  have htyped := engine_typed hreach
  have htokens := engine_tokens hreach
  have hcomputes := engine_computes hreach
  cases pc with
  | idle | fail _ _ => trivial
  | requesting lease =>
      cases hcall
      refine .inr fun task row hbears => ?_
      obtain ⟨request, hrequest⟩ := hcomputes.request hgrounded hintegrity htyped htokens
        (hholds lease row rfl hbears.leased)
      simp [perform, hrequest, Except.map] at hraised
  | execute work => cases hcall
  | complete lease result =>
      cases hcall
      refine .inr fun task row hbears => ?_
      obtain ⟨-, call, contents, hcall, -, hpresents⟩ := h
      have htypes : call.outputTypes = outputTypes task.operation.definition.outputs := by
        unfold Db.call at hcall
        split at hcall
        · next hsame =>
            obtain rfl := Option.some.inj (hbears.found.symm.trans hsame)
            cases hcall
            rfl
        · cases hcall
      rw [htypes] at hpresents
      have hcompletes : ∃ db', completeTask db now lease result = .ok db' :=
        hcomputes.completes hintegrity htyped htokens (engine_artifactsEnded hreach) hbears
          hpresents
      obtain ⟨db', hcompleted⟩ := hcompletes
      simp [perform, hcompleted, Except.map] at hraised
  | _ => exact h.elim

/-- The reply of the runner to a faithful worker is the value of its task. -/
theorem Db.Faithful.answered (h : db.Faithful compute read pc) {pc' : Pc} {elapsed : Nat}
    {reply : RunnerReply} (hpc : pc.answered elapsed reply = some pc')
    (hreply : ∀ work, pc = .execute work → reply.Answers compute read work.request) :
    db.Faithful compute read pc' := by
  cases pc with
  | execute work =>
      obtain ⟨hparents, hcall⟩ := h
      have hvalue := hreply work rfl
      cases reply with
      | raised error =>
          cases hpc
          exact .inl ⟨hparents, _, hcall, hvalue⟩
      | result taskResult =>
          cases hpc
          obtain ⟨contents, hcompute, hpresents⟩ := hvalue
          exact ⟨hparents, _, contents, hcall, hcompute, hpresents⟩
      | submitted _ | status _ | done => cases hpc
  | idle | requesting _ | complete _ _ | fail _ _ => cases reply <;> cases hpc
  | _ => exact h.elim

end Points

namespace Workers

variable {ι : Type} [DecidableEq ι] {profile : ι → WorkerProfile} {s s' : Workers ι}
  {label : WorkerLabel ι} {compute : TaskFunction γ} {read : ArtifactResult → γ}

/-- No run is canceled or retried, the database itself does not raise, and the runner
replies what the task gives. -/
def computedBy (compute : TaskFunction γ) (read : ArtifactResult → γ) (s : Workers ι) :
    WorkerLabel ι → Prop
  | .client operation now => undisturbed s.db (operation, now) = true
  | .engine _ _ fault => fault = none
  | .runner worker _ reply => ∀ work, s.pcs worker = .execute work →
      reply.Answers compute read work.request
  | .submit _ | .crash _ => True

/-- The workers are faithful and the engine follows the task. -/
structure Follows (s : Workers ι) (compute : TaskFunction γ) (read : ArtifactResult → γ) :
    Prop where
  reach : engine.Reachable (follows compute read) s.db
  faithful : ∀ worker, s.db.Faithful compute read (s.pcs worker)

namespace Follows

variable (h : s.Follows compute read)

include h

omit [DecidableEq ι] in
/-- A step of the database under the program points. -/
theorem transition {db : Db} {now : Time} {operation : Operation}
    (hguard : follows compute read s.db (operation, now)) (hleases : Leases s.db s.pcs)
    (hafter : operation.after now s.db = db) :
    engine.Reachable (follows compute read) db ∧
      ∀ worker, db.Faithful compute read (s.pcs worker) := by
  subst hafter
  refine ⟨.step h.reach hguard rfl, fun worker => ?_⟩
  exact (h.faithful worker).transition (engine_undisturbed (engine_follows_undisturbed h.reach))
    (follows_undisturbed hguard) (operation.transition now s.db) (engine_integrity h.reach)
    (engine_typed h.reach) (hleases.drawn worker)

omit h in
/-- What holds of the new point of a worker and of the others holds of all. -/
theorem setPc {db : Db} {records : List CallRecord} {worker : ι} {pc : Pc}
    (hreach : engine.Reachable (follows compute read) db)
    (hothers : ∀ other, db.Faithful compute read (s.pcs other))
    (hpc : db.Faithful compute read pc) :
    Follows ⟨db, Function.update s.pcs worker pc, records⟩ compute read where
  reach := hreach
  faithful other := by
    simp only [Function.update_apply]
    split
    · exact hpc
    · exact hothers other

theorem step (hsync : ∀ worker, (profile worker).kind = .sync) (hleases : Leases s.db s.pcs)
    (hguard : s.computedBy compute read label) (hstep : Step profile s label s') :
    s'.Follows compute read := by
  cases hstep with
  | @client operation now hclient =>
      have hfollows : follows compute read s.db (operation, now) := by
        cases operation <;> first | exact hguard | cases hclient
      obtain ⟨hreach, hfaithful⟩ := h.transition hfollows hleases rfl
      exact ⟨hreach, hfaithful⟩
  | @replied worker now operation reply db hcall hok =>
      have hfollows : follows compute read s.db (operation, now) :=
        (h.faithful worker).follows hcall
      have hafter : operation.after now s.db = db := by simp [Operation.after, hok]
      obtain ⟨hreach, hfaithful⟩ := h.transition hfollows hleases hafter
      have hquiet := engine_follows_undisturbed h.reach
      exact setPc hreach hfaithful ((h.faithful worker).returned (hsync worker)
        (engine_grounded (engine_undisturbed_lineage hquiet)) (engine_tokens h.reach) hcall hok)
  | @raised worker now fault operation error hcall herror =>
      have hnone : fault = none := hguard
      rcases herror with rfl | ⟨-, herror⟩
      · cases hnone
      · refine setPc h.reach h.faithful ((h.faithful worker).raised h.reach hcall herror ?_)
        intro lease row hlease hleased
        exact hleases.holds hlease (Table.mem_of_row? hleased.found) hleased.token
  | @submit worker work hpc =>
      have hfaithful := h.faithful worker
      rw [hpc] at hfaithful
      exact hfaithful.elim
  | @runner worker elapsed reply pc hpc =>
      exact setPc h.reach h.faithful ((h.faithful worker).answered hpc hguard)
  | @crash worker => exact setPc h.reach h.faithful trivial

end Follows

theorem follows_computedBy (hsync : ∀ worker, (profile worker).kind = .sync)
    (h : (workerSystem profile).Reachable (computedBy compute read) s) :
    s.Follows compute read := by
  refine h.invariant (fun s => s.Follows compute read) (fun s hs => ?_)
    fun s label s' hreach hinv hguard hnext =>
      hinv.step hsync (leases hreach) hguard (step_cases hnext)
  cases hs
  exact ⟨.initial rfl, fun _ => trivial⟩

omit [DecidableEq ι] in
theorem computedBy_uncanceled {runId : Uuid} (h : s.computedBy compute read label) :
    s.lifted profile (retriesUncanceled runId) label = true := by
  cases label with
  | client operation now =>
      simp only [lifted, operation?, Option.all_some]
      cases operation with
      | retryTask _ _ => cases h
      | _ => rfl
  | engine worker now fault =>
      cases fault with
      | some error => rfl
      | none =>
          cases hcall : (s.pcs worker).call (profile worker) with
          | none => simp [lifted, operation?, hcall]
          | some operation =>
              have hworker := Pc.call_isClient hcall
              simp only [lifted, operation?, hcall, Option.map_some, Option.all_some]
              cases operation with
              | retryTask _ _ => cases hworker
              | _ => rfl
  | _ => rfl

end Workers

/-! ## Ended runs -/

/-- The contents of the outputs of a run. -/
def Db.publishedContents (db : Db) (read : ArtifactResult → γ) (run : Run) (name : String) :
    Option γ :=
  (run.outputs.row? name).bind fun item => db.contents read item.2

/-- What the meaning gives an output of the workflow. -/
def WorkflowRow.outputMeaning (row : WorkflowRow) (compute : TaskFunction γ)
    (given : String → Option γ) (name : String) : Option γ :=
  (row.definition.outputs.row? name).bind fun item =>
    row.meaningAt compute given item.2.source.node item.2.source.port

/-- A run of the workflow ends with its meaning. -/
structure Db.Means (db : Db) (compute : TaskFunction γ) (read : ArtifactResult → γ) (run : Run)
    (row : WorkflowRow) : Prop where
  uncanceled : run.state ≠ .canceled
  nodes : ∀ nodeId ∈ row.definition.nodeIds, ∃ task, db.task? run.id nodeId = some task
  tasks : run.state = .succeeded → ∀ task ∈ db.tasks.rows, task.runId = run.id →
    task.state = .succeeded ∧
    (∃! attempt, attempt ∈ db.taskAttempts.rows ∧ attempt.runId = run.id ∧
      attempt.nodeId = task.nodeId ∧ attempt.state = .succeeded) ∧
    row.meaning compute (db.inputContents read run) task.nodeId =
      some (db.outputContents read run.id task.nodeId)
  outputs : run.state = .succeeded → ∀ name, db.publishedContents read run name =
    row.outputMeaning compute (db.inputContents read run) name
  failed : run.state = .failed → ∃ nodeId ∈ row.definition.nodeIds,
    (∀ parent ∈ parents row.definition nodeId, db.SucceededAt run.id parent) ∧
      row.FailsAt compute (db.inputContents read run) nodeId

/-- The meaning depends on the definition and the resolved operations. -/
theorem WorkflowRow.meaning_congr {row row' : WorkflowRow} {compute : TaskFunction γ}
    {given : String → Option γ} (hdefinition : row'.definition = row.definition)
    (hresolution : row'.resolution = row.resolution) :
    row'.meaning compute given = row.meaning compute given := by
  cases row
  cases row'
  cases hdefinition
  cases hresolution
  rfl

namespace Db.Means

variable {db : Db} {compute : TaskFunction γ} {read : ArtifactResult → γ} {run : Run}
  {row : WorkflowRow} (h : db.Means compute read run row)

include h

theorem meaning_eq (hsucceeded : run.state = .succeeded) {nodeId : String}
    (hnode : nodeId ∈ row.definition.nodeIds) :
    row.meaning compute (db.inputContents read run) nodeId =
      some (db.outputContents read run.id nodeId) := by
  obtain ⟨task, htask⟩ := h.nodes nodeId hnode
  obtain ⟨htaskRun, rfl⟩ := Db.place_of_task? htask
  exact (h.tasks hsucceeded task (Table.mem_of_row? htask) htaskRun).2.2

theorem failed_of_ended (hended : run.state.live = false) (hopen : run.state ≠ .succeeded) :
    run.state = .failed := by
  cases hstate : run.state with
  | queued | running => rw [hstate] at hended; cases hended
  | succeeded => exact absurd hstate hopen
  | failed => rfl
  | canceled => exact absurd hstate h.uncanceled

/-- An ended run has succeeded when the meaning gives outputs to every node. -/
theorem succeeded_iff (hwf : row.definition.WellFormed) (hended : run.state.live = false) :
    run.state = .succeeded ↔ ∀ nodeId ∈ row.definition.nodeIds,
      (row.meaning compute (db.inputContents read run) nodeId).isSome = true := by
  constructor
  · intro hsucceeded nodeId hnode
    rw [h.meaning_eq hsucceeded hnode]
    rfl
  · intro hall
    by_contra hopen
    obtain ⟨nodeId, hnode, -, hfails⟩ := h.failed (h.failed_of_ended hended hopen)
    have hsome := hall nodeId hnode
    rw [hfails.meaning_eq_none hwf hnode] at hsome
    cases hsome

end Db.Means

namespace Workers

section Meaning

variable {ι : Type} [DecidableEq ι] {profile : ι → WorkerProfile} {s : Workers ι}
  {compute : TaskFunction γ} {read : ArtifactResult → γ}

theorem means (hsync : ∀ worker, (profile worker).kind = .sync)
    (h : (workerSystem profile).Reachable (computedBy compute read) s) {runId : Uuid} {run : Run}
    {row : WorkflowRow} (hrun : s.db.run? runId = some run)
    (hrow : s.db.workflowVersions.row? (run.workflowId, run.workflowVersion) = some row) :
    s.db.Means compute read run row := by
  have hreach := (follows_computedBy hsync h).reach
  have hquiet := engine_follows_undisturbed hreach
  have hgrounded := engine_grounded (engine_undisturbed_lineage hquiet)
  have hintegrity := engine_integrity hreach
  have hcomputes := engine_computes hreach
  have hbuilt := engine_built hreach
  have hwon := engine_won hquiet
  have huncanceled : (workerSystem profile).Reachable
      (fun s label => s.lifted profile (retriesUncanceled runId) label = true) s :=
    h.weaken fun _ _ => computedBy_uncanceled
  obtain ⟨hall, hpublished, hfailures, -, -⟩ := run_agrees_with_tasks huncanceled run hrun
  obtain rfl := Db.id_of_run? hrun
  have hmeaning : ∀ nodeId, s.db.SucceededAt run.id nodeId →
      row.meaning compute (s.db.inputContents read run) nodeId =
        some (s.db.outputContents read run.id nodeId) := fun nodeId hsucceeded => by
    rw [← hcomputes.values_eq_meaning hgrounded hintegrity hbuilt hrun hrow nodeId hsucceeded,
      hsucceeded.values]
  refine ⟨(engine_undisturbed hquiet).runs run (Table.mem_of_row? hrun), ?_, ?_, ?_, ?_⟩
  · exact hintegrity.nodes run (Table.mem_of_row? hrun) row.definition
      (Db.definition?_eq_some.mpr ⟨run, row, hrun, hrow, rfl⟩)
  · intro hsucceeded task htask htaskRun
    have hstate := hall.mp hsucceeded task htask htaskRun
    have hfound : s.db.task? run.id task.nodeId = some task := by
      rw [← htaskRun]
      exact Table.row?_of_mem htask
    refine ⟨hstate, ?_, hmeaning task.nodeId ⟨task, hfound, hstate⟩⟩
    obtain ⟨attempt, hattempt, hattemptRun, hattemptNode, hwinner⟩ :=
      hwon.winner task htask hstate
    refine ⟨attempt, ⟨hattempt, hattemptRun.trans htaskRun, hattemptNode, hwinner⟩, ?_⟩
    rintro other ⟨hother, hotherRun, hotherNode, hotherState⟩
    exact hwon.unique other hother attempt hattempt hotherState hwinner
      (hotherRun.trans (hattemptRun.trans htaskRun).symm) (hotherNode.trans hattemptNode.symm)
  · intro hsucceeded name
    obtain ⟨definition, hdefinition, hitems, hknown⟩ := hpublished hsucceeded
    obtain ⟨_, _, hrun', hrow', rfl⟩ := Db.definition?_eq_some.mp hdefinition
    obtain rfl := Option.some.inj (hrun.symm.trans hrun')
    obtain rfl := Option.some.inj (hrow.symm.trans hrow')
    simp only [Db.publishedContents, WorkflowRow.outputMeaning]
    cases hdeclared : row.definition.outputs.row? name with
    | none =>
        have habsent : run.outputs.row? name = none := by
          rw [Table.row?_eq_none_iff] at hdeclared ⊢
          intro item hitem hkey
          obtain ⟨declared, hmem, hsame⟩ := List.mem_map.mp (hknown item hitem)
          exact hdeclared declared hmem (hsame.trans hkey)
        rw [habsent]
        rfl
    | some item =>
        obtain rfl := Table.key_of_row? hdeclared
        obtain ⟨task, artifactId, htask, hport, hname⟩ := hitems item (Table.mem_of_row? hdeclared)
        obtain ⟨htaskRun, -⟩ := Db.place_of_task? htask
        have hstate := hall.mp hsucceeded task (Table.mem_of_row? htask) htaskRun
        rw [show Keyed.key item = item.1 from rfl, hname, Option.bind_some, Option.bind_some,
          WorkflowRow.meaningAt, hmeaning item.2.source.node ⟨task, htask, hstate⟩]
        simp [Db.outputContents, htask, hport]
  · intro hfailed
    obtain ⟨task, htask, htaskRun, hstate⟩ := hfailures hfailed
    have hfound : s.db.task? run.id task.nodeId = some task := by
      rw [← htaskRun]
      exact Table.row?_of_mem htask
    obtain ⟨_, node, _, _, -, hnode, -⟩ :=
      hbuilt task htask run (by rw [htaskRun, hrun]) row hrow
    refine ⟨task.nodeId, List.mem_map.mpr ⟨node, List.mem_of_find?_eq_some hnode, ?_⟩,
      hcomputes.failsAt hgrounded hintegrity hbuilt hrun hrow hfound hstate⟩
    simpa using List.find?_some hnode

/-- Every schedule of synchronous workers computes the meaning of the workflow, so any
two that end on the same inputs agree on the outcome of the run. -/
theorem schedules_compute_meaning {κ : Type} [DecidableEq κ] {profile' : κ → WorkerProfile}
    {s' : Workers κ} (hsync : ∀ worker, (profile worker).kind = .sync)
    (hsync' : ∀ worker, (profile' worker).kind = .sync)
    (h : (workerSystem profile).Reachable (computedBy compute read) s)
    (h' : (workerSystem profile').Reachable (computedBy compute read) s') :
    (∀ worker work, s.pcs worker = .execute work →
      s.db.ParentsSucceeded work.lease.runId work.lease.nodeId) ∧
    (∀ runId run row, s.db.run? runId = some run →
      s.db.workflowVersions.row? (run.workflowId, run.workflowVersion) = some row →
      s.db.Means compute read run row) ∧
    ∀ runId run row runId' run' row', s.db.run? runId = some run →
      s.db.workflowVersions.row? (run.workflowId, run.workflowVersion) = some row →
      s'.db.run? runId' = some run' →
      s'.db.workflowVersions.row? (run'.workflowId, run'.workflowVersion) = some row' →
      row'.definition = row.definition → row'.resolution = row.resolution →
      s'.db.inputContents read run' = s.db.inputContents read run →
      run.state.live = false → run'.state.live = false →
      run'.state = run.state ∧ (run.state = .succeeded →
        (∀ nodeId ∈ row.definition.nodeIds,
          s'.db.outputContents read runId' nodeId = s.db.outputContents read runId nodeId) ∧
        ∀ name, s'.db.publishedContents read run' name = s.db.publishedContents read run name)
    := by
  refine ⟨fun worker work hpc => ?_, fun runId run row => means hsync h, ?_⟩
  · have hfaithful := (follows_computedBy hsync h).faithful worker
    rw [hpc] at hfaithful
    exact hfaithful.1
  intro runId run row runId' run' row' hrun hrow hrun' hrow' hdefinition hresolution hinputs hended
    hended'
  have hmeans := means hsync h hrun hrow
  have hmeans' := means hsync' h' hrun' hrow'
  have hwf := ((integrity h).workflows row (Table.mem_of_row? hrow)).wellFormed
  have hwf' := ((integrity h').workflows row' (Table.mem_of_row? hrow')).wellFormed
  obtain rfl := Db.id_of_run? hrun
  obtain rfl := Db.id_of_run? hrun'
  have hsame : row'.meaning compute (s'.db.inputContents read run') =
      row.meaning compute (s.db.inputContents read run) := by
    rw [hinputs, WorkflowRow.meaning_congr hdefinition hresolution]
  have hstates : run'.state = .succeeded ↔ run.state = .succeeded := by
    rw [hmeans.succeeded_iff hwf hended, hmeans'.succeeded_iff hwf' hended', hsame, hdefinition]
  refine ⟨?_, fun hsucceeded => ⟨fun nodeId hnode => ?_, fun name => ?_⟩⟩
  · by_cases hsucceeded : run.state = .succeeded
    · rw [hsucceeded, hstates.mpr hsucceeded]
    · rw [hmeans.failed_of_ended hended hsucceeded,
        hmeans'.failed_of_ended hended' (fun hother => hsucceeded (hstates.mp hother))]
  · have hmeaning := hmeans.meaning_eq hsucceeded hnode
    have hmeaning' := hmeans'.meaning_eq (hstates.mpr hsucceeded) (by rwa [hdefinition])
    rw [hsame, hmeaning] at hmeaning'
    exact (Option.some.inj hmeaning').symm
  · rw [hmeans.outputs hsucceeded, hmeans'.outputs (hstates.mpr hsucceeded)]
    simp only [WorkflowRow.outputMeaning, WorkflowRow.meaningAt, hsame, hdefinition]

end Meaning

/-- The task that leaves one file on every port. -/
def sampleTask : TaskFunction String := fun _ => some fun _ => "file:///out"

/-- A decidable condition for the replies of the sample task. -/
def computedBySample (s : Workers (Fin 2)) : WorkerLabel (Fin 2) → Bool
  | .client operation now => undisturbed s.db (operation, now)
  | .engine _ _ fault => fault.isNone
  | .runner worker _ reply =>
      match s.pcs worker, reply with
      | .execute work, .result taskResult =>
          work.request.outputTypes.rows = [("out", "data@1")] ∧
            taskResult.outputs.rows = sampleResult.outputs.rows
      | .execute _, _ => false
      | _, _ => true
  | .submit _ | .crash _ => true

theorem computedBy_sample (s : Workers (Fin 2)) (label : WorkerLabel (Fin 2))
    (h : s.computedBySample label = true) :
    s.computedBy sampleTask ArtifactResult.uri label := by
  cases label with
  | client operation now => exact h
  | engine worker now fault =>
      cases fault with
      | none => rfl
      | some error => cases h
  | submit worker | crash worker => trivial
  | runner worker elapsed reply =>
      intro work hpc
      simp only [computedBySample, hpc] at h
      cases reply with
      | result taskResult =>
          obtain ⟨htypes, houtputs⟩ := of_decide_eq_true h
          refine ⟨_, rfl, fun item hitem => ?_, fun item hitem => ?_⟩
          · rw [htypes, List.mem_singleton] at hitem
            subst hitem
            refine ⟨⟨"data@1", "file:///out", "sha256:01", 1⟩, ?_, rfl, rfl⟩
            rw [Table.row?_eq_some_iff, houtputs]
            exact ⟨List.mem_singleton_self _, rfl⟩
          · rw [houtputs] at hitem
            have hname : item.1 = "out" := by
              rw [List.mem_singleton.mp hitem]
            have hfound : work.request.outputTypes.row? "out" = some ("out", "data@1") := by
              rw [Table.row?_eq_some_iff, htypes]
              exact ⟨List.mem_singleton_self _, rfl⟩
            rw [hname, hfound]
            rfl
      | _ => cases h

/-- One worker computes the chain. -/
def plainSchedule : List (WorkerLabel (Fin 2)) :=
  clientSteps chainSubmission ++ engineSteps 0 1 2 ++ [.runner 0 0 (.result sampleResult)] ++
    engineSteps 0 3 3 ++ [.runner 0 0 (.result sampleResult)] ++ engineSteps 0 6 1

/-- The first worker loses its lease while it executes, the second one takes over, and
both complete the task. -/
def takenOver : List (WorkerLabel (Fin 2)) :=
  clientSteps chainSubmission ++ engineSteps 0 1 2 ++ engineSteps 1 300000009 2 ++
    [.runner 1 0 (.result sampleResult)] ++ engineSteps 1 300000011 1 ++
    [.runner 0 0 (.result sampleResult)] ++ engineSteps 0 300000012 3 ++
    [.runner 0 0 (.result sampleResult)] ++ engineSteps 0 300000015 1

theorem schedules_compute_meaning_takenOver :
    let profile := sampleProfile .sync
    let s := (workerSystem profile).after computedBySample {} plainSchedule
    let s' := (workerSystem profile).after computedBySample {} takenOver
    s.db.runs.rows.map Run.state = [.succeeded] ∧ s'.db.runs.rows.map Run.state = [.succeeded] ∧
    s'.db.taskAttempts.rows.map (fun row => (row.nodeId, row.number, row.state)) =
      [("a", 1, .abandoned), ("a", 2, .succeeded), ("b", 1, .succeeded)] ∧
    (∀ runId run row, s.db.run? runId = some run →
      s.db.workflowVersions.row? (run.workflowId, run.workflowVersion) = some row →
      s.db.Means sampleTask ArtifactResult.uri run row) ∧
    ∀ runId run row runId' run' row', s.db.run? runId = some run →
      s.db.workflowVersions.row? (run.workflowId, run.workflowVersion) = some row →
      s'.db.run? runId' = some run' →
      s'.db.workflowVersions.row? (run'.workflowId, run'.workflowVersion) = some row' →
      row'.definition = row.definition → row'.resolution = row.resolution →
      s'.db.inputContents ArtifactResult.uri run' = s.db.inputContents ArtifactResult.uri run →
      run.state.live = false → run'.state.live = false →
      run'.state = run.state ∧ (run.state = .succeeded →
        (∀ nodeId ∈ row.definition.nodeIds,
          s'.db.outputContents ArtifactResult.uri runId' nodeId =
            s.db.outputContents ArtifactResult.uri runId nodeId) ∧
        ∀ name, s'.db.publishedContents ArtifactResult.uri run' name =
          s.db.publishedContents ArtifactResult.uri run name) := by
  have hreach (labels : List (WorkerLabel (Fin 2))) :
      (workerSystem (sampleProfile .sync)).Reachable (computedBy sampleTask ArtifactResult.uri)
        ((workerSystem (sampleProfile .sync)).after computedBySample {} labels) :=
    ((TransitionSystem.Reachable.initial rfl).after labels).weaken computedBy_sample
  exact ⟨by decide, by decide, by decide, (schedules_compute_meaning (fun _ => rfl)
    (fun _ => rfl) (hreach plainSchedule) (hreach takenOver)).2⟩

end Workers

end QhpcEcosystem
