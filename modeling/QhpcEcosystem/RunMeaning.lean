/-
What a run computes.  The values that the tasks of a run record satisfy the rules of
its workflow, so where tasks have succeeded they are the meaning of the workflow on
the inputs of the run, and a failed task is one on which the meaning fails.  A task
is succeeded by exactly one attempt.
-/
import QhpcEcosystem.ComputedResults

namespace QhpcEcosystem

universe u

variable {γ : Type u}

/-! ## Tasks and nodes -/

/-- The task carries the operation of its node. -/
def Db.TaskBuilt (db : Db) (task : Task) : Prop :=
  ∀ run, db.run? task.runId = some run → ∀ row,
    db.workflowVersions.row? (run.workflowId, run.workflowVersion) = some row →
    ∃ item node executionTarget executionClass,
      row.resolution.row? task.nodeId = some (task.nodeId, item) ∧
      row.definition.node? task.nodeId = some node ∧
      task.operation = { item.taskOperation node with
        executionTarget := executionTarget, executionClass := executionClass }

section Built

variable {db db' : Db} {now : Time} {operation : Operation}

/-- A run keeps its workflow version. -/
theorem Db.Transition.version_of_run (hstep : db.Transition now operation db')
    (hintegrity : db.Integrity) {runId : Uuid} {run run' : Run} (hrun : db.run? runId = some run)
    (hrun' : db'.run? runId = some run') :
    db'.workflowVersions.row? (run'.workflowId, run'.workflowVersion) =
      db.workflowVersions.row? (run.workflowId, run.workflowVersion) := by
  obtain ⟨row, hrow⟩ := hintegrity.runWorkflow run (Table.mem_of_row? hrun)
  obtain ⟨after, hafter, hid, hchange⟩ := hstep.runChanges.old run (Table.mem_of_row? hrun)
  have hfound := Table.row?_of_mem hafter
  rw [Run.key_eq, hid, Db.id_of_run? hrun] at hfound
  obtain rfl := Option.some.inj (hrun'.symm.trans hfound)
  obtain ⟨hworkflow, hversion, -⟩ := hchange.keeps
  rw [hworkflow, hversion, hrow]
  rw [Table.row?_eq_some_iff] at hrow ⊢
  exact ⟨hstep.grows.workflowVersions hrow.1, hrow.2⟩

/-- The workflow version of a run that the operation adds. -/
theorem Db.Transition.submits_of_added (hstep : db.Transition now operation db') {run run' : Run}
    {tasks : List Task} (hadds : db.Adds now operation db' run tasks) {task : Task}
    (hadded : task ∈ tasks) (hrun' : db'.run? task.runId = some run') {row : WorkflowRow}
    (hrow : db'.workflowVersions.row? (run'.workflowId, run'.workflowVersion) = some row) :
    db.Submits now row run tasks := by
  obtain ⟨stored, -, -, -, hsubmits, -⟩ := hadds.submits
  obtain ⟨target, inputs, hrunEq⟩ := hsubmits.run_eq
  rw [(hsubmits.pending task hadded).1, hadds.run] at hrun'
  obtain rfl := Option.some.inj hrun'
  have hkept : db'.workflowVersions.row? (stored.workflowId, stored.version) = some stored := by
    have hstored := hsubmits.stored
    rw [Table.row?_eq_some_iff] at hstored ⊢
    exact ⟨hstep.grows.workflowVersions hstored.1, hstored.2⟩
  have hplace : (run.workflowId, run.workflowVersion) = (stored.workflowId, stored.version) := by
    rw [hrunEq]
    rfl
  rw [hplace] at hrow
  obtain rfl := Option.some.inj (hrow.symm.trans hkept)
  exact hsubmits

theorem Db.TaskBuilt.step (hstep : db.Transition now operation db') (hintegrity : db.Integrity)
    (h : ∀ task ∈ db.tasks.rows, db.TaskBuilt task) :
    ∀ task ∈ db'.tasks.rows, db'.TaskBuilt task := by
  intro task' htask' run' hrun' row hrow
  obtain ⟨task, htask, hsameRun, hsameNode, hchange⟩ | ⟨run, tasks, hadds, hadded⟩ :=
    hstep.taskChanges.new task' htask'
  · obtain ⟨run, hrun⟩ := hintegrity.taskRun task htask
    rw [hsameRun] at hrun'
    rw [hstep.version_of_run hintegrity hrun hrun'] at hrow
    rw [hsameNode, hchange.operation_eq]
    exact h task htask run hrun row hrow
  · obtain ⟨executionTarget, executionClass, node, item, hnode, hitem, heq⟩ :=
      (hstep.submits_of_added hadds hadded hrun' hrow).tasks_eq task' hadded
    exact ⟨item, node, _, _, hitem, hnode, by rw [heq]; rfl⟩

theorem engine_built {guard : Db → Operation × Time → Prop} (hreach : engine.Reachable guard db) :
    ∀ task ∈ db.tasks.rows, db.TaskBuilt task := by
  refine @engine_invariant (fun db => ∀ task ∈ db.tasks.rows, db.TaskBuilt task) _ db
    (fun _ htask => (by cases htask)) ?_ hreach
  exact fun _ _ _ _ hreach h _ hstep => Db.TaskBuilt.step hstep (engine_integrity hreach) h

end Built

/-! ## Values -/

/-- What the tasks of a run have computed. -/
def Db.values (db : Db) (read : ArtifactResult → γ) (runId : Uuid) (nodeId : String) :
    Option (String → Option γ) :=
  (db.task? runId nodeId).bind fun task =>
    if task.state = .succeeded then some (db.outputContents read runId nodeId) else none

/-- The task of the node has succeeded. -/
def Db.SucceededAt (db : Db) (runId : Uuid) (nodeId : String) : Prop :=
  ∃ task, db.task? runId nodeId = some task ∧ task.state = .succeeded

section Values

variable {db : Db} {compute : TaskFunction γ} {read : ArtifactResult → γ} {runId : Uuid}
  {nodeId : String} {run : Run} {row : WorkflowRow}

theorem Db.SucceededAt.values (h : db.SucceededAt runId nodeId) :
    db.values read runId nodeId = some (db.outputContents read runId nodeId) := by
  obtain ⟨task, htask, hsucceeded⟩ := h
  simp [Db.values, htask, hsucceeded]

/-- The call of a task whose parents have succeeded is the call of its node on their
values. -/
theorem Db.call_of_parents
    (hbuilt : ∀ task ∈ db.tasks.rows, db.TaskBuilt task) (hrun : db.run? runId = some run)
    (hrow : db.workflowVersions.row? (run.workflowId, run.workflowVersion) = some row)
    {task : Task} (htask : db.task? runId nodeId = some task)
    (hparents : ∀ parent ∈ parents row.definition nodeId, db.SucceededAt runId parent) :
    ∃ item node, row.resolution.row? nodeId = some (nodeId, item) ∧
      row.definition.node? nodeId = some node ∧
      task.operation.definition = item.operation ∧
      db.call read runId nodeId = some ((item.taskOperation node).call
        (row.definition.gather (db.inputContents read run)
          (fun source port => (db.values read runId source).bind fun contents => contents port)
          nodeId)) := by
  obtain ⟨htaskRun, htaskNode⟩ := Db.place_of_task? htask
  obtain ⟨item, node, target, cls, hitem, hnode, heq⟩ := hbuilt task (Table.mem_of_row? htask) run
    (by rw [htaskRun, hrun]) row hrow
  rw [htaskNode] at hitem hnode
  have hdefinition : db.definition? runId = some row.definition :=
    Db.definition?_eq_some.mpr ⟨run, row, hrun, hrow, rfl⟩
  have hgather : row.definition.gather (db.inputContents read run)
      (fun source port => (db.values read runId source).bind fun contents => contents port)
      nodeId =
        row.definition.gather (db.inputContents read run) (db.outputContents read runId) nodeId :=
    Workflow.gather_congr fun parent hparent => by rw [(hparents parent hparent).values]; rfl
  refine ⟨item, node, hitem, hnode, by rw [heq]; rfl, ?_⟩
  simp only [Db.call, hrun, hdefinition, htask, hgather, heq]
  rfl

variable (h : db.Computes compute read) (hgrounded : db.Grounded) (hintegrity : db.Integrity)
  (hbuilt : ∀ task ∈ db.tasks.rows, db.TaskBuilt task) (hrun : db.run? runId = some run)
  (hrow : db.workflowVersions.row? (run.workflowId, run.workflowVersion) = some row)

include hrun hrow in
theorem Db.ParentsSucceeded.parents (hparents : db.ParentsSucceeded runId nodeId) :
    ∀ parent ∈ parents row.definition nodeId, db.SucceededAt runId parent := by
  intro parent hparent
  obtain ⟨edge, hedge, hnode, rfl⟩ := mem_parents.mp hparent
  exact hparents row.definition (Db.definition?_eq_some.mpr ⟨run, row, hrun, hrow, rfl⟩) edge hedge
    hnode

include h hgrounded hintegrity hbuilt hrun hrow

omit hintegrity in
/-- What the succeeded tasks record satisfies the rules of the workflow. -/
theorem Db.Computes.solves : Dataflow.Solves (row.value compute (db.inputContents read run))
    (db.SucceededAt runId) (db.values read runId) := by
  intro nodeId hsucceededAt
  obtain ⟨task, htask, hsucceeded⟩ := id hsucceededAt
  obtain ⟨htaskRun, htaskNode⟩ := Db.place_of_task? htask
  have hparents := hgrounded.tasks task (Table.mem_of_row? htask) hsucceeded
  rw [htaskRun, htaskNode] at hparents
  have hparents := hparents.parents hrun hrow
  obtain ⟨item, node, hitem, hnode, hdefinition, hcallEq⟩ :=
    Db.call_of_parents hbuilt hrun hrow htask hparents
  obtain ⟨call, contents, hcall, hcompute, hcontents⟩ :=
    h.succeeded task (Table.mem_of_row? htask) hsucceeded
  rw [htaskRun, htaskNode] at hcall hcontents
  obtain rfl := Option.some.inj (hcallEq.symm.trans hcall)
  have hready : ((QhpcEcosystem.parents row.definition nodeId).all fun parent =>
      (db.values read runId parent).isSome) = true := by
    refine List.all_eq_true.mpr fun parent hparent => ?_
    rw [(hparents parent hparent).values]
    rfl
  rw [hsucceededAt.values, WorkflowRow.value, hitem, hnode]
  simp only [hready, ↓reduceIte]
  rw [hcompute, hcontents, hdefinition]
  rfl

/-- Where a task has succeeded, the run has computed the meaning. -/
theorem Db.Computes.values_eq_meaning : ∀ nodeId, db.SucceededAt runId nodeId →
    db.values read runId nodeId = row.meaning compute (db.inputContents read run) nodeId := by
  have hwf := (hintegrity.workflows row (Table.mem_of_row? hrow)).wellFormed
  refine WorkflowRow.eq_meaning hwf (fun nodeId hsucceededAt => ?_)
    (h.solves hgrounded hbuilt hrun hrow)
  obtain ⟨task, htask, hsucceeded⟩ := hsucceededAt
  obtain ⟨htaskRun, htaskNode⟩ := Db.place_of_task? htask
  have hparents := hgrounded.tasks task (Table.mem_of_row? htask) hsucceeded
  rw [htaskRun, htaskNode] at hparents
  obtain ⟨item, node, _, _, _, hnode, -⟩ := hbuilt task (Table.mem_of_row? htask) run
    (by rw [htaskRun, hrun]) row hrow
  rw [htaskNode] at hnode
  refine ⟨List.mem_map.mpr ⟨node, List.mem_of_find?_eq_some hnode, ?_⟩, hparents.parents hrun hrow⟩
  simpa using List.find?_some hnode

/-- A failed task is one on which the meaning fails. -/
theorem Db.Computes.failsAt {task : Task} (htask : db.task? runId nodeId = some task)
    (hfailed : task.state = .failed) :
    (∀ parent ∈ QhpcEcosystem.parents row.definition nodeId, db.SucceededAt runId parent) ∧
      row.FailsAt compute (db.inputContents read run) nodeId := by
  obtain ⟨htaskRun, htaskNode⟩ := Db.place_of_task? htask
  obtain ⟨hparents, call, hcall, hcompute⟩ := h.failed task (Table.mem_of_row? htask) hfailed
  rw [htaskRun, htaskNode] at hparents hcall
  have hparents := hparents.parents hrun hrow
  have hmeaning : ∀ parent ∈ QhpcEcosystem.parents row.definition nodeId,
      db.values read runId parent =
        row.meaning compute (db.inputContents read run) parent := fun parent hparent =>
    h.values_eq_meaning hgrounded hintegrity hbuilt hrun hrow parent (hparents parent hparent)
  obtain ⟨item, node, hitem, hnode, -, hcallEq⟩ :=
    Db.call_of_parents hbuilt hrun hrow htask hparents
  obtain rfl := Option.some.inj (hcallEq.symm.trans hcall)
  refine ⟨hparents, item, node, hitem, hnode, fun parent hparent => ?_, ?_⟩
  · rw [← hmeaning parent hparent, (hparents parent hparent).values]
    rfl
  · rw [← hcompute]
    congr 2
    refine Workflow.gather_congr fun parent hparent => ?_
    funext port
    rw [WorkflowRow.meaningAt, hmeaning parent hparent]

end Values

/-! ## The attempt that has succeeded -/

/-- A succeeded task has exactly one succeeded attempt, other tasks have none. -/
structure Db.Won (db : Db) : Prop where
  winner : ∀ task ∈ db.tasks.rows, task.state = .succeeded → ∃ row ∈ db.taskAttempts.rows,
    row.runId = task.runId ∧ row.nodeId = task.nodeId ∧ row.state = .succeeded
  settled : ∀ row ∈ db.taskAttempts.rows, row.state = .succeeded →
    db.SucceededAt row.runId row.nodeId
  unique : ∀ row ∈ db.taskAttempts.rows, ∀ other ∈ db.taskAttempts.rows,
    row.state = .succeeded → other.state = .succeeded → row.runId = other.runId →
    row.nodeId = other.nodeId → row = other

theorem Db.won_empty : ({} : Db).Won :=
  ⟨fun _ htask => (by cases htask), fun _ hrow => (by cases hrow), fun _ hrow => (by cases hrow)⟩

section Won

variable {db db' : Db} {now : Time} {operation : Operation}

/-- An attempt succeeds by the completion of its task. -/
theorem Db.AttemptChange.succeeded_before {row row' : Attempt}
    (h : db.AttemptChange now operation row row') (hrow : row ∈ db.taskAttempts.rows)
    (hheld : db.RunningHeld) (hintegrity : db.Integrity) (htokens : db.Tokens)
    (hsucceeded : row'.state = .succeeded) :
    row' = row ∨ row.state ≠ .succeeded ∧ ∃ lease result task,
      operation = .completeTask lease result ∧ db.Bears lease task row := by
  by_cases hended : row.state.live = false
  · exact .inl (h.eq_of_ended hheld hintegrity htokens hrow hended)
  have hlive : row.state ≠ .succeeded := by
    intro hstate
    rw [hstate] at hended
    exact hended rfl
  cases h with
  | kept => exact .inl rfl
  | completed htask hrunning htoken hleased =>
      exact .inr ⟨hlive, _, _, _, rfl, htask, hrunning, htoken, hleased⟩
  | renewed _ => exact absurd hsucceeded hlive
  | released _ => exact absurd hsucceeded hlive
  | marked _ _ | markedCanceled _ | failed _ _ _ _ => cases hsucceeded
  | @recorded _ _ _ _ _ target _ _ =>
      simp only [Attempt.submit] at hsucceeded
      split at hsucceeded
      · cases hsucceeded
      · cases target <;> cases hsucceeded
  | @observed _ _ _ _ target _ _ =>
      cases target <;> first
        | exact absurd hsucceeded hlive
        | cases hsucceeded
  | @expired _ _ _ _ expired _ =>
      cases hexpiry : expired.expiry <;> rw [hexpiry] at hsucceeded
      · cases hsucceeded
      · exact absurd hsucceeded hlive
      · cases hsucceeded
  | recovered _ =>
      refine absurd ?_ hlive
      have hswept : ((db.sweepAttempt now).apply row).state = .succeeded := hsucceeded
      simp only [Db.sweepAttempt] at hswept
      split at hswept
      · next expired _ =>
          cases hexpiry : expired.expiry <;> rw [hexpiry] at hswept
          · cases hswept
          · exact hswept
          · cases hswept
      · exact hswept
  | requested _ _ _ =>
      simp only [Attempt.requestCancel] at hsucceeded
      split at hsucceeded <;> cases hsucceeded

/-- When its attempt has succeeded, so has the task that was completed. -/
theorem Db.Bears.succeededAt {lease : TaskLease} {result : TaskResult} {task : Task}
    {row row' : Attempt} (h : db.Bears lease task row)
    (hstep : db.Transition now (.completeTask lease result) db')
    (hopen : row.state ≠ .succeeded) (hrow' : row' ∈ db'.taskAttempts.rows)
    (hid : row'.id = row.id) (hsucceeded : row'.state = .succeeded) :
    db'.SucceededAt lease.runId lease.nodeId := by
  have hfound := Table.row?_of_mem hrow'
  rw [Attempt.key_eq, hid, Db.id_of_attempt? h.leased.found] at hfound
  cases hstep with
  | quiet hchanges =>
      obtain rfl := Option.some.inj (hfound.symm.trans (hchanges.attempt?_some h.leased.found))
      exact absurd hsucceeded hopen
  | completed hsame _ _ _ _ _ _ _ _ _ hchanges =>
      refine ⟨_, hchanges.task?_some hsame, ?_⟩
      obtain ⟨hrun, hnode⟩ := Db.place_of_task? hsame
      simp [Effect.complete, Effect.finish, RowUpdate.forKey_apply, hrun, hnode, Task.succeed]

theorem Db.Won.step (h : db.Won) (hundisturbed : db.Undisturbed) (hheld : db.RunningHeld)
    (hintegrity : db.Integrity) (htokens : db.Tokens)
    (hguard : undisturbed db (operation, now) = true) (hstep : db.Transition now operation db') :
    db'.Won := by
  have hstays : ∀ row ∈ db.taskAttempts.rows, row.state = .succeeded →
      row ∈ db'.taskAttempts.rows := by
    intro row hrow hsucceeded
    obtain ⟨row', hrow', -, hchange⟩ := hstep.attemptChanges.old row hrow
    rwa [hchange.eq_of_ended hheld hintegrity htokens hrow (by rw [hsucceeded]; rfl)] at hrow'
  -- a succeeded attempt was there before, or its task is completed in this step
  have hcases : ∀ row' ∈ db'.taskAttempts.rows, row'.state = .succeeded →
      row' ∈ db.taskAttempts.rows ∨ ∃ row lease result task, row'.id = row.id ∧
        row'.runId = row.runId ∧ row'.nodeId = row.nodeId ∧ row.state ≠ .succeeded ∧
        operation = .completeTask lease result ∧ db.Bears lease task row := by
    intro row' hrow' hsucceeded
    obtain ⟨row, hrow, hid, hchange⟩ | hadded := hstep.attemptChanges.new row' hrow'
    · obtain ⟨-, hrun, hnode, -⟩ := hchange.keeps
      rcases hchange.succeeded_before hrow hheld hintegrity htokens hsucceeded with
        rfl | ⟨hopen, lease, result, task, heq, hbears⟩
      · exact .inl hrow
      · exact .inr ⟨row, lease, result, task, hid, hrun, hnode, hopen, heq, hbears⟩
    · cases hadded with
      | started _ => cases hsucceeded
  have hbusy : ∀ {lease : TaskLease} {task : Task} {row other : Attempt},
      db.Bears lease task row → other ∈ db.taskAttempts.rows → other.state = .succeeded →
      row.runId = other.runId → row.nodeId = other.nodeId → False := by
    intro lease task row other hbears hother hsucceeded hrun hnode
    obtain ⟨found, hfound, hstate⟩ := h.settled other hother hsucceeded
    rw [← hrun, ← hnode, hbears.leased.runId, hbears.leased.nodeId, hbears.found] at hfound
    obtain rfl := Option.some.inj hfound
    rw [hbears.running] at hstate
    cases hstate
  refine ⟨?_, ?_, ?_⟩
  · intro task' htask' hsucceeded
    have hfound' := Table.row?_of_mem htask'
    rw [Task.key_eq] at hfound'
    obtain ⟨task, htask, hrun, hnode, hchange⟩ | ⟨run, tasks, hadds, hadded⟩ :=
      hstep.taskChanges.new task' htask'
    · rcases hchange.outputs with ⟨-, hstate⟩ |
        ⟨lease, result, row, stored, rfl, hplace, hrunning, -, hleased, hinsert, -⟩ |
        ⟨_, _, rfl, -⟩
      · obtain ⟨row, hrow, hrowRun, hrowNode, hwon⟩ := h.winner task htask (hstate hsucceeded)
        exact ⟨row, hstays row hrow hwon, hrowRun.trans hrun.symm, hrowNode.trans hnode.symm, hwon⟩
      · obtain ⟨hleaseRun, hleaseNode⟩ := Db.place_of_task? hplace
        rw [hrun, hnode, hleaseRun, hleaseNode] at hfound'
        obtain ⟨-, row', hrow', hwon⟩ := hstep.completed_stores hplace hrunning hleased hinsert
          hfound' hsucceeded
        obtain ⟨same, hsame, hid, hrowChange⟩ :=
          hstep.attemptChanges.old row (Table.mem_of_row? hleased.found)
        obtain ⟨-, hrowRun, hrowNode, -⟩ := hrowChange.keeps
        obtain rfl : same = row' := db'.taskAttempts.eq_of_key_eq hsame (Table.mem_of_row? hrow')
          (hid.trans ((Db.id_of_attempt? hleased.found).trans (Db.id_of_attempt? hrow').symm))
        refine ⟨same, hsame, ?_, ?_, hwon⟩
        · rw [hrowRun, hleased.runId, ← hleaseRun, hrun]
        · rw [hrowNode, hleased.nodeId, ← hleaseNode, hnode]
      · cases hguard
    · obtain ⟨row, -, -, -, hsubmits, -⟩ := hadds.submits
      rw [(hsubmits.pending task' hadded).2] at hsucceeded
      cases hsucceeded
  · intro row' hrow' hsucceeded
    rcases hcases row' hrow' hsucceeded with
      hold | ⟨row, lease, result, task, hid, hrun, hnode, hopen, rfl, hbears⟩
    · obtain ⟨task, htask, hstate⟩ := h.settled row' hold hsucceeded
      obtain ⟨task', htask', hstate', -⟩ :=
        hundisturbed.succeeded_stays hguard hstep htask hstate
      exact ⟨task', htask', hstate'⟩
    · rw [hrun, hnode, hbears.leased.runId, hbears.leased.nodeId]
      exact hbears.succeededAt hstep hopen hrow' hid hsucceeded
  · intro row' hrow' other' hother' hsucceeded hsucceeded' hsameRun hsameNode
    rcases hcases row' hrow' hsucceeded with
        hold | ⟨row, lease, result, task, hid, hrun, hnode, -, rfl, hbears⟩ <;>
      rcases hcases other' hother' hsucceeded' with
        hold' | ⟨other, lease', result', task', hid', hrun', hnode', -, heq, hbears'⟩
    · exact h.unique row' hold other' hold' hsucceeded hsucceeded' hsameRun hsameNode
    · exact (hbusy hbears' hold hsucceeded (by rw [← hrun', hsameRun])
        (by rw [← hnode', hsameNode])).elim
    · exact (hbusy hbears hold' hsucceeded' (by rw [← hrun, hsameRun])
        (by rw [← hnode, hsameNode])).elim
    · cases heq
      obtain rfl := Option.some.inj (hbears.leased.found.symm.trans hbears'.leased.found)
      exact db'.taskAttempts.eq_of_key_eq hrow' hother' (hid.trans hid'.symm)

theorem engine_won (hreach : engine.Reachable (fun db label => undisturbed db label = true) db) :
    db.Won :=
  engine_invariant Db.won_empty (fun _ _ _ _ hreach h hguard hstep =>
    h.step (engine_undisturbed hreach) (engine_runningHeld hreach) (engine_integrity hreach)
      (engine_tokens hreach) hguard hstep) hreach

end Won

end QhpcEcosystem
