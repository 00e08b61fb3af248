/-
What a task finds when it is leased.  The checks of resolution, submission and
completion leave three gaps: an optional workflow input that feeds a required
port may be absent, an optional output that the workflow reads may be omitted,
and a retry may take the outputs from under an attempt that is still live
downstream.  In a run without these steps every lease has its inputs.
-/
import QhpcEcosystem.ArtifactTypes
import QhpcEcosystem.Descendants
import QhpcEcosystem.RegistryAdmission

namespace QhpcEcosystem

/-! ## The steps that leave a gap -/

/-- An edge or a workflow output reads the output port. -/
def Workflow.reads (definition : Workflow) (node port : String) : Bool :=
  (definition.edges.any fun edge => edge.source.node = node && edge.source.port = port) ||
    definition.outputs.rows.any fun item =>
      item.2.source.node = node && item.2.source.port = port

/-- An edge or one of the given workflow inputs feeds the input port. -/
def Workflow.feeds (definition : Workflow) (inputs : ArtifactIds) (node port : String) : Bool :=
  (definition.edges.any fun edge => edge.target.node = node && edge.target.port = port) ||
    definition.inputs.rows.any fun item =>
      item.2.target.node = node && item.2.target.port = port && (inputs.row? item.1).isSome

/-- The required port that a workflow input is meant for, if it is one, is fed. -/
def WorkflowRow.suppliedBy (row : WorkflowRow) (inputs : ArtifactIds) : Bool :=
  row.definition.inputs.rows.all fun item =>
    match (row.resolution.row? item.2.target.node).bind fun resolved =>
        resolved.2.operation.inputs.row? item.2.target.port with
    | some (_, port) =>
        !port.isRequired || row.definition.feeds inputs item.2.target.node item.2.target.port
    | none => true

/-- A result that completes a task has the optional outputs that the workflow
reads. -/
def Db.resultSupplies (db : Db) (lease : TaskLease) (result : TaskResult) : Bool :=
  match db.task? lease.runId lease.nodeId, db.definition? lease.runId with
  | some task, some definition =>
      task.state ≠ .running || task.leaseToken ≠ some lease.token ||
        task.operation.definition.outputs.rows.all fun item =>
          item.2.isRequired || !definition.reads task.nodeId item.1 ||
            (result.outputs.row? item.1).isSome
  | _, _ => true

/-- No attempt is live downstream of the node. -/
def Db.downstreamSettled (db : Db) (runId : Uuid) (nodeId : String) : Bool :=
  match db.definition? runId with
  | some definition => db.taskAttempts.rows.all fun row =>
      row.runId ≠ runId || row.nodeId = nodeId || row.nodeId ∉ descendants definition nodeId ||
        !row.state.live
  | none => true

/-- A node is strictly upstream of what its edges lead to, so that its retry finds no live
attempt there. -/
theorem Db.live_eq_false_of_settled {db : Db} (hintegrity : db.Integrity) {runId : Uuid}
    {nodeId : String} (hsettled : db.downstreamSettled runId nodeId = true)
    {definition : Workflow} (hdefinition : db.definition? runId = some definition)
    {edge : Edge} (hedge : edge ∈ definition.edges)
    (hreset : edge.source.node ∈ descendants definition nodeId) {row : Attempt}
    (hrow : row ∈ db.taskAttempts.rows) (hrun : row.runId = runId)
    (hnode : row.nodeId = edge.target.node) : row.state.live = false := by
  have hbelow : edge.target.node ∈ descendants definition nodeId := by
    rw [mem_descendants] at hreset ⊢
    exact hreset.tail ⟨edge, hedge, rfl, rfl⟩
  obtain ⟨rank, hrank⟩ := (hintegrity.wellFormed hdefinition).acyclic
  have hless := hrank edge hedge
  have hne : edge.target.node ≠ nodeId := by
    rintro rfl
    rcases rank_le_of_mem_descendants hrank hreset with heq | hlt
    · rw [heq] at hless
      exact lt_irrefl _ hless
    · exact lt_asymm hless hlt
  simp only [Db.downstreamSettled, hdefinition, List.all_eq_true] at hsettled
  simpa [hrun, hnode, hne, hbelow] using hsettled row hrow

/-- The step leaves no gap. -/
def suppliesInputs (db : Db) : Operation × Time → Bool
  | (.submitRun workflowId version _ inputs _ _, _) =>
      (db.workflowVersions.row? (workflowId, version)).all fun row => row.suppliedBy inputs
  | (.completeTask lease result, _) => db.resultSupplies lease result
  | (.retryTask runId nodeId, _) => db.downstreamSettled runId nodeId
  | _ => true

theorem Workflow.reads_eq_true {definition : Workflow} {node port : String} :
    definition.reads node port = true ↔
      (∃ edge ∈ definition.edges, edge.source.node = node ∧ edge.source.port = port) ∨
      ∃ item ∈ definition.outputs.rows,
        item.2.source.node = node ∧ item.2.source.port = port := by
  simp [Workflow.reads]

theorem Workflow.feeds_eq_true {definition : Workflow} {inputs : ArtifactIds}
    {node port : String} :
    definition.feeds inputs node port = true ↔
      (∃ edge ∈ definition.edges, edge.target.node = node ∧ edge.target.port = port) ∨
      ∃ item ∈ definition.inputs.rows, item.2.target.node = node ∧
        item.2.target.port = port ∧ (inputs.row? item.1).isSome = true := by
  simp [Workflow.feeds, and_assoc]

/-! ## The invariant -/

/-- The task has an output on every port that the workflow reads. -/
def Db.RecordsReads (db : Db) (task : Task) : Prop :=
  ∀ definition, db.definition? task.runId = some definition → ∀ port,
    definition.reads task.nodeId port = true → (task.outputs.row? port).isSome = true

/-- Every edge into the node finds its artifact. -/
def Db.Fed (db : Db) (runId : Uuid) (nodeId : String) : Prop :=
  ∀ definition, db.definition? runId = some definition → ∀ edge ∈ definition.edges,
    edge.target.node = nodeId → ∃ parent, db.task? runId edge.source.node = some parent ∧
      (parent.outputs.row? edge.source.port).isSome = true

/-- Every required port of the task is fed. -/
def Db.Provided (db : Db) (task : Task) : Prop :=
  ∀ run, db.run? task.runId = some run → ∀ definition,
    db.definition? task.runId = some definition →
    ∀ item ∈ task.operation.definition.inputs.rows, item.2.isRequired = true →
      definition.feeds run.inputs task.nodeId item.1 = true

/-- Succeeded tasks hold what is read from them, live attempts find what they
read. -/
structure Db.Supplied (db : Db) : Prop where
  recorded : ∀ task ∈ db.tasks.rows, task.state = .succeeded → db.RecordsReads task
  fed : ∀ attempt ∈ db.taskAttempts.rows, attempt.state.live = true →
    db.Fed attempt.runId attempt.nodeId
  provided : ∀ task ∈ db.tasks.rows, db.Provided task

theorem Db.supplied_empty : ({} : Db).Supplied :=
  ⟨fun _ htask => (by cases htask), fun _ hattempt => (by cases hattempt),
    fun _ htask => (by cases htask)⟩

/-- What the workflow reads from a node is a declared output of its task. -/
theorem Db.Typed.declares {db : Db} (htyped : db.Typed) (hintegrity : db.Integrity)
    {task : Task} (htask : task ∈ db.tasks.rows) {definition : Workflow}
    (hdefinition : db.definition? task.runId = some definition) {port : String}
    (hreads : definition.reads task.nodeId port = true) :
    ∃ output, task.operation.definition.outputs.row? port = some (port, output) := by
  obtain ⟨run, row, hrun, hrow, rfl⟩ := Db.definition?_eq_some.mp hdefinition
  have hsound := hintegrity.workflows row (Table.mem_of_row? hrow)
  have hresolved := htyped.resolved task htask
  rcases Workflow.reads_eq_true.mp hreads with
    ⟨edge, hedge, hnode, rfl⟩ | ⟨item, hitem, hnode, rfl⟩
  · have hsource := hsound.edgeSources edge hedge
    rw [hnode] at hsource
    obtain ⟨output, houtput, -⟩ := hresolved.hasOutput hrun hrow hsource
    exact ⟨output, houtput⟩
  · have hsource := hsound.outputs item hitem
    rw [hnode] at hsource
    obtain ⟨output, houtput, -⟩ := hresolved.hasOutput hrun hrow hsource
    exact ⟨output, houtput⟩

/-- The required outputs are checked, and the guard covers the optional ones that
are read. -/
theorem Db.Typed.completed_reads {db stored : Db} (htyped : db.Typed)
    (hintegrity : db.Integrity) {lease : TaskLease} {result : TaskResult} {task : Task}
    {row : Attempt} {now : Time} {outputIds : ArtifactIds} {definition : Workflow}
    (hguard : db.resultSupplies lease result = true)
    (htask : db.task? lease.runId lease.nodeId = some task) (hrunning : task.state = .running)
    (htoken : task.leaseToken = some lease.token)
    (hinsert : insertOutputs now row task.operation.definition.outputs result.outputs.rows db
      Table.empty = .ok (stored, outputIds))
    (hmissing : missingOutputs task.operation.definition.outputs result = [])
    (hdefinition : db.definition? task.runId = some definition) {port : String}
    (hreads : definition.reads task.nodeId port = true) :
    (outputIds.row? port).isSome = true := by
  obtain ⟨output, houtput⟩ :=
    htyped.declares hintegrity (Table.mem_of_row? htask) hdefinition hreads
  have hgiven : (result.outputs.row? port).isSome = true := by
    have hmem := Table.mem_of_row? houtput
    cases hrequired : output.isRequired with
    | true =>
        by_contra habsent
        have hnone : port ∈ missingOutputs task.operation.definition.outputs result := by
          refine (sortedStrings_perm _).mem_iff.mpr
            (List.mem_map.mpr ⟨_, List.mem_filter.mpr ⟨hmem, ?_⟩, rfl⟩)
          simpa [hrequired] using habsent
        simp [hmissing] at hnone
    | false =>
        rw [(Db.place_of_task? htask).1] at hdefinition
        simp only [Db.resultSupplies, htask, hdefinition, hrunning, htoken, ne_eq,
          not_true_eq_false, decide_false, Bool.false_or, List.all_eq_true] at hguard
        simpa [hrequired, hreads] using hguard _ hmem
  obtain ⟨⟨name, artifact⟩, hartifact⟩ := Option.isSome_iff_exists.mp hgiven
  have hname : name = port := Table.key_of_row? hartifact
  subst hname
  obtain ⟨-, _, -, -, hitems, -⟩ := insertOutputs_spec result.outputs.nodup hinsert
  obtain ⟨_, -, -, hstored, -⟩ := hitems name artifact (Table.mem_of_row? hartifact)
  rw [hstored]
  rfl

/-- Every parent of the node has succeeded. -/
def Db.ParentsSucceeded (db : Db) (runId : Uuid) (nodeId : String) : Prop :=
  ∀ definition, db.definition? runId = some definition → ∀ edge ∈ definition.edges,
    edge.target.node = nodeId → ∃ parent, db.task? runId edge.source.node = some parent ∧
      parent.state = .succeeded

section Step

variable {db db' : Db} {now : Time} {operation : Operation}

/-- The sweep leaves the runs alone. -/
theorem Db.Ready.run_of_sweep {admission : Admission} {task : Task}
    (hready : (resetExpiredLeases db now).Ready admission task) :
    ∃ run, db.run? task.runId = some run := by
  obtain ⟨run, hrun, -⟩ := hready.run
  have hruns : (resetExpiredLeases db now).runs = db.runs :=
    (others_foldl_expireLease now (db.tasks.rows.filterMap (db.expiredLease? now)) db).1
  simp only [Db.run?, hruns] at hrun
  exact ⟨run, hrun⟩

/-- The sweep completes no task, so the parents of a ready task had succeeded
before it. -/
theorem Db.Ready.parentsSucceeded {admission : Admission} {task : Task}
    (hready : (resetExpiredLeases db now).Ready admission task) (hintegrity : db.Integrity) :
    db.ParentsSucceeded task.runId task.nodeId := by
  have hsweep := resetExpiredLeases_changes db now
  obtain ⟨ready, hfound, hparents⟩ := hready.parents
  obtain ⟨owner, howner⟩ := hready.run_of_sweep
  have hfound := hintegrity.definition?_old hsweep (Effect.keeps_sweep db now).run howner hfound
  intro definition hdefinition edge hedge htarget
  obtain rfl := Option.some.inj (hdefinition.symm.trans hfound)
  obtain ⟨swept, hswept, hsucceeded⟩ := hparents edge.source.node
    (List.mem_map.mpr ⟨edge, by simpa [hedge] using htarget, rfl⟩)
  obtain ⟨hrun, hnode⟩ := Db.place_of_task? hswept
  obtain ⟨parent, hparent, rfl⟩ | hnone := hsweep.mem_tasks.mp (Table.mem_of_row? hswept)
  · rw [Effect.sweep, Task.apply_runId] at hrun
    rw [Effect.sweep, Task.apply_nodeId] at hnode
    refine ⟨parent, ?_, (Task.outputs_sweep db now parent).2 hsucceeded⟩
    rw [← hrun, ← hnode]
    exact Table.row?_of_mem hparent
  · cases hnone

/-- A guarded change keeps the outputs, stores what is read, or takes the task
back. -/
theorem Db.TaskChange.reads {task task' : Task} {definition : Workflow} {port : String}
    (hchange : db.TaskChange now operation task task') (htyped : db.Typed)
    (hintegrity : db.Integrity) (hguard : suppliesInputs db (operation, now) = true)
    (hdefinition : db.definition? task.runId = some definition)
    (hreads : definition.reads task.nodeId port = true) :
    (task'.outputs = task.outputs ∧ (task'.state = .succeeded → task.state = .succeeded)) ∨
    (task'.outputs.row? port).isSome = true ∨
    ∃ nodeId, operation = .retryTask task.runId nodeId ∧
      task.nodeId ∈ descendants definition nodeId ∧ task'.state = .pending := by
  rcases hchange.outputs with hkept | ⟨lease, result, row, stored, rfl, htask, hrunning, htoken,
    -, hinsert, hmissing⟩ | ⟨nodeId, found, rfl, hfound, hnode, hpending⟩
  · exact .inl hkept
  · exact .inr (.inl (htyped.completed_reads hintegrity hguard htask hrunning htoken hinsert
      hmissing hdefinition hreads))
  · obtain rfl := Option.some.inj (hdefinition.symm.trans hfound)
    exact .inr (.inr ⟨nodeId, rfl, hnode, hpending⟩)

/-- The definition of the run of a task that was there before the step. -/
theorem Db.Transition.definition_of_task (hstep : db.Transition now operation db')
    (hintegrity : db.Integrity) {task : Task} (htask : task ∈ db.tasks.rows) :
    db'.definition? task.runId = db.definition? task.runId := by
  obtain ⟨run, hrun⟩ := hintegrity.taskRun task htask
  exact hstep.definition?_eq hintegrity hrun

namespace Db.Supplied

variable (h : db.Supplied) (hintegrity : db.Integrity) (htyped : db.Typed)
  (hguard : suppliesInputs db (operation, now) = true)
  (hstep : db.Transition now operation db')

include h hintegrity htyped hguard hstep

theorem recorded_step : ∀ task ∈ db'.tasks.rows, task.state = .succeeded →
    db'.RecordsReads task := by
  intro task' htask' hsucceeded definition hdefinition port hreads
  obtain ⟨task, htask, hrun, hnode, hchange⟩ | ⟨run, tasks, hadds, hadded⟩ :=
    hstep.taskChanges.new task' htask'
  · rw [hrun, hstep.definition_of_task hintegrity htask] at hdefinition
    rw [hnode] at hreads
    rcases hchange.reads htyped hintegrity hguard hdefinition hreads with
      ⟨houtputs, hstate⟩ | hstored | ⟨_, -, -, hpending⟩
    · rw [houtputs]
      exact h.recorded task htask (hstate hsucceeded) definition hdefinition port hreads
    · exact hstored
    · rw [hpending] at hsucceeded
      cases hsucceeded
  · obtain ⟨row, -, -, -, hsubmits, -⟩ := hadds.submits
    rw [(hsubmits.pending task' hadded).2] at hsucceeded
    cases hsucceeded

/-- An attempt that is live after the step and was there before finds what it
reads: its parents are not taken back. -/
theorem fed_kept (htokens : db.Tokens) {row row' : Attempt}
    (hrow : row ∈ db.taskAttempts.rows) (hchange : db.AttemptChange now operation row row')
    (hlive : row'.state.live = true) : db'.Fed row'.runId row'.nodeId := by
  obtain ⟨-, hrun, hnode, -⟩ := hchange.keeps
  have hwaslive := hchange.live htokens hlive
  obtain ⟨owner, howner⟩ := hintegrity.attemptRun hrow
  rw [hrun, hnode]
  intro definition hdefinition edge hedge htarget
  rw [hstep.definition?_eq hintegrity howner] at hdefinition
  obtain ⟨parent, hparent, hport⟩ :=
    h.fed row hrow hwaslive definition hdefinition edge hedge htarget
  obtain ⟨hparentRun, hparentNode⟩ := Db.place_of_task? hparent
  obtain ⟨parent', hfound, hparentChange⟩ := hstep.taskChanges.task? hparent
  refine ⟨parent', hfound, ?_⟩
  have hreads : definition.reads parent.nodeId edge.source.port = true :=
    Workflow.reads_eq_true.mpr (.inl ⟨edge, hedge, hparentNode.symm, rfl⟩)
  rw [← hparentRun] at hdefinition
  rcases hparentChange.reads htyped hintegrity hguard hdefinition hreads with
    ⟨houtputs, -⟩ | hstored | ⟨nodeId, rfl, hreset, -⟩
  · rwa [houtputs]
  · exact hstored
  · rw [hparentNode] at hreset
    have hdead := Db.live_eq_false_of_settled hintegrity hguard hdefinition hedge hreset hrow
      hparentRun.symm htarget.symm
    exact absurd (hwaslive.symm.trans hdead) Bool.noConfusion

omit htyped hguard in
/-- A claimed task finds what its parents recorded. -/
theorem fed_added {row : Attempt} (hadded : db.AttemptAdded now operation row) :
    db'.Fed row.runId row.nodeId := by
  cases hadded with
  | @started workerId leaseSeconds admission task hready =>
      change db'.Fed task.runId task.nodeId
      obtain ⟨owner, howner⟩ := hready.run_of_sweep
      intro definition hdefinition edge hedge htarget
      rw [hstep.definition?_eq hintegrity howner] at hdefinition
      obtain ⟨parent, hfound, hsucceeded⟩ :=
        hready.parentsSucceeded hintegrity definition hdefinition edge hedge htarget
      obtain ⟨hparentRun, hparentNode⟩ := Db.place_of_task? hfound
      have hparent := Table.mem_of_row? hfound
      have hreads : definition.reads parent.nodeId edge.source.port = true :=
        Workflow.reads_eq_true.mpr (.inl ⟨edge, hedge, hparentNode.symm, rfl⟩)
      have hport := h.recorded parent hparent hsucceeded definition
        (by rw [hparentRun]; exact hdefinition) _ hreads
      obtain ⟨parent', hfound', hchange⟩ := hstep.taskChanges.task? hfound
      refine ⟨parent', hfound', ?_⟩
      rcases hchange.outputs with ⟨houtputs, -⟩ | ⟨_, _, _, _, hother, -⟩ | ⟨_, _, hother, -⟩
      · rwa [houtputs]
      · cases hother
      · cases hother

omit htyped in
/-- A submission under the guard feeds every required port: the resolution has
connected it, and if that is by a workflow input, one is given. -/
theorem provided_step (hresolvedBy : ∀ row ∈ db.workflowVersions.rows,
    ∃ origin, row.ResolvedBy origin) : ∀ task ∈ db'.tasks.rows, db'.Provided task := by
  intro task' htask' run' hrun' definition hdefinition item hitem hrequired
  obtain ⟨task, htask, hsameRun, hsameNode, hchange⟩ | ⟨run, tasks, hadds, hadded⟩ :=
    hstep.taskChanges.new task' htask'
  · rw [hsameRun] at hrun' hdefinition
    obtain ⟨run, hrun⟩ := hintegrity.taskRun task htask
    rw [hstep.definition?_eq hintegrity hrun] at hdefinition
    rw [hchange.operation_eq] at hitem
    have hfed := h.provided task htask run hrun definition hdefinition item hitem hrequired
    obtain ⟨other, hother, hid, hrunChange⟩ :=
      hstep.runChanges.old run (Table.mem_of_row? hrun)
    have hfound := Table.row?_of_mem hother
    rw [Run.key_eq, hid, Db.id_of_run? hrun] at hfound
    obtain rfl := Option.some.inj (hrun'.symm.trans hfound)
    rwa [hrunChange.keeps.2.2, hsameNode]
  · obtain ⟨row, registry, executionTarget, executionClass, hsubmits, rfl⟩ := hadds.submits
    rw [(hsubmits.pending task' hadded).1] at hrun' hdefinition
    obtain rfl := Option.some.inj (hadds.run.symm.trans hrun')
    obtain ⟨origin, horigin⟩ := hresolvedBy row (Table.mem_of_row? hsubmits.stored)
    obtain ⟨_, _, node, resolved, -, hresolved, htaskEq⟩ := hsubmits.tasks_eq task' hadded
    have hoperation : task'.operation.definition = resolved.operation := by
      rw [htaskEq]
      rfl
    rw [hoperation] at hitem
    have hversion : definition = row.definition := by
      obtain ⟨found, version, hfound, hrow, rfl⟩ := Db.definition?_eq_some.mp hdefinition
      obtain rfl := Option.some.inj (hadds.run.symm.trans hfound)
      obtain ⟨target, inputs, heq⟩ := hsubmits.run_eq
      rw [heq] at hrow
      have hkept : db'.workflowVersions.row? (row.workflowId, row.version) = some row := by
        have hstored := hsubmits.stored
        rw [Table.row?_eq_some_iff] at hstored ⊢
        exact ⟨hstep.grows.workflowVersions hstored.1, hstored.2⟩
      rw [Option.some.inj (hrow.symm.trans hkept)]
    rw [hversion]
    rcases resolveWorkflow_connected horigin (Table.mem_of_row? hresolved) hitem hrequired with
      hedge | ⟨input, hinput, hnode, hport⟩
    · exact Workflow.feeds_eq_true.mpr (.inl hedge)
    · simp only [suppliesInputs, hsubmits.stored, Option.all_some, WorkflowRow.suppliedBy,
        List.all_eq_true] at hguard
      have hsupplied := hguard input hinput
      rw [hnode, hport, hresolved] at hsupplied
      have hdeclared : resolved.operation.inputs.row? item.1 = some item :=
        Table.row?_of_mem hitem
      simpa [hdeclared, hrequired] using hsupplied

theorem step (htokens : db.Tokens) (hresolvedBy : ∀ row ∈ db.workflowVersions.rows,
    ∃ origin, row.ResolvedBy origin) : db'.Supplied where
  recorded := h.recorded_step hintegrity htyped hguard hstep
  fed row' hrow' hlive := by
    obtain ⟨row, hrow, -, hchange⟩ | hadded := hstep.attemptChanges.new row' hrow'
    · exact h.fed_kept hintegrity htyped hguard hstep htokens hrow hchange hlive
    · exact h.fed_added hintegrity hstep hadded
  provided := h.provided_step hintegrity hguard hstep hresolvedBy

end Db.Supplied

end Step

theorem engine_supplied {db : Db}
    (hreach : engine.Reachable (fun db label => suppliesInputs db label = true) db) :
    db.Supplied :=
  engine_invariant Db.supplied_empty
    (fun _ _ _ _ hreach h hguard hstep => h.step (engine_integrity hreach) (engine_typed hreach)
      hguard hstep (engine_tokens hreach) (engine_resolvedBy hreach)) hreach

/-! ## The request of a lease -/

section Requests

variable {db : Db}

/-- The loop over the workflow inputs keeps what is there and stores every given
input of the node. -/
theorem runInputArtifacts_total {run : Run} (nodeId : String)
    (declared : List (String × WorkflowInput)) (inputs : Dict String ArtifactRecord)
    (hstored : ∀ item ∈ run.inputs.rows, ∃ record, getArtifact db item.2 = .ok record) :
    ∃ inputs', runInputArtifacts db run nodeId declared inputs = .ok inputs' ∧
      (∀ port, (inputs.row? port).isSome = true → (inputs'.row? port).isSome = true) ∧
      ∀ item ∈ declared, item.2.target.node = nodeId → (run.inputs.row? item.1).isSome = true →
        (inputs'.row? item.2.target.port).isSome = true := by
  induction declared generalizing inputs with
  | nil => exact ⟨inputs, rfl, fun _ hport => hport, fun _ hitem => (by cases hitem)⟩
  | cons item rest ih =>
      obtain ⟨name, input⟩ := item
      simp only [runInputArtifacts, List.forall_mem_cons]
      split
      · next hnode =>
          split
          · next habsent =>
              obtain ⟨inputs', hok, hkept, hrest⟩ := ih inputs
              exact ⟨inputs', hok, hkept, by simp [habsent], hrest⟩
          · next found artifactId hfound =>
              obtain ⟨record, hrecord⟩ := hstored _ (Table.mem_of_row? hfound)
              obtain ⟨inputs', hok, hkept, hrest⟩ := ih (inputs.set (input.target.port, record))
              simp only [hrecord]
              refine ⟨inputs', hok, fun port hport => hkept port ?_, fun _ _ => hkept _ ?_, hrest⟩
              · rw [Table.row?_set]
                split
                · rfl
                · exact hport
              · simp [Table.row?_set, Keyed.key]
      · next hnode =>
          obtain ⟨inputs', hok, hkept, hrest⟩ := ih inputs
          exact ⟨inputs', hok, hkept, fun hsame => absurd hsame hnode, hrest⟩

/-- The loop over the edges of a fed node stores an artifact for each of them. -/
theorem edgeArtifacts_total (runId : Uuid) (nodeId : String) (edges : List Edge)
    (inputs : Dict String ArtifactRecord)
    (hfed : ∀ edge ∈ edges, edge.target.node = nodeId → ∃ parent name artifactId artifact,
      db.task? runId edge.source.node = some parent ∧
      parent.outputs.row? edge.source.port = some (name, artifactId) ∧
      db.artifacts.row? artifactId = some artifact) :
    ∃ inputs', edgeArtifacts db runId nodeId edges inputs = .ok inputs' ∧
      (∀ port, (inputs.row? port).isSome = true → (inputs'.row? port).isSome = true) ∧
      ∀ edge ∈ edges, edge.target.node = nodeId →
        (inputs'.row? edge.target.port).isSome = true := by
  induction edges generalizing inputs with
  | nil => exact ⟨inputs, rfl, fun _ hport => hport, fun _ hedge => (by cases hedge)⟩
  | cons edge rest ih =>
      have hrest := fun other hother => hfed other (List.mem_cons_of_mem _ hother)
      simp only [edgeArtifacts, List.forall_mem_cons]
      split
      · next hnode =>
          obtain ⟨parent, name, artifactId, artifact, hparent, hport, hartifact⟩ :=
            hfed edge List.mem_cons_self hnode
          obtain ⟨inputs', hok, hkept, hall⟩ :=
            ih (inputs.set (edge.target.port, artifact.record)) hrest
          simp only [hparent, hport, hartifact]
          refine ⟨inputs', hok, fun port hold => hkept port ?_, fun _ => hkept _ ?_, hall⟩
          · rw [Table.row?_set]
            split
            · rfl
            · exact hold
          · simp [Table.row?_set, Keyed.key]
      · next hnode =>
          obtain ⟨inputs', hok, hkept, hall⟩ := ih inputs hrest
          exact ⟨inputs', hok, hkept, fun hsame => absurd hsame hnode, hall⟩

/-- The request of an attempt that is fed succeeds, with an artifact for every edge
and every given workflow input. -/
theorem Db.Fed.request {lease : TaskLease} (hfed : db.Fed lease.runId lease.nodeId)
    (hintegrity : db.Integrity) (htyped : db.Typed) {row : Attempt}
    (hholds : db.Holds lease row) :
    ∃ request task run definition, taskRequest db lease = .ok request ∧
      db.task? lease.runId lease.nodeId = some task ∧ db.run? lease.runId = some run ∧
      db.definition? lease.runId = some definition ∧
      (∀ item ∈ definition.inputs.rows, item.2.target.node = lease.nodeId →
        (run.inputs.row? item.1).isSome = true →
        (request.inputs.row? item.2.target.port).isSome = true) ∧
      ∀ edge ∈ definition.edges, edge.target.node = lease.nodeId →
        (request.inputs.row? edge.target.port).isSome = true := by
  have hrow := Table.mem_of_row? hholds.found
  obtain ⟨task, htask, -⟩ := hintegrity.attemptTask row hrow
  rw [hholds.runId, hholds.nodeId] at htask
  obtain ⟨hrunId, hnodeId⟩ := Db.place_of_task? htask
  obtain ⟨run, hrun⟩ := hintegrity.taskRun task (Table.mem_of_row? htask)
  rw [hrunId] at hrun
  obtain ⟨definition, hdefinition⟩ := hintegrity.definition?_isSome hrun
  have hstored : ∀ item ∈ run.inputs.rows, ∃ record, getArtifact db item.2 = .ok record := by
    intro item hitem
    obtain ⟨record, -, hrecord, -⟩ := htyped.runs run (Table.mem_of_row? hrun) definition
      (by rw [Db.id_of_run? hrun]; exact hdefinition) item hitem
    exact ⟨record, hrecord⟩
  obtain ⟨given, hgiven, -, hinputs⟩ := runInputArtifacts_total lease.nodeId
    definition.inputs.rows Table.empty hstored
  obtain ⟨inputs, hok, hkept, hedges⟩ := edgeArtifacts_total lease.runId lease.nodeId
    definition.edges given (by
      intro edge hedge htarget
      obtain ⟨parent, hparent, hport⟩ := hfed definition hdefinition edge hedge htarget
      obtain ⟨⟨name, artifactId⟩, hfound⟩ := Option.isSome_iff_exists.mp hport
      obtain ⟨artifact, -, hartifact, -⟩ :=
        htyped.tasks parent (Table.mem_of_row? hparent) _ (Table.mem_of_row? hfound)
      exact ⟨parent, name, artifactId, artifact, hparent, hfound, hartifact⟩)
  have hrequest : ∃ request, taskRequest db lease = .ok request ∧ request.inputs = inputs := by
    simp only [taskRequest, assertLease_eq_ok.mpr hholds, taskRequestFor, hrun, hdefinition,
      htask, hgiven, hok, bind, Except.bind, pure, Except.pure]
    exact ⟨_, rfl, rfl⟩
  obtain ⟨request, hrequest, rfl⟩ := hrequest
  exact ⟨request, task, run, definition, hrequest, htask, hrun, hdefinition,
    fun item hitem hnode hsome => hkept _ (hinputs item hitem hnode hsome), hedges⟩

/-- In a supplied state the request of a live attempt succeeds, with an artifact
on every required port. -/
theorem Db.Supplied.request (h : db.Supplied) (hintegrity : db.Integrity) (htyped : db.Typed)
    {lease : TaskLease} {row : Attempt} (hholds : db.Holds lease row)
    (hlive : row.state.live = true) :
    ∃ request task, taskRequest db lease = .ok request ∧
      db.task? lease.runId lease.nodeId = some task ∧
      ∀ item ∈ task.operation.definition.inputs.rows, item.2.isRequired = true →
        (request.inputs.row? item.1).isSome = true := by
  have hfed := h.fed row (Table.mem_of_row? hholds.found) hlive
  rw [hholds.runId, hholds.nodeId] at hfed
  obtain ⟨request, task, run, definition, hrequest, htask, hrun, hdefinition, hinputs, hedges⟩ :=
    hfed.request hintegrity htyped hholds
  obtain ⟨hrunId, hnodeId⟩ := Db.place_of_task? htask
  refine ⟨request, task, hrequest, htask, fun item hitem hrequired => ?_⟩
  have hprovided := h.provided task (Table.mem_of_row? htask) run (by rwa [hrunId]) definition
    (by rwa [hrunId]) item hitem hrequired
  rcases Workflow.feeds_eq_true.mp hprovided with
    ⟨edge, hedge, hnode, hport⟩ | ⟨input, hinput, hnode, hport, hsome⟩
  · rw [← hport]
    exact hedges edge hedge (hnode.trans hnodeId)
  · rw [← hport]
    exact hinputs input hinput (hnode.trans hnodeId) hsome

end Requests

/-! ## The end of a run -/

section Completion

variable {db : Db} {now : Time} {runId : Uuid}

theorem collectOutputs_total (outputs : List (String × WorkflowOutput)) (ids : ArtifactIds)
    (hports : ∀ item ∈ outputs, ∃ task, db.task? runId item.2.source.node = some task ∧
      (task.outputs.row? item.2.source.port).isSome = true) :
    ∃ ids', collectOutputs db runId outputs ids = .ok ids' := by
  induction outputs generalizing ids with
  | nil => exact ⟨ids, rfl⟩
  | cons item rest ih =>
      obtain ⟨name, output⟩ := item
      obtain ⟨task, htask, hport⟩ := hports _ List.mem_cons_self
      obtain ⟨⟨port, artifactId⟩, hfound⟩ := Option.isSome_iff_exists.mp hport
      simp only [collectOutputs, htask, hfound]
      exact ih _ fun other hother => hports other (List.mem_cons_of_mem _ hother)

/-- The check for the end of a run goes through when every succeeded task has what
the workflow outputs name. -/
theorem finishRunIfTerminal_total {definition : Workflow}
    (hdefinition : db.definition? runId = some definition)
    (hports : ∀ item ∈ definition.outputs.rows, ∃ task,
      db.task? runId item.2.source.node = some task ∧
      (task.state = .succeeded → (task.outputs.row? item.2.source.port).isSome = true)) :
    ∃ db', finishRunIfTerminal db now runId = .ok db' := by
  unfold finishRunIfTerminal
  simp only
  split
  · exact ⟨db, rfl⟩
  · next hfinished =>
      simp only [not_or, List.any_eq_true, not_exists, not_and, decide_eq_true_eq,
        Decidable.not_not, ne_eq] at hfinished
      obtain ⟨ids, hids⟩ := collectOutputs_total definition.outputs.rows Table.empty (by
        intro item hitem
        obtain ⟨task, htask, hport⟩ := hports item hitem
        refine ⟨task, htask, hport (hfinished.2 task ?_)⟩
        simp [Db.tasksOf, Table.mem_of_row? htask, (Db.place_of_task? htask).1])
      simp [hdefinition, hids, bind, Except.bind, pure, Except.pure]

/-- The output loop looks up declared ports only. -/
theorem insertOutputs_error {attempt : Attempt} {declared : Dict String PortDefinition}
    {outputs : List (String × ArtifactResult)} {outputIds : ArtifactIds} {error : Exn}
    (hdeclared : ∀ item ∈ outputs, (declared.row? item.1).isSome = true)
    (h : insertOutputs now attempt declared outputs db outputIds = .error error) :
    error.cls ≠ .keyError := by
  induction outputs generalizing db outputIds with
  | nil => cases h
  | cons output rest ih =>
      obtain ⟨port, artifact⟩ := output
      obtain ⟨⟨name, definition⟩, hfound⟩ :=
        Option.isSome_iff_exists.mp (hdeclared _ List.mem_cons_self)
      simp only [insertOutputs, hfound] at h
      split at h
      · cases h
        exact ExnClass.noConfusion
      · split at h
        · cases h
          exact ExnClass.noConfusion
        · exact ih (fun item hitem => hdeclared item (List.mem_cons_of_mem _ hitem)) h

/-- The end of a run finds the outputs that its workflow names. -/
theorem Db.Typed.finishes (htyped : db.Typed) (hintegrity : db.Integrity)
    (hrecorded : ∀ task ∈ db.tasks.rows, task.state = .succeeded → db.RecordsReads task)
    {lease : TaskLease} {result : TaskResult} {task : Task} {row : Attempt} {stored : Db}
    {outputIds : ArtifactIds} (hguard : db.resultSupplies lease result = true)
    (htask : db.task? lease.runId lease.nodeId = some task) (hrunning : task.state = .running)
    (htoken : task.leaseToken = some lease.token)
    (hinsert : insertOutputs now row task.operation.definition.outputs result.outputs.rows db
      Table.empty = .ok (stored, outputIds))
    (hmissing : missingOutputs task.operation.definition.outputs result = []) :
    ∃ db', finishRunIfTerminal (storeCompletion stored now lease row.id outputIds result.log) now
      lease.runId = .ok db' := by
  obtain ⟨hrunId, hnodeId⟩ := Db.place_of_task? htask
  obtain ⟨run, hrun⟩ := hintegrity.taskRun task (Table.mem_of_row? htask)
  obtain ⟨definition, hdefinition⟩ := hintegrity.definition?_isSome hrun
  have hreads : ∀ port, definition.reads task.nodeId port = true →
      (outputIds.row? port).isSome = true := fun _ =>
    htyped.completed_reads hintegrity hguard htask hrunning htoken hinsert hmissing hdefinition
  have hwf := hintegrity.wellFormed hdefinition
  rw [hrunId] at hrun hdefinition
  obtain ⟨artifacts, uuids, -, rfl, -⟩ := insertOutputs_core hinsert
  refine finishRunIfTerminal_total hdefinition fun item hitem => ?_
  have hread : definition.reads item.2.source.node item.2.source.port = true :=
    Workflow.reads_eq_true.mpr (.inr ⟨item, hitem, rfl, rfl⟩)
  by_cases hnode : item.2.source.node = lease.nodeId
  · refine ⟨(Task.succeed now outputIds result.log).apply task, ?_, fun _ => ?_⟩
    · rw [hnode]
      simp only [Db.task?] at htask
      simp [Db.task?, storeCompletion, Db.updateTask, Db.updateAttempt, htask]
    · exact hreads _ (by rw [hnodeId, ← hnode]; exact hread)
  · obtain ⟨other, hother⟩ := hintegrity.nodes run (Table.mem_of_row? hrun) definition
      (by rw [Db.id_of_run? hrun]; exact hdefinition) _ (hwf.outputs item hitem)
    rw [Db.id_of_run? hrun] at hother
    obtain ⟨hotherRun, hotherNode⟩ := Db.place_of_task? hother
    refine ⟨other, ?_, fun hsucceeded => ?_⟩
    · have hne : (lease.runId, item.2.source.node) ≠ (lease.runId, lease.nodeId) :=
        fun hkey => hnode (Prod.mk.inj hkey).2
      simp only [Db.task?] at hother
      simp [Db.task?, storeCompletion, Db.updateTask, Db.updateAttempt,
        Table.row?_update_of_ne _ _ hne, hother]
    · exact hrecorded other (Table.mem_of_row? hother) hsucceeded definition
        (by rw [hotherRun]; exact hdefinition) _ (by rw [hotherNode]; exact hread)

/-- A completion under the guard looks up no port that is not there. -/
theorem Db.Supplied.completes (h : db.Supplied) (hintegrity : db.Integrity) (htyped : db.Typed)
    {lease : TaskLease} {result : TaskResult} {error : Exn}
    (hguard : db.resultSupplies lease result = true)
    (herror : completeTask db now lease result = .error error) : error.cls ≠ .keyError := by
  unfold completeTask at herror
  split at herror
  · cases herror
    exact ExnClass.noConfusion
  · next task htask =>
      split at herror
      · cases herror
      · split at herror
        · cases herror
          exact ExnClass.noConfusion
        · next hlease =>
            simp only [ne_eq, not_or, Decidable.not_not] at hlease
            obtain ⟨hrunning, htoken⟩ := hlease
            split at herror
            · cases herror
              exact ExnClass.noConfusion
            · next row _ =>
                split at herror
                · cases herror
                  exact ExnClass.noConfusion
                · simp only [ne_eq, ite_not] at herror
                  split at herror
                  · next hmissing =>
                      split at herror
                      · next hunknown =>
                          simp only [bind, Except.bind] at herror
                          split at herror
                          · next hinsert =>
                              cases herror
                              refine insertOutputs_error (fun item hitem => ?_) hinsert
                              by_contra habsent
                              have hmem : item.1 ∈ unknownOutputs
                                  task.operation.definition.outputs result :=
                                (sortedStrings_perm _).mem_iff.mpr (List.mem_filter.mpr
                                  ⟨List.mem_map_of_mem hitem, by simpa using habsent⟩)
                              simp [hunknown] at hmem
                          · next hinsert =>
                              obtain ⟨db', hok⟩ := htyped.finishes hintegrity h.recorded hguard
                                htask hrunning htoken hinsert hmissing
                              rw [hok] at herror
                              cases herror
                      · cases herror
                        exact ExnClass.noConfusion
                  · cases herror
                    exact ExnClass.noConfusion

end Completion

/-- In a run without gaps the request of a lease just claimed succeeds and has an
artifact on every required port, and no completion fails on a port that is not
there. -/
theorem inputs_supplied {db : Db}
    (hreach : engine.Reachable (fun db label => suppliesInputs db label = true) db) :
    (∀ now workerId leaseSeconds admission lease db',
      claimTask db now workerId leaseSeconds admission = .ok (some lease, db') →
      ∃ request task, taskRequest db' lease = .ok request ∧
        db'.task? lease.runId lease.nodeId = some task ∧
        ∀ item ∈ task.operation.definition.inputs.rows, item.2.isRequired = true →
          (request.inputs.row? item.1).isSome = true) ∧
    ∀ now lease result error, suppliesInputs db (.completeTask lease result, now) = true →
      completeTask db now lease result = .error error → error.cls ≠ .keyError := by
  constructor
  · intro now workerId leaseSeconds admission lease db' hclaim
    have hafter : (Operation.claimTask workerId leaseSeconds admission).after now db = db' := by
      simp [Operation.after, perform, hclaim, Except.map]
    have hnext : engine.step db (.claimTask workerId leaseSeconds admission, now) = some db' :=
      congrArg some hafter
    have hreach' : engine.Reachable (fun db label => suppliesInputs db label = true) db' :=
      .step hreach rfl hnext
    obtain ⟨-, -, row, hclaimed⟩ := (claimTask_ok hclaim).claimed
    exact (engine_supplied hreach').request (engine_integrity hreach') (engine_typed hreach')
      hclaimed.toHolds ((engine_tokens hreach').held_live hclaimed.toLeased)
  · intro now lease result error hguard herror
    exact (engine_supplied hreach).completes (engine_integrity hreach) (engine_typed hreach)
      hguard herror

/-- The chain when its first task has been completed. -/
def firstCompleted : List (Operation × Time) :=
  chainSubmission ++ [(sampleClaim "w1", 1),
    (.completeTask (sampleLease 2 1 1 "w1" 300000001 .leased none) sampleResult, 2)]

theorem inputs_supplied_firstCompleted :
    let db := engine.after suppliesInputs {} firstCompleted
    db.tasks.rows.map (fun task => (task.nodeId, task.state)) =
        [("a", .succeeded), ("b", .pending)] ∧
    (∀ now workerId leaseSeconds admission lease db',
      claimTask db now workerId leaseSeconds admission = .ok (some lease, db') →
      ∃ request task, taskRequest db' lease = .ok request ∧
        db'.task? lease.runId lease.nodeId = some task ∧
        ∀ item ∈ task.operation.definition.inputs.rows, item.2.isRequired = true →
          (request.inputs.row? item.1).isSome = true) ∧
    ∀ now lease result error, suppliesInputs db (.completeTask lease result, now) = true →
      completeTask db now lease result = .error error → error.cls ≠ .keyError :=
  ⟨by decide, inputs_supplied ((TransitionSystem.Reachable.initial rfl).after firstCompleted)⟩

theorem passInputs_nodup :
    ([("in", { artifactType := "data@1" })].map
      (Keyed.key : String × PortDefinition → String)).Nodup := by decide

/-- The sample operations with their output optional. -/
def lenientRegistry : Registry where
  entries :=
    let work : OperationDefinition := { sampleOperation with
      outputs := ⟨[("out", { artifactType := "data@1", required := some false })], by decide⟩ }
    [⟨"catalog", {
      id := "sample", version := "1.0.0", project := "project",
      operations := [work, { work with
        id := "pass", inputs := ⟨[("in", { artifactType := "data@1" })], passInputs_nodup⟩ }] }⟩]

/-- The first task of the chain omits its optional output, which the second
reads. -/
def omittedOutput : List (Operation × Time) :=
  [(.registerWorkflow chainWorkflow lenientRegistry "digest", 0),
   (.submitRun "chain" "1.0.0" none Table.empty "cluster" none, 0), (sampleClaim "w1", 1),
   (.completeTask (sampleLease 2 1 1 "w1" 300000001 .leased none) ⟨Table.empty, "", Table.empty⟩,
    2)]

/-- The first task of the chain is retried while the second is on its target. -/
def retriedUpstream : List (Operation × Time) :=
  halfChain ++ [(.markSubmitting chainLease, 4),
    (.recordSubmission chainLease "job-1" "queued" Table.empty, 5),
    (.releaseLease chainLease, 6), (.retryTask 0 "a", 7)]

/-- The second task of the chain is leased and both have optional outputs. -/
def lastLeased : List (Operation × Time) :=
  [(.registerWorkflow chainWorkflow lenientRegistry "digest", 0),
   (.submitRun "chain" "1.0.0" none Table.empty "cluster" none, 0), (sampleClaim "w1", 1),
   (.completeTask (sampleLease 2 1 1 "w1" 300000001 .leased none) sampleResult, 2),
   (sampleClaim "w2", 3)]

theorem optionalInput_nodes_ne_nil :
    [{ sampleNode "b" with operation := ⟨"sample", "1.0.0", "pass"⟩ }] ≠ [] :=
  List.cons_ne_nil _ _

/-- Node "b" of the chain alone, fed by an optional workflow input. -/
def optionalInputWorkflow : Workflow where
  id := "chain"
  version := "1.0.0"
  nodes := [{ sampleNode "b" with operation := ⟨"sample", "1.0.0", "pass"⟩ }]
  nonempty := optionalInput_nodes_ne_nil
  edges := []
  inputs := ⟨[("data", ⟨"data@1", some false, ⟨"b", "in"⟩⟩)], by decide⟩
  outputs := Table.empty

def absentInput : List (Operation × Time) :=
  [(.registerWorkflow optionalInputWorkflow chainRegistry "digest", 0),
   (.submitRun "chain" "1.0.0" none Table.empty "cluster" none, 0)]

/-- Each gap is reached: the request of a fresh and of a recovered lease fails on a
port, a request lacks a required input, and the last completion fails on a port. -/
theorem inputs_not_supplied :
    (∃ db, engine.Reachable TransitionSystem.anyStep db ∧ ∃ lease db',
      claimTask db 3 "w2" 300 .any = .ok (some lease, db') ∧ lease.recovered = false ∧
      taskRequest db' lease = .error (keyError "out")) ∧
    (∃ db, engine.Reachable TransitionSystem.anyStep db ∧ ∃ lease db',
      claimTask db 8 "w2" 300 .any = .ok (some lease, db') ∧ lease.recovered = true ∧
      taskRequest db' lease = .error (keyError "out")) ∧
    (∃ db, engine.Reachable TransitionSystem.anyStep db ∧ ∃ lease db' request task,
      claimTask db 1 "w2" 300 .any = .ok (some lease, db') ∧
      taskRequest db' lease = .ok request ∧ request.inputs.rows = [] ∧
      db'.task? lease.runId lease.nodeId = some task ∧
      task.operation.definition.inputs.rows = [("in", { artifactType := "data@1" })]) ∧
    ∃ db, engine.Reachable TransitionSystem.anyStep db ∧
      completeTask db 4 chainLease ⟨Table.empty, "", Table.empty⟩ = .error (keyError "out") := by
  have hreach : ∀ labels, engine.Reachable TransitionSystem.anyStep
      (engine.after (fun _ _ => true) {} labels) := fun labels =>
    ((TransitionSystem.Reachable.initial rfl).after labels).unguarded
  exact ⟨⟨_, hreach omittedOutput, _, _, rfl, rfl, rfl⟩,
    ⟨_, hreach retriedUpstream, _, _, rfl, rfl, rfl⟩,
    ⟨_, hreach absentInput, _, _, _, _, rfl, rfl, rfl, rfl, rfl⟩,
    ⟨_, hreach lastLeased, rfl⟩⟩

end QhpcEcosystem
