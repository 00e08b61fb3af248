/-
Admission against a registry snapshot.  `submit_run` resolves the definition of a
workflow again when it is given a registry, but builds the tasks from the
resolution that registration stored; a worker compares every request with the
registry it was deployed with.
-/
import QhpcEcosystem.TaskChange

namespace QhpcEcosystem

/-! ## What a registry publishes -/

/-- The uniqueness demanded by `_validate_registry` and `_validate_capability`. -/
structure Registry.Valid (registry : Registry) : Prop where
  versions : (registry.entries.map fun entry =>
    entry.capability.id ++ "@" ++ entry.capability.version).Nodup
  operations : ∀ entry ∈ registry.entries,
    (entry.capability.operations.map OperationDefinition.id).Nodup

/-- The reference and the digest of a runtime. -/
def RuntimeDefinition.identity (runtime : RuntimeDefinition) : String × String :=
  (runtime.reference, runtime.digest)

/-- The runtime of the operation that `resolve_workflow` finds for a reference. -/
def Registry.runtime? (registry : Registry) (reference : OperationReference) :
    Option (String × String) := do
  let entry ← registry.entryAt reference.capability reference.version
  let operation ← entry.capability.operations.find? fun operation =>
    operation.id = reference.operation
  pure operation.runtime.identity

/-- The assignments of `_RegistryAdmission.__init__` for one entry. -/
def RegistryEntry.runtimes (entry : RegistryEntry) :
    List ((String × String × String) × String × String) :=
  entry.capability.operations.map fun operation =>
    ((entry.capability.id, entry.capability.version, operation.id), operation.runtime.identity)

/-- `_RegistryAdmission._operations`. -/
def Registry.operations (registry : Registry) :
    Dict (String × String × String) (String × String) :=
  (registry.entries.flatMap RegistryEntry.runtimes).foldl Table.set Table.empty

/-- `_RegistryAdmission._admit`. -/
def registryAdmit (registry : Registry) (request : TaskRequest) : Except Exn Unit :=
  let key := (request.capabilityId, request.capabilityVersion, request.operationId)
  let label := key.1 ++ "@" ++ key.2.1 ++ "/" ++ key.2.2
  match registry.operations.row? key with
  | none => .error ⟨.taskRejected,
      "operation is not admitted by the deployment registry: " ++ label, []⟩
  | some (_, runtime) =>
      if runtime ≠ (request.runtimeReference, request.runtimeDigest) then
        .error ⟨.taskRejected, "runtime does not match the deployment registry: " ++ label, []⟩
      else .ok ()

theorem Registry.entryAt_eq_some {registry : Registry} {id version : String}
    {entry : RegistryEntry} (h : registry.entryAt id version = some entry) :
    entry ∈ registry.entries ∧ entry.capability.id = id ∧ entry.capability.version = version := by
  have hkey := List.find?_some h
  exact ⟨List.mem_of_find?_eq_some h, of_decide_eq_true hkey⟩

namespace Registry.Valid

variable {registry : Registry} (h : registry.Valid)

include h

theorem nodup_keys :
    ((registry.entries.flatMap RegistryEntry.runtimes).map Prod.fst).Nodup := by
  rw [List.map_flatMap, List.nodup_flatMap]
  constructor
  · intro entry hentry
    have hmap : entry.runtimes.map Prod.fst = (entry.capability.operations.map
        OperationDefinition.id).map fun id =>
          (entry.capability.id, entry.capability.version, id) := by
      simp [RegistryEntry.runtimes, Function.comp_def]
    rw [hmap]
    refine (h.operations entry hentry).map fun id id' heq => ?_
    simpa using heq
  · refine (List.pairwise_map.mp h.versions).imp fun hne => ?_
    -- a shared key has the capability and the version of both entries
    intro key hkey hkey'
    simp only [RegistryEntry.runtimes, List.map_map, List.mem_map, Function.comp_apply]
      at hkey hkey'
    obtain ⟨operation, -, rfl⟩ := hkey
    obtain ⟨operation', -, heq⟩ := hkey'
    simp only [Prod.mk.injEq] at heq
    exact hne (by rw [heq.1, heq.2.1])

theorem entry_unique {entry other : RegistryEntry} (hentry : entry ∈ registry.entries)
    (hother : other ∈ registry.entries) (hid : other.capability.id = entry.capability.id)
    (hversion : other.capability.version = entry.capability.version) : other = entry :=
  List.inj_on_of_nodup_map h.versions hother hentry (by rw [hid, hversion])

theorem found_of_mem {entry : RegistryEntry} (hentry : entry ∈ registry.entries)
    {operation : OperationDefinition} (hoperation : operation ∈ entry.capability.operations) :
    registry.entryAt entry.capability.id entry.capability.version = some entry ∧
      entry.capability.operations.find? (fun other => decide (other.id = operation.id)) =
        some operation := by
  constructor
  · refine find?_eq_some_of_unique hentry (by simp) fun other hother hkey => ?_
    obtain ⟨hid, hversion⟩ := of_decide_eq_true hkey
    exact h.entry_unique hentry hother hid hversion
  · refine find?_eq_some_of_unique hoperation (by simp) fun other hother hkey => ?_
    exact List.inj_on_of_nodup_map (h.operations entry hentry) hother hoperation
      (of_decide_eq_true hkey)

/-- Resolution finds every operation that is published. -/
theorem runtime?_of_mem {entry : RegistryEntry} (hentry : entry ∈ registry.entries)
    {operation : OperationDefinition} (hoperation : operation ∈ entry.capability.operations) :
    registry.runtime? ⟨entry.capability.id, entry.capability.version, operation.id⟩ =
      some operation.runtime.identity := by
  obtain ⟨hfound, hpublished⟩ := h.found_of_mem hentry hoperation
  simp [Registry.runtime?, hfound, hpublished]

/-- The dictionary of the worker holds the runtimes that resolution finds. -/
theorem row?_operations (reference : OperationReference) (runtime : String × String) :
    registry.operations.row? (reference.capability, reference.version, reference.operation) =
      some ((reference.capability, reference.version, reference.operation), runtime) ↔
    registry.runtime? reference = some runtime := by
  rw [Registry.operations, Table.row?_foldl_set _ h.nodup_keys, Table.row?_empty, Option.or_none]
  constructor
  · intro hfound
    have hmem := List.mem_of_find?_eq_some hfound
    simp only [List.mem_flatMap, RegistryEntry.runtimes, List.mem_map, Prod.mk.injEq] at hmem
    obtain ⟨entry, hentry, operation, hoperation, ⟨hid, hversion, hname⟩, rfl⟩ := hmem
    have hruntime := h.runtime?_of_mem hentry hoperation
    rwa [hid, hversion, hname] at hruntime
  · intro hruntime
    simp only [Registry.runtime?, bind, Option.bind_eq_some_iff, pure, Option.some.injEq]
      at hruntime
    obtain ⟨entry, hentry, operation, hoperation, rfl⟩ := hruntime
    obtain ⟨hmem, hid, hversion⟩ := Registry.entryAt_eq_some hentry
    have hname := List.find?_some hoperation
    rw [decide_eq_true_eq] at hname
    have hitem : ((reference.capability, reference.version, reference.operation),
        operation.runtime.identity) ∈ registry.entries.flatMap RegistryEntry.runtimes := by
      refine List.mem_flatMap.mpr ⟨entry, hmem, List.mem_map.mpr
        ⟨operation, List.mem_of_find?_eq_some hoperation, ?_⟩⟩
      rw [hid, hversion, hname]
    refine find?_eq_some_of_unique hitem (by simp [Keyed.key]) fun other hother hkey => ?_
    exact List.inj_on_of_nodup_map h.nodup_keys hother hitem (of_decide_eq_true hkey)

/-- A worker admits a request when the registry publishes its operation with its
runtime. -/
theorem registryAdmit_ok_iff (request : TaskRequest) : registryAdmit registry request = .ok () ↔
    registry.runtime? ⟨request.capabilityId, request.capabilityVersion, request.operationId⟩ =
      some (request.runtimeReference, request.runtimeDigest) := by
  rw [← h.row?_operations]
  simp only [registryAdmit]
  split
  · next hnone => simp [hnone]
  · next key runtime hfound =>
      have hkey := Table.key_of_row? hfound
      simp only [Keyed.key] at hkey
      rw [hfound, hkey]
      by_cases heq : runtime = (request.runtimeReference, request.runtimeDigest)
      · simp [heq]
      · simp [heq]

end Registry.Valid

theorem Registry.Resolves.reference {registry : Registry} {node : Node}
    {item : ResolvedOperation} (h : registry.Resolves node item) :
    item.capabilityId = node.operation.capability ∧
    item.capabilityVersion = node.operation.version ∧
    item.operation.id = node.operation.operation := by
  obtain ⟨entry, operation, hentry, hoperation, rfl⟩ := h
  obtain ⟨-, hid, hversion⟩ := Registry.entryAt_eq_some hentry
  have hname := List.find?_some hoperation
  rw [decide_eq_true_eq] at hname
  exact ⟨hid, hversion, hname⟩

theorem Registry.Resolves.runtime? {registry : Registry} {node : Node}
    {item : ResolvedOperation} (h : registry.Resolves node item) :
    registry.runtime? node.operation = some item.operation.runtime.identity := by
  obtain ⟨entry, operation, hentry, hoperation, rfl⟩ := h
  simp [Registry.runtime?, hentry, hoperation]

/-! ## Requests and task rows -/

/-- The request carries the operation and the runtime of the task row. -/
structure TaskRequest.BuiltFrom (request : TaskRequest) (task : Task) : Prop where
  capability : request.capabilityId = task.operation.capability
  version : request.capabilityVersion = task.operation.version
  operation : request.operationId = task.operation.operation
  reference : request.runtimeReference = task.operation.definition.runtime.reference
  digest : request.runtimeDigest = task.operation.definition.runtime.digest

theorem taskRequestFor_builtFrom {db : Db} {runId : Uuid} {nodeId : String}
    {attemptId : Uuid} {request : TaskRequest}
    (h : taskRequestFor db runId nodeId attemptId = .ok request) :
    ∃ task, db.task? runId nodeId = some task ∧ request.BuiltFrom task := by
  obtain ⟨_, _, task, _, _, -, -, htask, -, -, rfl⟩ := taskRequestFor_eq_ok h
  exact ⟨task, htask, rfl, rfl, rfl, rfl, rfl⟩

/-- A worker that is bound to the registry admits the tasks of the run. -/
structure Db.Admits (db : Db) (registry : Registry) (runId : Uuid) : Prop where
  rows : ∀ task ∈ db.tasks.rows, task.runId = runId → ∀ request : TaskRequest,
    request.BuiltFrom task → registryAdmit registry request = .ok ()
  requests : ∀ lease request, lease.runId = runId → taskRequest db lease = .ok request →
    registryAdmit registry request = .ok ()

/-- The registry publishes the operation of the task with the runtime of the
row. -/
def Task.publishedBy (registry : Registry) (task : Task) : Prop :=
  registry.runtime? ⟨task.operation.capability, task.operation.version,
    task.operation.operation⟩ = some task.operation.definition.runtime.identity

/-- Some request carries the operation of the row. -/
theorem Task.exists_request (task : Task) : ∃ request : TaskRequest, request.BuiltFrom task :=
  ⟨{ runId := task.runId
     nodeId := task.nodeId
     capabilityId := task.operation.capability
     capabilityVersion := task.operation.version
     operationId := task.operation.operation
     runtimeReference := task.operation.definition.runtime.reference
     runtimeDigest := task.operation.definition.runtime.digest
     parameters := Table.empty
     inputs := Table.empty
     outputTypes := Table.empty
     workDirectory := []
     project := task.operation.project
     attemptId := 0
     executionTarget := ""
     executionClass := ""
     runtimeType := ""
     entrypoint := []
     arguments := []
     resources := Table.empty }, rfl, rfl, rfl, rfl, rfl⟩

theorem Db.admits_iff {db : Db} {registry : Registry} (hvalid : registry.Valid)
    {runId : Uuid} : db.Admits registry runId ↔
      ∀ task ∈ db.tasks.rows, task.runId = runId → task.publishedBy registry := by
  have hrequest : ∀ (request : TaskRequest) (task : Task), request.BuiltFrom task →
      (registryAdmit registry request = .ok () ↔ task.publishedBy registry) := by
    intro request task hbuilt
    rw [hvalid.registryAdmit_ok_iff, hbuilt.capability, hbuilt.version, hbuilt.operation,
      hbuilt.reference, hbuilt.digest]
    rfl
  constructor
  · intro h task htask hrun
    obtain ⟨request, hbuilt⟩ := task.exists_request
    exact (hrequest request task hbuilt).mp (h.rows task htask hrun request hbuilt)
  · intro h
    refine ⟨fun task htask hrun request hbuilt => (hrequest request task hbuilt).mpr
      (h task htask hrun), fun lease request hrun hok => ?_⟩
    simp only [taskRequest, bind, Except.bind] at hok
    split at hok
    · cases hok
    · obtain ⟨task, htask, hbuilt⟩ := taskRequestFor_builtFrom hok
      exact (hrequest request task hbuilt).mpr (h task (Table.mem_of_row? htask)
        ((Db.place_of_task? htask).1.trans hrun))

/-- Every later operation keeps the operations of the tasks of a run. -/
theorem Db.task_leads {db later : Db} {runId : Uuid} {guard : Db → Operation × Time → Prop}
    (hleads : engine.Leads guard db later) (hdrawn : runId < db.uuids) :
    runId < later.uuids ∧ ∀ task ∈ later.tasks.rows, task.runId = runId →
      ∃ old ∈ db.tasks.rows, old.runId = runId ∧ old.nodeId = task.nodeId ∧
        task.operation = old.operation := by
  induction hleads with
  | refl => exact ⟨hdrawn, fun task htask hrun => ⟨task, htask, hrun, rfl, rfl⟩⟩
  | @step current next label _ _ hnext ih =>
      obtain ⟨hdrawn, hall⟩ := ih
      cases hnext
      have htransition := label.1.transition label.2 current
      refine ⟨hdrawn.trans_le htransition.grows.uuids, fun task htask hrun => ?_⟩
      rcases htransition.taskChanges.new task htask with
        ⟨old, hold, holdRun, hnode, hchange⟩ | ⟨_, _, hadds, hadded⟩
      · obtain ⟨first, hfirst, hfirstRun, hfirstNode, hoperation⟩ :=
          hall old hold (holdRun.symm.trans hrun)
        exact ⟨first, hfirst, hfirstRun, hfirstNode.trans hnode.symm,
          hchange.operation_eq.trans hoperation⟩
      · -- a later submission draws a new identifier
        obtain ⟨_, _, _, _, hsubmits, -⟩ := hadds.submits
        obtain ⟨_, _, rfl⟩ := hsubmits.run_eq
        have hnew := (hsubmits.pending task hadded).1
        rw [hrun] at hnew
        exact absurd hnew (Nat.ne_of_lt hdrawn)

theorem Db.publishedBy_leads {db later : Db} {registry : Registry} {runId : Uuid}
    {guard : Db → Operation × Time → Prop} (hleads : engine.Leads guard db later)
    (hdrawn : runId < db.uuids)
    (h : ∀ task ∈ db.tasks.rows, task.runId = runId → task.publishedBy registry) :
    ∀ task ∈ later.tasks.rows, task.runId = runId → task.publishedBy registry := by
  intro task htask hrun
  obtain ⟨old, hold, holdRun, -, hoperation⟩ :=
    (Db.task_leads hleads hdrawn).2 task htask hrun
  unfold Task.publishedBy
  rw [hoperation]
  exact h old hold holdRun

/-! ## Submission against a registry -/

/-- The stored resolution comes from the registry. -/
def WorkflowRow.ResolvedBy (row : WorkflowRow) (registry : Registry) : Prop :=
  resolveWorkflow row.definition registry = .ok ⟨row.definition, row.resolution⟩

/-- Every stored workflow was resolved by the registry it was registered with. -/
theorem engine_resolvedBy {guard : Db → Operation × Time → Prop} {db : Db}
    (hreach : engine.Reachable guard db) :
    ∀ row ∈ db.workflowVersions.rows, ∃ origin, row.ResolvedBy origin := by
  let Inv (db : Db) : Prop := ∀ row ∈ db.workflowVersions.rows, ∃ origin, row.ResolvedBy origin
  have hempty : Inv {} := by simp [Inv]
  refine engine_invariant hempty ?_ hreach
  intro db now operation db' _ h _ hstep row hrow
  rcases hstep.grows.resolvedVersions row hrow with hold | ⟨origin, resolved, hresolved, -, -, heq⟩
  · exact h row hold
  · refine ⟨origin, ?_⟩
    unfold WorkflowRow.ResolvedBy
    rw [hresolved, heq, ← (resolveWorkflow_ok hresolved).1]

/-- A submission against a registry resolves the stored definition. -/
theorem submitRun_resolves {db db' : Db} {now : Time} {workflowId version : String}
    {registry : Registry} {inputs : ArtifactIds} {executionTarget : String}
    {executionClass : Option String} {runId : Uuid} {row : WorkflowRow}
    (h : submitRun db now workflowId version (some registry) inputs executionTarget
      executionClass = .ok (runId, db'))
    (hrow : db.workflowVersions.row? (workflowId, version) = some row) :
    ∃ resolved, resolveWorkflow row.definition registry = .ok resolved := by
  simp only [submitRun, hrow, checkSubmission, checkRegistry, bind, Except.bind] at h
  cases hresolved : resolveWorkflow row.definition registry with
  | error error => simp [hresolved, Except.map] at h
  | ok resolved => exact ⟨resolved, rfl⟩

section Submission

variable {guard : Db → Operation × Time → Prop} {db db' : Db} {now : Time}
  {workflowId version executionTarget : String} {registry : Registry} {inputs : ArtifactIds}
  {executionClass : Option String} {runId : Uuid}

/-- The rows of a run are published by the registry it was submitted against when
the registry of the stored resolution has the same runtimes. -/
theorem submitRun_publishedBy {row : WorkflowRow} {origin : Registry}
    (hreach : engine.Reachable guard db)
    (hsubmit : submitRun db now workflowId version (some registry) inputs executionTarget
      executionClass = .ok (runId, db'))
    (hrow : db.workflowVersions.row? (workflowId, version) = some row)
    (horigin : row.ResolvedBy origin) :
    (∀ task ∈ db'.tasks.rows, task.runId = runId → task.publishedBy registry) ↔
      ∀ node ∈ row.definition.nodes,
        origin.runtime? node.operation = registry.runtime? node.operation := by
  obtain ⟨found, tasks, hfound, rfl, -, -, hnodes, htasks, hchanges⟩ := submitRun_ok hsubmit
  obtain rfl := Option.some.inj (hrow.symm.trans hfound)
  obtain ⟨resolved, hresolved⟩ := submitRun_resolves hsubmit hrow
  obtain ⟨-, hwf, -⟩ := resolveWorkflow_ok horigin
  have hstored := resolveWorkflow_resolves horigin
  -- a row of the run carries the stored operation of its node
  have hrowOf : ∀ task ∈ tasks, ∃ node ∈ row.definition.nodes, node.id = task.nodeId ∧
      (task.publishedBy registry ↔
        origin.runtime? node.operation = registry.runtime? node.operation) := by
    intro task htask
    obtain ⟨node, item, hnode, hitem, heq⟩ := htasks task htask
    have hmem := List.mem_of_find?_eq_some hnode
    have hid : node.id = task.nodeId := by simpa using List.find?_some hnode
    refine ⟨node, hmem, hid, ?_⟩
    obtain ⟨item', hitem', hresolves⟩ := hstored node hmem
    rw [hid] at hitem'
    obtain ⟨-, rfl⟩ := Prod.mk.inj (Option.some.inj (hitem.symm.trans hitem'))
    obtain ⟨hcapability, hversion, hoperation⟩ := hresolves.reference
    unfold Task.publishedBy
    rw [hresolves.runtime?, heq]
    simp only [newTask, hcapability, hversion, hoperation]
    exact eq_comm
  have hnew : ∀ task ∈ tasks, task ∈ db'.tasks.rows ∧ task.runId = db.uuids := by
    intro task htask
    obtain ⟨node, item, -, -, heq⟩ := htasks task htask
    refine ⟨hchanges.mem_tasks.mpr (.inr htask), ?_⟩
    rw [heq]
    rfl
  constructor
  · intro h node hnode
    have hplace : node.id ∈ (topologicalNodes row.definition).zipIdx.map Prod.fst := by
      rw [List.zipIdx_map_fst]
      exact (mem_topologicalNodes hwf node.id).mpr (List.mem_map_of_mem hnode)
    rw [← hnodes, List.map_map] at hplace
    obtain ⟨task, htask, hid⟩ := List.mem_map.mp hplace
    obtain ⟨other, hother, hotherId, hiff⟩ := hrowOf task htask
    obtain rfl : other = node :=
      List.inj_on_of_nodup_map hwf.nodup hother hnode (hotherId.trans hid)
    exact hiff.mp (h task (hnew task htask).1 (hnew task htask).2)
  · intro h task htask hrun
    obtain ⟨old, hold, rfl⟩ | hadded := hchanges.mem_tasks.mp htask
    · exact absurd hrun (Db.Submits.elsewhere (engine_integrity hreach) hchanges old hold)
    · obtain ⟨node, hnode, -, hiff⟩ := hrowOf task hadded
      exact hiff.mpr (h node hnode)

/-- The tasks of a run that was accepted against a valid registry are admitted by
the workers bound to it, now and later, exactly when the registry that the stored
workflow was resolved by has the same runtime for the operation of every node. -/
theorem submission_admitted_iff (hreach : engine.Reachable guard db) (hvalid : registry.Valid)
    (hsubmit : submitRun db now workflowId version (some registry) inputs executionTarget
      executionClass = .ok (runId, db')) :
    ∃ row, db.workflowVersions.row? (workflowId, version) = some row ∧
      (∃ origin, row.ResolvedBy origin) ∧ ∀ origin, row.ResolvedBy origin →
        ((∀ later, engine.Leads TransitionSystem.anyStep db' later → later.Admits registry runId) ↔
          ∀ node ∈ row.definition.nodes,
            origin.runtime? node.operation = registry.runtime? node.operation) := by
  obtain ⟨row, tasks, hrow, hrun, huuids, -⟩ := submitRun_ok hsubmit
  have hdrawn : runId < db'.uuids := by
    rw [hrun, huuids]
    exact Nat.lt_succ_self _
  refine ⟨row, hrow, engine_resolvedBy hreach row (Table.mem_of_row? hrow),
    fun origin horigin => ?_⟩
  rw [← submitRun_publishedBy hreach hsubmit hrow horigin]
  constructor
  · intro h
    exact (Db.admits_iff hvalid).mp (h db' .refl)
  · intro h later hleads
    exact (Db.admits_iff hvalid).mpr (Db.publishedBy_leads hleads hdrawn h)

end Submission

/-- The sample registry after its operation was published again with a new
image. -/
def republishedRegistry : Registry where
  entries := [⟨"catalog", {
    id := "sample", version := "1.0.0", project := "project",
    operations := [{ sampleOperation with
      runtime := ⟨"apptainer", "/images/work.sif", "sha256:ff"⟩ }] }⟩]

theorem sampleRegistry_valid : sampleRegistry.Valid :=
  ⟨by decide, by decide⟩

theorem republishedRegistry_valid : republishedRegistry.Valid :=
  ⟨by decide, by decide⟩

/-- Register the sample workflow and submit it against a registry. -/
def boundSubmission (registry : Registry) : List (Operation × Time) :=
  [(.registerWorkflow sampleWorkflow sampleRegistry "digest", 0),
   (.submitRun "pair" "1.0.0" (some registry) Table.empty "cluster" none, 0),
   (sampleClaim "w1", 1)]

/-- The run is accepted against the new registry, but its tasks still carry the
old image and a worker of the new registry rejects them. -/
theorem submission_outruns_registry :
    sampleRegistry.Valid ∧ republishedRegistry.Valid ∧
    let db := engine.after (fun _ _ => true) {} ((boundSubmission republishedRegistry).take 1)
    let claimed := engine.after (fun _ _ => true) {} (boundSubmission republishedRegistry)
    (submitRun db 0 "pair" "1.0.0" (some republishedRegistry) Table.empty "cluster"
      none).toOption.map Prod.fst = some 0 ∧
    ∃ request, taskRequest claimed (sampleLease 2 1 1 "w1" 300000001 .leased none) =
        .ok request ∧
      registryAdmit republishedRegistry request = .error ⟨.taskRejected,
        "runtime does not match the deployment registry: sample@1.0.0/work", []⟩ :=
  ⟨sampleRegistry_valid, republishedRegistry_valid, by decide, _, rfl, rfl⟩

theorem submission_admitted_iff_sample :
    let db := engine.after (fun _ _ => true) {} ((boundSubmission sampleRegistry).take 1)
    ∃ db' row, submitRun db 0 "pair" "1.0.0" (some sampleRegistry) Table.empty "cluster" none =
        .ok (0, db') ∧
      db.workflowVersions.row? ("pair", "1.0.0") = some row ∧
      ∀ later, engine.Leads TransitionSystem.anyStep db' later →
        later.Admits sampleRegistry 0 := by
  intro db
  have hreach : engine.Reachable _ db := TransitionSystem.Reachable.after (.initial rfl) _
  have hsubmit : ∃ db', submitRun db 0 "pair" "1.0.0" (some sampleRegistry) Table.empty "cluster"
      none = .ok (0, db') := ⟨_, rfl⟩
  obtain ⟨db', hsubmit⟩ := hsubmit
  obtain ⟨row, hrow, -, hiff⟩ := submission_admitted_iff hreach sampleRegistry_valid hsubmit
  have horigin : row.ResolvedBy sampleRegistry := by
    cases hrow
    rfl
  exact ⟨db', row, hsubmit, hrow, (hiff sampleRegistry horigin).mpr fun _ _ => rfl⟩

end QhpcEcosystem
