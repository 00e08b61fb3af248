/-
The checks of the graph of a workflow: those of `_validate_workflow`, and those of
`resolve_workflow` on ports and connections.  Resolution passes them and the checks of the
single nodes.
-/
import QhpcEcosystem.ResolveWorkflow

namespace QhpcEcosystem

/-! ## Documents without issues -/

/-- A well-formed workflow has no issues. -/
theorem validateWorkflow_of_wellFormed {workflow : Workflow} (hwf : workflow.WellFormed) :
    validateWorkflow workflow = [] := by
  obtain ⟨rank, hrank⟩ := hwf.acyclic
  have hsources : ∀ ends ∈ workflow.graphEdges, ends.1 ∈ workflow.nodeIds :=
    fun ends hmem => (graphEdges_known hmem).1
  have hvisited : workflow.visitedNodes.Perm workflow.nodeIds := by
    refine Worklist.order_perm pushBack_perm (fun _ => List.Perm.refl _) hwf.nodup
      (Worklist.Graph.ofEdges_counts hwf.nodup hsources) ?_ rank ?_
    · intro node target hadj
      rw [Worklist.Graph.mem_ofEdges hwf.nodup hsources] at hadj
      exact (graphEdges_known hadj).2
    · intro source _ target hadj
      rw [Worklist.Graph.mem_ofEdges hwf.nodup hsources] at hadj
      obtain ⟨edge, hedge, hends⟩ := List.mem_map.mp hadj
      obtain ⟨rfl, rfl⟩ := Prod.mk.inj hends
      exact hrank edge (List.mem_filter.mp hedge).1
  simp only [validateWorkflow, List.append_eq_nil_iff, List.flatMap_eq_nil_iff]
  refine ⟨⟨⟨⟨duplicateIssues_of_nodup hwf.nodup, fun item hitem => ?_⟩,
    fun item hitem => unknownNodeIssue_eq_nil.mpr (hwf.inputs item hitem)⟩,
    fun item hitem => unknownNodeIssue_eq_nil.mpr (hwf.outputs item hitem)⟩, ?_⟩
  · have hedge : item.1 ∈ workflow.edges := (List.mem_zipIdx' hitem).2 ▸ List.getElem_mem _
    refine edgeIssues_eq_nil.mpr ⟨hwf.sources _ hedge, hwf.targets _ hedge,
      hwf.edgeTypes _ hedge, fun hself => ?_⟩
    have hlt := hrank item.1 hedge
    rw [hself] at hlt
    exact absurd hlt (lt_irrefl _)
  · rw [if_neg]
    rw [hwf.nodup.dedup, hvisited.length_eq]
    exact fun h => h.2 rfl

/-! ## Ports without issues -/

section Ports

variable {resolved : ResolvedWorkflow} {node port artifactType : String}

theorem outputIssues_of_hasOutput (h : resolved.HasOutput node port artifactType)
    (portPath typePath : String) :
    outputIssues resolved.operations node port artifactType portPath typePath = [] := by
  obtain ⟨operation, output, hrow, hport, rfl⟩ := h
  simp [outputIssues, hrow, hport]

theorem inputIssues_of_hasInput (h : resolved.HasInput node port artifactType)
    (portPath typePath : String) :
    inputIssues resolved.operations node port artifactType portPath typePath = [] := by
  obtain ⟨operation, input, hrow, hport, rfl⟩ := h
  simp [inputIssues, hrow, hport]

theorem countIncoming_of_hasInput (h : resolved.HasInput node port artifactType)
    (incoming : List (String × String)) :
    countIncoming resolved.operations incoming node port = incoming ++ [(node, port)] := by
  obtain ⟨operation, -, hrow, -⟩ := h
  simp [countIncoming, hrow]

/-- A port that is counted once has one artifact. -/
theorem multipleIssues_of_count {operations : Dict String ResolvedOperation}
    {incoming : List (String × String)} (h : incoming.count (node, port) ≤ 1) (path : String) :
    multipleIssues operations incoming node port path = [] := by
  unfold multipleIssues
  split
  · rfl
  · split
    · rfl
    · rw [if_neg]
      exact fun hmultiple => absurd hmultiple.2 (by omega)

end Ports

/-- The port at the target of an edge. -/
def Edge.targetPort (edge : Edge) : String × String := (edge.target.node, edge.target.port)

def inputPort (item : String × WorkflowInput) : String × String :=
  (item.2.target.node, item.2.target.port)

section Loops

variable {resolved : ResolvedWorkflow}

/-- Edges between declared ports, each target once, have no issues and are counted. -/
theorem resolveEdges_of_hasPorts (edges : List (Edge × Nat)) (incoming : List (String × String))
    (hsources : ∀ item ∈ edges, resolved.HasOutput item.1.source.node item.1.source.port
      item.1.source.artifactType)
    (htargets : ∀ item ∈ edges, resolved.HasInput item.1.target.node item.1.target.port
      item.1.target.artifactType)
    (hsingle : (incoming ++ edges.map fun item => item.1.targetPort).Nodup) :
    resolveEdges resolved.operations edges incoming =
      ([], incoming ++ edges.map fun item => item.1.targetPort) := by
  induction edges generalizing incoming with
  | nil => simp [resolveEdges]
  | cons head rest ih =>
      obtain ⟨edge, index⟩ := head
      have hcount := countIncoming_of_hasInput (htargets _ List.mem_cons_self) incoming
      have hsplit : incoming ++ ((edge, index) :: rest).map (fun item => item.1.targetPort) =
          incoming ++ [(edge.target.node, edge.target.port)] ++
            rest.map fun item => item.1.targetPort := by
        rw [List.append_assoc]
        rfl
      rw [hsplit] at hsingle ⊢
      have honce := List.nodup_iff_count_le_one.mp (List.nodup_append'.mp hsingle).1
        (edge.target.node, edge.target.port)
      simp only [resolveEdges, hcount]
      rw [ih _ (fun item hitem => hsources item (List.mem_cons_of_mem _ hitem))
        (fun item hitem => htargets item (List.mem_cons_of_mem _ hitem)) hsingle,
        outputIssues_of_hasOutput (hsources _ List.mem_cons_self),
        inputIssues_of_hasInput (htargets _ List.mem_cons_self),
        multipleIssues_of_count honce]
      rfl

theorem resolveInputs_of_hasPorts (inputs : List (String × WorkflowInput))
    (incoming : List (String × String))
    (htargets : ∀ item ∈ inputs, resolved.HasInput item.2.target.node item.2.target.port
      item.2.artifactType) :
    resolveInputs resolved.operations inputs incoming =
      ([], incoming ++ inputs.map inputPort) := by
  induction inputs generalizing incoming with
  | nil => simp [resolveInputs]
  | cons head rest ih =>
      obtain ⟨name, input⟩ := head
      have hcount := countIncoming_of_hasInput (htargets _ List.mem_cons_self) incoming
      simp only [resolveInputs, hcount]
      rw [ih _ fun item hitem => htargets item (List.mem_cons_of_mem _ hitem),
        inputIssues_of_hasInput (htargets _ List.mem_cons_self), List.append_assoc]
      rfl

end Loops

/-! ## The checks -/

/-- The operation that `_resolve_node` returns. -/
def Registry.operation? (registry : Registry) (node : Node) : Option ResolvedOperation := do
  let entry ← registry.entryAt node.operation.capability node.operation.version
  let operation ← entry.capability.operations.find? fun operation =>
    operation.id = node.operation.operation
  pure ⟨node.id, entry.capability.id, entry.capability.version, entry.capability.project, operation⟩

/-- The operations that the node loop of `resolve_workflow` adds. -/
def Registry.addOperations (registry : Registry) :
    List Node → Dict String ResolvedOperation → Dict String ResolvedOperation
  | [], resolved => resolved
  | node :: rest, resolved => registry.addOperations rest
      (match registry.operation? node with
        | some operation => resolved.set (node.id, operation)
        | none => resolved)

def Registry.resolvedOperations (registry : Registry) (workflow : Workflow) :
    Dict String ResolvedOperation :=
  registry.addOperations workflow.nodes Table.empty

/-- The workflow passes the checks of its graph. -/
structure GraphChecks (registry : Registry) (workflow : Workflow) : Prop where
  contract : validateWorkflow workflow = []
  edges : (resolveEdges (registry.resolvedOperations workflow) workflow.edges.zipIdx []).1 = []
  inputs : (resolveInputs (registry.resolvedOperations workflow) workflow.inputs.rows
    (resolveEdges (registry.resolvedOperations workflow) workflow.edges.zipIdx []).2).1 = []
  outputs : resolveOutputs (registry.resolvedOperations workflow) workflow.outputs.rows = []
  connected : unconnectedIssues (registry.resolvedOperations workflow)
    (resolveInputs (registry.resolvedOperations workflow) workflow.inputs.rows
      (resolveEdges (registry.resolvedOperations workflow) workflow.edges.zipIdx []).2).2 = []

section Resolution

variable {registry : Registry}

theorem resolveNode_operation {node : Node} {issues : List ContractIssue}
    {operation : Option ResolvedOperation}
    (h : resolveNode node registry = .ok (issues, operation)) :
    operation = registry.operation? node := by
  unfold resolveNode at h
  simp only at h
  split at h
  · next error herror =>
      split at h
      · next hclass =>
          rcases findRegistryEntry_error herror with ⟨hentry, -⟩ | ⟨-, -, hvalue⟩
          · cases h
            simp [Registry.operation?, hentry]
          · rw [hvalue] at hclass
            contradiction
      · cases h
  · next entry hfound =>
      have hentry := (findRegistryEntry_ok hfound).1
      split at h
      · next hoperation =>
          cases h
          simp [Registry.operation?, hentry, hoperation]
      · next found hoperation =>
          simp only [bind, Except.bind] at h
          split at h
          · cases h
          · cases h
            simp [Registry.operation?, hentry, hoperation]

/-- The node loop returns the operations that it finds. -/
theorem resolveNodes_operations (nodes : List Node) {issues issues' : List ContractIssue}
    {resolved resolved' : Dict String ResolvedOperation}
    (h : resolveNodes registry nodes issues resolved = .ok (issues', resolved')) :
    resolved' = registry.addOperations nodes resolved := by
  induction nodes generalizing issues resolved with
  | nil =>
      cases h
      rfl
  | cons node rest ih =>
      simp only [resolveNodes, bind, Except.bind] at h
      split at h
      · cases h
      · next pair hpair =>
          obtain ⟨found, operation⟩ := pair
          obtain rfl := resolveNode_operation hpair
          exact ih h

/-- Resolution succeeds exactly when the nodes and the graph have no issues. -/
theorem resolveWorkflow_ok_iff {workflow : Workflow} :
    (∃ resolved, resolveWorkflow workflow registry = .ok resolved) ↔
      (∃ operations, resolveNodes registry workflow.nodes [] Table.empty = .ok ([], operations)) ∧
        GraphChecks registry workflow := by
  constructor
  · rintro ⟨resolved, h⟩
    obtain ⟨rfl, hwf, hnodes, hedges, hinputs, houtputs, hconnected⟩ := resolveWorkflow_ok h
    have hoperations : resolved.operations = registry.resolvedOperations resolved.definition :=
      resolveNodes_operations _ hnodes
    rw [hoperations] at hedges hinputs houtputs hconnected
    exact ⟨⟨_, hnodes⟩, validateWorkflow_of_wellFormed hwf, hedges, hinputs, houtputs, hconnected⟩
  · rintro ⟨⟨operations, hnodes⟩, hchecks⟩
    obtain rfl : operations = registry.resolvedOperations workflow :=
      resolveNodes_operations _ hnodes
    refine ⟨⟨workflow, registry.resolvedOperations workflow⟩, ?_⟩
    simp [resolveWorkflow, hchecks.contract, hnodes, hchecks.edges, hchecks.inputs,
      hchecks.outputs, hchecks.connected, bind, Except.bind, pure, Except.pure]

theorem row?_addOperations (nodes : List Node) (hnodup : (nodes.map Node.id).Nodup)
    (hfound : ∀ node ∈ nodes, (registry.operation? node).isSome)
    (resolved : Dict String ResolvedOperation) (name : String) :
    (registry.addOperations nodes resolved).row? name =
      ((nodes.find? fun node => node.id = name).bind fun node =>
        (registry.operation? node).map fun operation => (name, operation)).or
          (resolved.row? name) := by
  induction nodes generalizing resolved with
  | nil => simp [Registry.addOperations]
  | cons node rest ih =>
      obtain ⟨hfresh, hrest⟩ := List.nodup_cons.mp hnodup
      obtain ⟨operation, hoperation⟩ :=
        Option.isSome_iff_exists.mp (hfound node List.mem_cons_self)
      simp only [Registry.addOperations, hoperation]
      rw [ih hrest fun other hother => hfound other (List.mem_cons_of_mem _ hother),
        Table.row?_set]
      by_cases hname : node.id = name
      · subst hname
        have hnone : rest.find? (fun other => decide (other.id = node.id)) = none := by
          rw [List.find?_eq_none]
          intro other hother hsame
          exact hfresh (List.mem_map.mpr ⟨other, hother, of_decide_eq_true hsame⟩)
        simp [hnone, hoperation, Keyed.key]
      · simp [hname, Keyed.key]

end Resolution

section Checked

variable {registry : Registry} {workflow : Workflow}

/-- Every node has the operation that the registry publishes for it. -/
structure Published (registry : Registry) (workflow : Workflow) : Prop where
  nodup : workflow.nodeIds.Nodup
  found : ∀ node ∈ workflow.nodes, (registry.operation? node).isSome

theorem Published.row? (h : Published registry workflow) {node : Node}
    (hnode : node ∈ workflow.nodes) :
    ∃ operation, registry.operation? node = some operation ∧
      (registry.resolvedOperations workflow).row? node.id = some (node.id, operation) := by
  obtain ⟨operation, hoperation⟩ := Option.isSome_iff_exists.mp (h.found node hnode)
  refine ⟨operation, hoperation, ?_⟩
  have hfind : workflow.nodes.find? (fun other => decide (other.id = node.id)) = some node :=
    find?_eq_some_of_unique hnode (decide_eq_true rfl) fun other hother hsame =>
      List.inj_on_of_nodup_map h.nodup hother hnode (of_decide_eq_true hsame)
  rw [Registry.resolvedOperations, row?_addOperations _ h.nodup h.found, hfind]
  simp [hoperation]

theorem Published.known (h : Published registry workflow) :
    ∀ item ∈ (registry.resolvedOperations workflow).rows, item.1 ∈ workflow.nodeIds := by
  intro item hitem
  have hsome := Table.row?_of_mem hitem
  rw [show Keyed.key item = item.1 from rfl, Registry.resolvedOperations,
    row?_addOperations _ h.nodup h.found, Table.row?_empty, Option.or_none] at hsome
  obtain ⟨node, hnode, -⟩ := Option.bind_eq_some_iff.mp hsome
  have hname := List.find?_some hnode
  rw [decide_eq_true_eq] at hname
  rw [← hname]
  exact List.mem_map_of_mem (List.mem_of_find?_eq_some hnode)

/-- The workflow with the operations that it resolves to. -/
def Registry.resolve (registry : Registry) (workflow : Workflow) : ResolvedWorkflow :=
  ⟨workflow, registry.resolvedOperations workflow⟩

/-- A workflow that passes the checks is sound and connected. -/
theorem GraphChecks.sound (h : GraphChecks registry workflow)
    (hpublished : Published registry workflow) :
    (registry.resolve workflow).Sound ∧
      ∀ item ∈ (registry.resolvedOperations workflow).rows,
        ∀ port ∈ item.2.operation.inputs.rows, port.2.isRequired = true →
          (∃ edge ∈ workflow.edges, edge.targetPort = (item.1, port.1)) ∨
          ∃ input ∈ workflow.inputs.rows, inputPort input = (item.1, port.1) := by
  have hwf := wellFormed_of_validateWorkflow h.contract
  refine ⟨sound_of_checks hwf ?_ hpublished.known h.edges h.inputs h.outputs, ?_⟩
  · intro name hname
    obtain ⟨node, hnode, rfl⟩ := List.mem_map.mp hname
    obtain ⟨operation, -, hrow⟩ := hpublished.row? hnode
    exact ⟨operation, hrow⟩
  · intro item hitem port hport hrequired
    rcases connected_of_checks h.connected hitem hport hrequired with
      ⟨edge, hedge, hnode, hname⟩ | ⟨input, hinput, hnode, hname⟩
    · exact .inl ⟨edge, hedge, Prod.ext hnode hname⟩
    · exact .inr ⟨input, hinput, Prod.ext hnode hname⟩

/-- A sound and connected workflow that connects every port at most once by an edge passes
the checks. -/
theorem graphChecks_of_sound (hsound : (registry.resolve workflow).Sound)
    (hsingle : (workflow.edges.map Edge.targetPort).Nodup)
    (hconnected : ∀ item ∈ (registry.resolvedOperations workflow).rows,
      ∀ port ∈ item.2.operation.inputs.rows, port.2.isRequired = true →
        (∃ edge ∈ workflow.edges, edge.targetPort = (item.1, port.1)) ∨
        ∃ input ∈ workflow.inputs.rows, inputPort input = (item.1, port.1)) :
    GraphChecks registry workflow := by
  have hmem : ∀ item ∈ workflow.edges.zipIdx, item.1 ∈ workflow.edges := fun item hitem =>
    (List.mem_zipIdx' hitem).2 ▸ List.getElem_mem _
  have hplaces : (workflow.edges.zipIdx.map fun item => item.1.targetPort) =
      workflow.edges.map Edge.targetPort := by
    conv_rhs => rw [← List.zipIdx_map_fst 0 workflow.edges, List.map_map]
    rfl
  have hedges : resolveEdges (registry.resolvedOperations workflow) workflow.edges.zipIdx [] =
      ([], workflow.edges.map Edge.targetPort) := by
    rw [← hplaces]
    exact resolveEdges_of_hasPorts workflow.edges.zipIdx []
      (fun item hitem => hsound.edgeSources item.1 (hmem item hitem))
      (fun item hitem => hsound.edgeTargets item.1 (hmem item hitem))
      (by rw [hplaces, List.nil_append]; exact hsingle)
  have hinputs : resolveInputs (registry.resolvedOperations workflow) workflow.inputs.rows
      (workflow.edges.map Edge.targetPort) =
        ([], workflow.edges.map Edge.targetPort ++ workflow.inputs.rows.map inputPort) :=
    resolveInputs_of_hasPorts workflow.inputs.rows _ fun item hitem => hsound.inputs item hitem
  refine ⟨validateWorkflow_of_wellFormed hsound.wellFormed, ?_, ?_, ?_, ?_⟩
  · rw [hedges]
  · rw [hedges, hinputs]
  · rw [resolveOutputs, List.flatMap_eq_nil_iff]
    exact fun item hitem => outputIssues_of_hasOutput (hsound.outputs item hitem) _ _
  · rw [hedges, hinputs, unconnectedIssues, List.flatMap_eq_nil_iff]
    intro item hitem
    rw [List.flatMap_eq_nil_iff]
    intro port hport
    rw [if_neg]
    rintro ⟨hrequired, hcount⟩
    rw [List.count_eq_zero, List.mem_append, List.mem_map, List.mem_map] at hcount
    exact hcount (hconnected item hitem port hport hrequired)

end Checked

end QhpcEcosystem
