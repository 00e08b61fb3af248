/-
The checks of the canvas against the checks of the server.  A canvas without issues gives a
document that passes the checks of its graph, up to what the canvas does not look at: the
artifact types that an opened draft wrote, boundaries under the id of an operation or shared
between connections, and cycles through an empty id.
-/
import QhpcEcosystem.CanvasDocument
import QhpcEcosystem.GraphChecks
import QhpcEcosystem.RegistryAdmission

namespace QhpcEcosystem

/-- A document with nodes, as the server reads it. -/
def WorkflowDocument.toWorkflow (document : WorkflowDocument) (nonempty : document.nodes ≠ []) :
    Workflow where
  id := document.metadata.id
  version := document.metadata.version
  nodes := document.nodes
  nonempty := nonempty
  edges := document.edges
  inputs := document.inputs
  outputs := document.outputs

/-- The capabilities that the composer gets from a registry. -/
def Registry.capabilities (registry : Registry) : List Capability :=
  registry.entries.map RegistryEntry.capability

/-- The registry has the operation that is referred to. -/
def Registry.Publishes (registry : Registry) (reference : OperationReference) : Prop :=
  ∃ entry ∈ registry.entries, ∃ operation ∈ entry.capability.operations,
    reference = ⟨entry.capability.id, entry.capability.version, operation.id⟩

/-! ## What the canvas does not look at -/

/-- The output port of the operation under an id, with its type. -/
def CanvasGraph.OutputAt (graph : CanvasGraph) (place : String × Option String)
    (artifactType : String) : Prop :=
  ∃ node, nodeWithId? graph.nodes place.1 = some node ∧ node.data.kind = .operation ∧
    artifactTypeForSource node place.2 = some artifactType

def CanvasGraph.InputAt (graph : CanvasGraph) (place : String × Option String)
    (artifactType : String) : Prop :=
  ∃ node, nodeWithId? graph.nodes place.1 = some node ∧ node.data.kind = .operation ∧
    artifactTypeForTarget node place.2 = some artifactType

/-- The port that a boundary of a kind can be connected to. -/
def CanvasGraph.PortAt (graph : CanvasGraph) (kind : BoundaryKind) :
    String × Option String → String → Prop :=
  match kind with
  | .workflowInput => graph.InputAt
  | .workflowOutput => graph.OutputAt

/-- The end of a connection of a boundary at the operation. -/
def ComposerEdge.portEnd (kind : BoundaryKind) (edge : ComposerEdge) : String × Option String :=
  match kind with
  | .workflowInput => (edge.target, edge.targetHandle)
  | .workflowOutput => (edge.source, edge.sourceHandle)

/-- What the canvas does not look at is in order. -/
structure CanvasGraph.Faithful (graph : CanvasGraph) : Prop where
  /-- The edges of the opened draft join operations and carry the types of the ports. -/
  drafted : ∀ edge ∈ graph.edgesOf .internal, ∀ original, edge.data.originalEdge = some original →
    graph.OutputAt (edge.source, edge.sourceHandle) original.source.artifactType ∧
      graph.InputAt (edge.target, edge.targetHandle) original.target.artifactType
  /-- A boundary under the id of an operation carries the type of the port it is joined to. -/
  shadowed : ∀ kind edge, graph.Reaches kind edge →
    edge.boundaryEnd kind ∈ (operationItems graph.nodes).map Prod.fst →
    ∀ boundary, boundaryNode? kind graph.nodes (edge.boundaryEnd kind) = some boundary →
      graph.PortAt kind (edge.portEnd kind) boundary.artifactType
  /-- The connection of a required input becomes part of the document. -/
  kept : ∀ item ∈ operationItems graph.nodes, ∀ port ∈ item.2.inputs.rows,
    port.2.required ≠ some false →
      ∃ edge ∈ graph.edges, edge.target = item.1 ∧ edge.targetHandle = some ("in:" ++ port.1) ∧
        (edge.data.kind = .internal ∨ graph.Reaches .workflowInput edge)
  /-- The empty id is on no cycle. -/
  acyclic : ¬ Relation.TransGen (fun source target => (source, target) ∈ internalEnds graph.edges)
    "" ""

/-! ## Cycles -/

section Cycles

variable {graph : CanvasGraph} {capabilities : List Capability}

theorem mem_internalEnds {edges : List ComposerEdge} {source target : String} :
    (source, target) ∈ internalEnds edges ↔
      ∃ edge ∈ edges, edge.data.kind = .internal ∧ edge.source = source ∧ edge.target = target := by
  simp [internalEnds, and_assoc]

/-- Connections of operations that are all accepted have no cycle but through the empty id. -/
theorem CanvasGraph.Checked.acyclic (hchecked : graph.Checked)
    (hsourced : graph.Sourced capabilities)
    (hoperations : ∀ edge ∈ graph.edgesOf .internal, ∀ source target,
      graph.Meets edge source target → source.data.kind = .operation ∧
        target.data.kind = .operation)
    (hempty : ¬ Relation.TransGen (fun source target =>
      (source, target) ∈ internalEnds graph.edges) "" "") (id : String) :
    ¬ Relation.TransGen (fun source target => (source, target) ∈ internalEnds graph.edges)
      id id := by
  intro hcycle
  obtain ⟨next, hstep, hpath⟩ := Relation.TransGen.head'_iff.mp hcycle
  by_cases hnext : next = ""
  · subst hnext
    exact hempty (.tail' hpath hstep)
  · rcases PathSearch.path_meets_or_avoids "" hnext hpath with havoids | ⟨hto, hfrom⟩
    · obtain ⟨edge, hedge, hkind, rfl, rfl⟩ := mem_internalEnds.mp hstep
      obtain ⟨source, target, hmeets⟩ := hchecked.meets edge hedge
      obtain ⟨hsource, htarget⟩ :=
        hoperations edge (mem_edgesOf.mpr ⟨hedge, hkind⟩) source target hmeets
      have hnone := hmeets.acyclic hsource htarget
      -- the rest of the cycle does without the edge, and the search would have found it
      have hfound : operationPathExists edge.target edge.source
          (graph.edges.filter fun other => other.id ≠ edge.id) = true := by
        refine PathSearch.pathExists_iff.mpr ⟨decide_eq_false hnext, ?_⟩
        refine (PathSearch.path_without_step edge.target havoids).lift id fun x y hxy => ?_
        obtain ⟨⟨hends, hy⟩, hother⟩ := hxy
        obtain ⟨other, hmem, hotherKind, rfl, rfl⟩ := mem_internalEnds.mp hends
        refine ⟨mem_internalEnds.mpr ⟨other, List.mem_filter.mpr ⟨hmem, ?_⟩, hotherKind, rfl, rfl⟩,
          decide_eq_false hy⟩
        rw [decide_eq_true_eq]
        intro hid
        obtain rfl := List.inj_on_of_nodup_map hsourced.internalIds
          (mem_edgesOf.mpr ⟨hmem, hotherKind⟩) (mem_edgesOf.mpr ⟨hedge, hkind⟩) hid
        exact hother ⟨rfl, rfl⟩
      rw [hnone] at hfound
      cases hfound
    · exact hempty ((Relation.TransGen.tail' hfrom hstep).trans hto)

end Cycles

/-! ## Published operations -/

/-- The keys of published operations differ when no operation id has a slash. -/
theorem Registry.Valid.operationKeys_nodup {registry : Registry} (hvalid : registry.Valid)
    (hids : ∀ entry ∈ registry.entries, ∀ operation ∈ entry.capability.operations,
      '/' ∉ operation.id.toList) : (operationKeys registry.capabilities).Nodup := by
  rw [operationKeys, Registry.capabilities, List.flatMap_map, List.nodup_flatMap]
  constructor
  · intro entry hentry
    have hkeys : (entry.capability.operations.map fun operation =>
        operationKey entry.capability.id entry.capability.version operation.id) =
        (entry.capability.operations.map OperationDefinition.id).map
          (operationKey entry.capability.id entry.capability.version) := by
      rw [List.map_map]
      rfl
    rw [hkeys]
    refine (hvalid.operations entry hentry).map fun id id' heq => ?_
    exact append_left_injective _ heq
  · refine List.Pairwise.imp_of_mem (fun {first second} hfirst hsecond hne => ?_)
      (List.pairwise_map.mp hvalid.versions)
    intro key hkey hkey'
    obtain ⟨operation, hoperation, rfl⟩ := List.mem_map.mp hkey
    obtain ⟨operation', hoperation', heq⟩ := List.mem_map.mp hkey'
    -- a key splits at its last slash
    have hreversed : ∀ id version name, (operationKey id version name).toList.reverse =
        name.toList.reverse ++ '/' :: (id ++ "@" ++ version).toList.reverse := by
      intro id version name
      simp only [operationKey, String.toList_append, List.reverse_append, List.append_assoc]
      rfl
    have hlists := congrArg (fun text => text.toList.reverse) heq
    simp only [hreversed] at hlists
    obtain ⟨-, hstarts⟩ := append_separator_inj
      (by rw [List.mem_reverse]; exact hids second hsecond operation' hoperation')
      (by rw [List.mem_reverse]; exact hids first hfirst operation hoperation) hlists
    exact hne (String.toList_injective (List.reverse_injective hstarts.symm))

theorem Registry.Publishes.operation? {registry : Registry} (hvalid : registry.Valid) {node : Node}
    (h : registry.Publishes node.operation) :
    ∃ entry ∈ registry.entries, ∃ operation ∈ entry.capability.operations,
      node.operation = ⟨entry.capability.id, entry.capability.version, operation.id⟩ ∧
      ∃ item, registry.operation? node = some item ∧ item.operation = operation := by
  obtain ⟨entry, hentry, operation, hoperation, hreference⟩ := h
  obtain ⟨hfound, hpublished⟩ := hvalid.found_of_mem hentry hoperation
  refine ⟨entry, hentry, operation, hoperation, hreference, ⟨node.id, entry.capability.id,
    entry.capability.version, entry.capability.project, operation⟩, ?_, rfl⟩
  simp [Registry.operation?, hreference, hfound, hpublished]

/-- Every operation of the canvas resolves to an operation with its ports. -/
structure CanvasGraph.ResolvesTo (graph : CanvasGraph) (resolved : ResolvedWorkflow) : Prop where
  ports : ∀ item ∈ operationItems graph.nodes, ∃ operation,
    resolved.operations.row? item.1 = some (item.1, operation) ∧
      operation.operation.inputs = item.2.inputs ∧ operation.operation.outputs = item.2.outputs
  only : ∀ item ∈ resolved.operations.rows, item.1 ∈ (operationItems graph.nodes).map Prod.fst

section Published

variable {registry : Registry} {graph : CanvasGraph} {workflow : Workflow}
  (hvalid : registry.Valid) (hsourced : graph.Sourced registry.capabilities)
  (hchecked : graph.Checked)
  (hknown : ∀ item ∈ operationItems graph.nodes, registry.Publishes item.2.operation)
  (hnodes : workflow.nodes = workflowNodes graph.nodes)

include hvalid hchecked hknown hnodes

theorem CanvasGraph.Checked.published : Published registry workflow := by
  refine ⟨?_, fun node hnode => ?_⟩
  · rw [Workflow.nodeIds, hnodes]
    exact nodeIds_perm.nodup_iff.mpr hchecked.nodup
  · rw [hnodes] at hnode
    obtain ⟨item, hitem, -, hoperation⟩ := item_of_mem_workflowNodes hnode
    have hpublishes := hknown item hitem
    rw [← hoperation] at hpublishes
    obtain ⟨_, _, _, _, _, found, hfound, -⟩ := hpublishes.operation? hvalid
    rw [hfound]
    rfl

include hsourced

theorem CanvasGraph.Checked.resolvesTo : graph.ResolvesTo (registry.resolve workflow) := by
  have hpublished := hchecked.published hvalid hknown hnodes
  constructor
  · intro item hitem
    obtain ⟨node, hnode, hid, hoperation⟩ := mem_workflowNodes hitem
    obtain ⟨found, hfound, hrow⟩ := hpublished.row? (hnodes ▸ hnode)
    have hpublishes := hknown item hitem
    rw [← hoperation] at hpublishes
    obtain ⟨entry, hentry, operation, hmem, hreference, found', hfound', rfl⟩ :=
      hpublishes.operation? hvalid
    obtain rfl := Option.some.inj (hfound.symm.trans hfound')
    obtain ⟨canvasNode, hcanvasNode, -, hdata⟩ := mem_operationItems.mp hitem
    obtain ⟨hinputs, houtputs⟩ := hsourced.published canvasNode hcanvasNode item.2 hdata
      entry.capability (List.mem_map_of_mem hentry) found.operation hmem
      (hoperation.symm.trans hreference)
    rw [hid] at hrow
    exact ⟨found, hrow, hinputs.symm, houtputs.symm⟩
  · intro item hitem
    have hname := hpublished.known item hitem
    rw [Workflow.nodeIds, hnodes] at hname
    exact nodeIds_perm.mem_iff.mp hname

end Published

/-! ## Ports of the document and of the canvas -/

section Ports

variable {graph : CanvasGraph} {capabilities : List Capability} {resolved : ResolvedWorkflow}

theorem artifactTypeForSource_out {node : ComposerNode} {data : OperationNodeData}
    (hdata : node.data = .operation data) (port : String) :
    artifactTypeForSource node (some ("out:" ++ port)) =
      (data.outputs.row? port).map fun row => row.2.artifactType := by
  simp [artifactTypeForSource, hdata, afterStart?_append]

theorem artifactTypeForTarget_in {node : ComposerNode} {data : OperationNodeData}
    (hdata : node.data = .operation data) (port : String) :
    artifactTypeForTarget node (some ("in:" ++ port)) =
      (data.inputs.row? port).map fun row => row.2.artifactType := by
  simp [artifactTypeForTarget, hdata, afterStart?_append]

variable (hsourced : graph.Sourced capabilities) (hchecked : graph.Checked)
  (hresolves : graph.ResolvesTo resolved)

include hsourced hchecked

section Resolved

include hresolves

theorem CanvasGraph.item_of_row {id : String} {operation : ResolvedOperation}
    (hrow : resolved.operations.row? id = some (id, operation)) :
    ∃ data node, (id, data) ∈ operationItems graph.nodes ∧
      nodeWithId? graph.nodes id = some node ∧ node.data = .operation data ∧
      operation.operation.inputs = data.inputs ∧ operation.operation.outputs = data.outputs := by
  obtain ⟨⟨name, data⟩, hitem, rfl⟩ := List.mem_map.mp (hresolves.only _ (Table.mem_of_row? hrow))
  obtain ⟨operation', hrow', hinputs, houtputs⟩ := hresolves.ports _ hitem
  obtain rfl := (Prod.mk.inj (Option.some.inj (hrow'.symm.trans hrow))).2
  obtain ⟨node, hnode, hdata⟩ := nodeWithId?_of_operationItem hsourced hchecked hitem
  exact ⟨data, node, hitem, hnode, hdata, hinputs, houtputs⟩

theorem CanvasGraph.hasOutput_iff {id port artifactType : String} :
    resolved.HasOutput id port artifactType ↔
      graph.OutputAt (id, some ("out:" ++ port)) artifactType := by
  constructor
  · rintro ⟨operation, output, hrow, hport, rfl⟩
    obtain ⟨data, node, -, hnode, hdata, -, houtputs⟩ :=
      graph.item_of_row hsourced hchecked hresolves hrow
    rw [houtputs] at hport
    refine ⟨node, hnode, by rw [hdata]; rfl, ?_⟩
    rw [artifactTypeForSource_out hdata, hport]
    rfl
  · rintro ⟨node, hnode, hkind, htype⟩
    obtain ⟨data, hdata, hitem⟩ := operationItem_of_nodeWithId? hnode hkind
    obtain ⟨operation, hrow, -, houtputs⟩ := hresolves.ports _ hitem
    rw [artifactTypeForSource_out hdata] at htype
    obtain ⟨⟨name, output⟩, hport, rfl⟩ := Option.map_eq_some_iff.mp htype
    obtain rfl : name = port := Table.key_of_row? hport
    exact ⟨operation, output, hrow, houtputs ▸ hport, rfl⟩

theorem CanvasGraph.hasInput_iff {id port artifactType : String} :
    resolved.HasInput id port artifactType ↔
      graph.InputAt (id, some ("in:" ++ port)) artifactType := by
  constructor
  · rintro ⟨operation, input, hrow, hport, rfl⟩
    obtain ⟨data, node, -, hnode, hdata, hinputs, -⟩ :=
      graph.item_of_row hsourced hchecked hresolves hrow
    rw [hinputs] at hport
    refine ⟨node, hnode, by rw [hdata]; rfl, ?_⟩
    rw [artifactTypeForTarget_in hdata, hport]
    rfl
  · rintro ⟨node, hnode, hkind, htype⟩
    obtain ⟨data, hdata, hitem⟩ := operationItem_of_nodeWithId? hnode hkind
    obtain ⟨operation, hrow, hinputs, -⟩ := hresolves.ports _ hitem
    rw [artifactTypeForTarget_in hdata] at htype
    obtain ⟨⟨name, input⟩, hport, rfl⟩ := Option.map_eq_some_iff.mp htype
    obtain rfl : name = port := Table.key_of_row? hport
    exact ⟨operation, input, hrow, hinputs ▸ hport, rfl⟩

end Resolved

theorem CanvasGraph.outputAt_of_node {node : ComposerNode} {handle : Option String}
    {artifactType : String} (hnode : node ∈ graph.nodes) (hkind : node.data.kind = .operation)
    (htype : artifactTypeForSource node handle = some artifactType) :
    graph.OutputAt (node.id, handle) artifactType := by
  obtain ⟨data, hdata⟩ := operation_of_kind hkind
  have hitem : (node.id, data) ∈ operationItems graph.nodes :=
    mem_operationItems.mpr ⟨node, hnode, rfl, hdata⟩
  obtain ⟨found, hfound, hfoundData⟩ := nodeWithId?_of_operationItem hsourced hchecked hitem
  refine ⟨found, hfound, by rw [hfoundData]; rfl, ?_⟩
  rw [artifactTypeForSource, hfoundData]
  rwa [artifactTypeForSource, hdata] at htype

theorem CanvasGraph.inputAt_of_node {node : ComposerNode} {handle : Option String}
    {artifactType : String} (hnode : node ∈ graph.nodes) (hkind : node.data.kind = .operation)
    (htype : artifactTypeForTarget node handle = some artifactType) :
    graph.InputAt (node.id, handle) artifactType := by
  obtain ⟨data, hdata⟩ := operation_of_kind hkind
  have hitem : (node.id, data) ∈ operationItems graph.nodes :=
    mem_operationItems.mpr ⟨node, hnode, rfl, hdata⟩
  obtain ⟨found, hfound, hfoundData⟩ := nodeWithId?_of_operationItem hsourced hchecked hitem
  refine ⟨found, hfound, by rw [hfoundData]; rfl, ?_⟩
  rw [artifactTypeForTarget, hfoundData]
  rwa [artifactTypeForTarget, hdata] at htype

end Ports

section Meets

variable {graph : CanvasGraph} {edge : ComposerEdge} {source target : ComposerNode}
  (hmeets : graph.Meets edge source target)

include hmeets

theorem CanvasGraph.Meets.output {artifactType : String}
    (h : graph.OutputAt (edge.source, edge.sourceHandle) artifactType) :
    source.data.kind = .operation ∧
      artifactTypeForSource source edge.sourceHandle = some artifactType := by
  obtain ⟨node, hnode, hkind, htype⟩ := h
  obtain rfl := Option.some.inj (hmeets.sourceNode.symm.trans hnode)
  exact ⟨hkind, htype⟩

theorem CanvasGraph.Meets.input {artifactType : String}
    (h : graph.InputAt (edge.target, edge.targetHandle) artifactType) :
    target.data.kind = .operation ∧
      artifactTypeForTarget target edge.targetHandle = some artifactType := by
  obtain ⟨node, hnode, hkind, htype⟩ := h
  obtain rfl := Option.some.inj (hmeets.targetNode.symm.trans hnode)
  exact ⟨hkind, htype⟩

/-- An accepted connection of a boundary that no operation hides meets a port of its type. -/
theorem CanvasGraph.Meets.portAt (hnamed : graph.Named) {kind : BoundaryKind}
    {boundary : BoundaryNodeData}
    (hboundary : boundaryNode? kind graph.nodes (edge.boundaryEnd kind) = some boundary)
    (hvisible : edge.boundaryEnd kind ∉ (operationItems graph.nodes).map Prod.fst) :
    graph.PortAt kind (edge.portEnd kind) boundary.artifactType := by
  have hoperation : ∀ {node : ComposerNode},
      nodeWithId? graph.nodes (edge.boundaryEnd kind) = some node →
        node.data.kind ≠ .operation := by
    intro node hnode hkind
    obtain ⟨data, -, hitem⟩ := operationItem_of_nodeWithId? hnode hkind
    exact hvisible (List.mem_map.mpr ⟨_, hitem, rfl⟩)
  have hdata : ∀ {node : ComposerNode},
      nodeWithId? graph.nodes (edge.boundaryEnd kind) = some node →
        node.data = .boundary boundary := by
    intro node hnode
    cases hdata : node.data with
    | operation data => exact absurd (by rw [hdata]; rfl) (hoperation hnode)
    | boundary data =>
        rw [← id_of_nodeWithId? hnode] at hboundary
        rw [boundary_unique hnamed (mem_of_nodeWithId? hnode) hdata hboundary]
  obtain ⟨artifactType, hsourceType, htargetType⟩ := hmeets.types
  cases kind with
  | workflowInput =>
      have hsource := hdata hmeets.sourceNode
      rcases kinds_of_connection hmeets.direction with ⟨hkind, -, -⟩ | ⟨-, htarget, -⟩ |
        ⟨hkind, -, -⟩
      · exact absurd hkind (hoperation hmeets.sourceNode)
      · refine ⟨target, hmeets.targetNode, htarget, ?_⟩
        simp only [artifactTypeForSource, hsource] at hsourceType
        exact htargetType.trans hsourceType.symm
      · exact absurd hkind (hoperation hmeets.sourceNode)
  | workflowOutput =>
      have htarget := hdata hmeets.targetNode
      rcases kinds_of_connection hmeets.direction with ⟨-, hkind, -⟩ | ⟨-, hkind, -⟩ |
        ⟨hsource, -, -⟩
      · exact absurd hkind (hoperation hmeets.targetNode)
      · exact absurd hkind (hoperation hmeets.targetNode)
      · refine ⟨source, hmeets.sourceNode, hsource, ?_⟩
        simp only [artifactTypeForTarget, htarget] at htargetType
        exact hsourceType.trans htargetType.symm

end Meets

/-! ## The checks -/

section Agreement

variable {graph : CanvasGraph} {metadata : WorkflowMetadata} {document : WorkflowDocument}
  {registry : Registry} {hnonempty : document.nodes ≠ []}
  (hnamed : graph.Named) (hsourced : graph.Sourced registry.capabilities)
  (hchecked : graph.Checked)
  (hdocument : canvasToWorkflow metadata graph.nodes graph.edges = .ok document)
  (hresolves : graph.ResolvesTo (registry.resolve (document.toWorkflow hnonempty)))

include hnamed hsourced hchecked hdocument hresolves

/-- A document that is sound and connected comes from a canvas in order. -/
theorem CanvasGraph.faithful_of_sound
    (hsound : (registry.resolve (document.toWorkflow hnonempty)).Sound)
    (hconnected : ∀ item ∈ (registry.resolvedOperations (document.toWorkflow hnonempty)).rows,
      ∀ port ∈ item.2.operation.inputs.rows, port.2.isRequired = true →
        (∃ edge ∈ document.edges, edge.targetPort = (item.1, port.1)) ∨
        ∃ input ∈ document.inputs.rows, inputPort input = (item.1, port.1)) :
    graph.Faithful := by
  refine ⟨fun edge hedge original horiginal => ?_,
    fun kind edge hreaches _ boundary hboundary => ?_,
    fun item hitem port hport hrequired => ?_, fun hcycle => ?_⟩
  · obtain ⟨hmem, hkind⟩ := CanvasGraph.mem_edgesOf.mp hedge
    obtain ⟨fromPort, toPort, hsource, htarget, hdefinition⟩ :=
      workflowEdge_eq (hnamed.handles edge hmem) hkind
    rw [horiginal] at hdefinition
    have hmember := (mem_document_edges hdocument).mpr ⟨edge, hedge, hdefinition⟩
    rw [hsource, htarget]
    exact ⟨(graph.hasOutput_iff hsourced hchecked hresolves).mp (hsound.edgeSources _ hmember),
      (graph.hasInput_iff hsourced hchecked hresolves).mp (hsound.edgeTargets _ hmember)⟩
  · cases kind with
    | workflowInput =>
        obtain ⟨port, hport, hentry⟩ := workflowInput_eq hnamed hreaches.mem hboundary
        have hmember := (mem_document_inputs hnamed hdocument).mpr ⟨edge, hreaches, hentry⟩
        rw [ComposerEdge.portEnd, hport]
        exact (graph.hasInput_iff hsourced hchecked hresolves).mp (hsound.inputs _ hmember)
    | workflowOutput =>
        obtain ⟨port, hport, hentry⟩ := workflowOutput_eq hnamed hreaches.mem hboundary
        have hmember := (mem_document_outputs hnamed hdocument).mpr ⟨edge, hreaches, hentry⟩
        rw [ComposerEdge.portEnd, hport]
        exact (graph.hasOutput_iff hsourced hchecked hresolves).mp (hsound.outputs _ hmember)
  · obtain ⟨operation, hrow, hinputs, -⟩ := hresolves.ports item hitem
    have hisRequired : port.2.isRequired = true := by
      cases hvalue : port.2.required with
      | none => simp [PortDefinition.isRequired, hvalue]
      | some value =>
          cases value
          · exact absurd hvalue hrequired
          · simp [PortDefinition.isRequired, hvalue]
    rcases hconnected _ (Table.mem_of_row? hrow) port (hinputs ▸ hport) hisRequired with
      ⟨definition, hmember, hends⟩ | ⟨input, hmember, hends⟩
    · obtain ⟨edge, hedge, hdefinition⟩ := (mem_document_edges hdocument).mp hmember
      obtain ⟨hmem, hkind⟩ := CanvasGraph.mem_edgesOf.mp hedge
      obtain ⟨fromPort, toPort, -, htarget, hread⟩ :=
        workflowEdge_eq (hnamed.handles edge hmem) hkind
      obtain rfl := Except.ok.inj (hread.symm.trans hdefinition)
      obtain ⟨hnode, hname⟩ := Prod.mk.inj hends
      exact ⟨edge, hmem, hnode, htarget.trans (congrArg (fun name => some ("in:" ++ name)) hname),
        .inl hkind⟩
    · obtain ⟨edge, hreaches, hentry⟩ := (mem_document_inputs hnamed hdocument).mp hmember
      obtain ⟨boundary, hboundary, -⟩ := hreaches.2
      obtain ⟨toPort, htarget, hread⟩ := workflowInput_eq hnamed hreaches.mem hboundary
      obtain rfl := Option.some.inj (Except.ok.inj (hread.symm.trans hentry))
      obtain ⟨hnode, hname⟩ := Prod.mk.inj hends
      exact ⟨edge, (CanvasGraph.mem_edgesOf.mp hreaches.mem).1, hnode,
        htarget.trans (congrArg (fun name => some ("in:" ++ name)) hname), .inr hreaches⟩
  · obtain ⟨rank, hrank⟩ := hsound.wellFormed.acyclic
    have hless : ∀ {a b : String}, Relation.TransGen (fun source target =>
        (source, target) ∈ internalEnds graph.edges) a b → rank a < rank b := by
      intro a b hpath
      have hstep : ∀ {a b : String}, (a, b) ∈ internalEnds graph.edges → rank a < rank b := by
        intro a b hends
        obtain ⟨edge, hmem, hkind, rfl, rfl⟩ := mem_internalEnds.mp hends
        obtain ⟨_, _, -, -, hdefinition⟩ := workflowEdge_eq (hnamed.handles edge hmem) hkind
        exact hrank _ ((mem_document_edges hdocument).mpr
          ⟨edge, CanvasGraph.mem_edgesOf.mpr ⟨hmem, hkind⟩, hdefinition⟩)
      induction hpath with
      | single hends => exact hstep hends
      | tail _ hends ih => exact ih.trans (hstep hends)
    exact absurd (hless hcycle) (lt_irrefl _)

section Faithful

variable (hfaithful : graph.Faithful)

include hfaithful

omit hnamed hdocument hresolves in
/-- The types that an edge of the document carries are those of its ports. -/
theorem CanvasGraph.Faithful.ports {edge : ComposerEdge} (hedge : edge ∈ graph.edgesOf .internal) :
    graph.OutputAt (edge.source, edge.sourceHandle)
        ((edge.data.originalEdge.map (·.source.artifactType)).getD edge.data.artifactType) ∧
      graph.InputAt (edge.target, edge.targetHandle)
        ((edge.data.originalEdge.map (·.target.artifactType)).getD edge.data.artifactType) := by
  cases horiginal : edge.data.originalEdge with
  | some original => exact hfaithful.drafted edge hedge original horiginal
  | none =>
      obtain ⟨hmem, hkind⟩ := CanvasGraph.mem_edgesOf.mp hedge
      obtain ⟨source, hsource, target, htarget, hsourceId, htargetId, hsourceKind, htargetKind,
        hsourceType, htargetType⟩ := hsourced.drawnTypes edge hmem hkind horiginal
      rw [← hsourceId, ← htargetId]
      exact ⟨graph.outputAt_of_node hsourced hchecked hsource hsourceKind hsourceType,
        graph.inputAt_of_node hsourced hchecked htarget htargetKind htargetType⟩

omit hnamed hsourced hdocument hresolves in
theorem CanvasGraph.Faithful.portAt (hnamed : graph.Named) {kind : BoundaryKind}
    {edge : ComposerEdge} (hreaches : graph.Reaches kind edge) {boundary : BoundaryNodeData}
    (hboundary : boundaryNode? kind graph.nodes (edge.boundaryEnd kind) = some boundary) :
    graph.PortAt kind (edge.portEnd kind) boundary.artifactType := by
  by_cases hshadowed : edge.boundaryEnd kind ∈ (operationItems graph.nodes).map Prod.fst
  · exact hfaithful.shadowed kind edge hreaches hshadowed boundary hboundary
  · have hmem := (CanvasGraph.mem_edgesOf.mp hreaches.mem).1
    obtain ⟨source, target, hmeets⟩ := hchecked.meets edge hmem
    exact hmeets.portAt hnamed hboundary hshadowed

theorem CanvasGraph.Faithful.sound :
    (registry.resolve (document.toWorkflow hnonempty)).Sound := by
  obtain ⟨-, hnodes, -⟩ := QhpcEcosystem.canvasToWorkflow_ok hdocument
  have hids : (document.toWorkflow hnonempty).nodeIds.Perm
      ((operationItems graph.nodes).map Prod.fst) := by
    change (document.nodes.map Node.id).Perm _
    rw [hnodes]
    exact nodeIds_perm
  have hedges : ∀ definition ∈ document.edges, ∃ edge ∈ graph.edgesOf .internal,
      definition.source.node = edge.source ∧ definition.target.node = edge.target ∧
      graph.OutputAt (definition.source.node, some ("out:" ++ definition.source.port))
        definition.source.artifactType ∧
      graph.InputAt (definition.target.node, some ("in:" ++ definition.target.port))
        definition.target.artifactType ∧
      definition.source.artifactType = definition.target.artifactType := by
    intro definition hmember
    obtain ⟨edge, hedge, hdefinition⟩ := (mem_document_edges hdocument).mp hmember
    obtain ⟨hmem, hkind⟩ := CanvasGraph.mem_edgesOf.mp hedge
    obtain ⟨fromPort, toPort, hsource, htarget, hread⟩ :=
      workflowEdge_eq (hnamed.handles edge hmem) hkind
    obtain rfl := Except.ok.inj (hread.symm.trans hdefinition)
    obtain ⟨houtput, hinput⟩ := hfaithful.ports hsourced hchecked hedge
    obtain ⟨source, target, hmeets⟩ := hchecked.meets edge hmem
    obtain ⟨artifactType, hsourceType, htargetType⟩ := hmeets.types
    refine ⟨edge, hedge, rfl, rfl, by rwa [← hsource], by rwa [← htarget], ?_⟩
    exact (Option.some.inj ((hmeets.output houtput).2.symm.trans hsourceType)).trans
      (Option.some.inj (htargetType.symm.trans (hmeets.input hinput).2))
  have hmemberOf : ∀ {id port artifactType : String},
      (registry.resolve (document.toWorkflow hnonempty)).HasOutput id port artifactType ∨
        (registry.resolve (document.toWorkflow hnonempty)).HasInput id port artifactType →
      id ∈ (document.toWorkflow hnonempty).nodeIds := by
    rintro id port artifactType (⟨operation, _, hrow, -⟩ | ⟨operation, _, hrow, -⟩) <;>
      exact hids.mem_iff.mpr (hresolves.only _ (Table.mem_of_row? hrow))
  have hsources : ∀ definition ∈ document.edges,
      (registry.resolve (document.toWorkflow hnonempty)).HasOutput definition.source.node
        definition.source.port definition.source.artifactType := fun definition hmember => by
    obtain ⟨_, -, -, -, houtput, -, -⟩ := hedges definition hmember
    exact (graph.hasOutput_iff hsourced hchecked hresolves).mpr houtput
  have htargets : ∀ definition ∈ document.edges,
      (registry.resolve (document.toWorkflow hnonempty)).HasInput definition.target.node
        definition.target.port definition.target.artifactType := fun definition hmember => by
    obtain ⟨_, -, -, -, -, hinput, -⟩ := hedges definition hmember
    exact (graph.hasInput_iff hsourced hchecked hresolves).mpr hinput
  have hinputs : ∀ row ∈ document.inputs.rows,
      (registry.resolve (document.toWorkflow hnonempty)).HasInput row.2.target.node
        row.2.target.port row.2.artifactType := fun row hmember => by
    obtain ⟨edge, hreaches, hentry⟩ := (mem_document_inputs hnamed hdocument).mp hmember
    obtain ⟨boundary, hboundary, -⟩ := hreaches.2
    obtain ⟨port, hport, hread⟩ := workflowInput_eq hnamed hreaches.mem hboundary
    obtain rfl := Option.some.inj (Except.ok.inj (hread.symm.trans hentry))
    have hportAt := hfaithful.portAt hchecked hnamed hreaches hboundary
    rw [ComposerEdge.portEnd, hport] at hportAt
    exact (graph.hasInput_iff hsourced hchecked hresolves).mpr hportAt
  have houtputs : ∀ row ∈ document.outputs.rows,
      (registry.resolve (document.toWorkflow hnonempty)).HasOutput row.2.source.node
        row.2.source.port row.2.artifactType := fun row hmember => by
    obtain ⟨edge, hreaches, hentry⟩ := (mem_document_outputs hnamed hdocument).mp hmember
    obtain ⟨boundary, hboundary, -⟩ := hreaches.2
    obtain ⟨port, hport, hread⟩ := workflowOutput_eq hnamed hreaches.mem hboundary
    obtain rfl := Option.some.inj (Except.ok.inj (hread.symm.trans hentry))
    have hportAt := hfaithful.portAt hchecked hnamed hreaches hboundary
    rw [ComposerEdge.portEnd, hport] at hportAt
    exact (graph.hasOutput_iff hsourced hchecked hresolves).mpr hportAt
  have hacyclic : ∀ id, ¬ Relation.TransGen (fun source target =>
      (source, target) ∈ internalEnds graph.edges) id id :=
    hchecked.acyclic hsourced (fun edge hedge source target hmeets => by
      obtain ⟨houtput, hinput⟩ := hfaithful.ports hsourced hchecked hedge
      exact ⟨(hmeets.output houtput).1, (hmeets.input hinput).1⟩) hfaithful.acyclic
  obtain ⟨rank, hrank⟩ := PathSearch.exists_rank _ hacyclic
  refine ⟨⟨hids.nodup_iff.mpr hchecked.nodup, fun definition hmember => ?_,
    fun definition hmember => ?_, fun definition hmember => ?_, fun row hmember => ?_,
    fun row hmember => ?_, rank, fun definition hmember => ?_⟩, fun node hnode => ?_,
    fun item hitem => hids.mem_iff.mpr (hresolves.only item hitem), hsources, htargets, hinputs,
    houtputs⟩
  · exact hmemberOf (.inl (hsources definition hmember))
  · exact hmemberOf (.inr (htargets definition hmember))
  · obtain ⟨_, -, -, -, -, -, htypes⟩ := hedges definition hmember
    exact htypes
  · exact hmemberOf (.inr (hinputs row hmember))
  · exact hmemberOf (.inl (houtputs row hmember))
  · obtain ⟨edge, hedge, hsource, htarget, -⟩ := hedges definition hmember
    obtain ⟨hmem, hkind⟩ := CanvasGraph.mem_edgesOf.mp hedge
    rw [hsource, htarget]
    exact hrank _ (mem_internalEnds.mpr ⟨edge, hmem, hkind, rfl, rfl⟩)
  · have hname := hids.mem_iff.mp (List.mem_map_of_mem hnode)
    obtain ⟨item, hitem, hid⟩ := List.mem_map.mp hname
    obtain ⟨operation, hrow, -⟩ := hresolves.ports item hitem
    rw [hid] at hrow
    exact ⟨operation, hrow⟩

omit hresolves hfaithful in
/-- Every port is the target of at most one edge of the document. -/
theorem CanvasGraph.Checked.single : (document.edges.map Edge.targetPort).Nodup := by
  obtain ⟨-, -, hedges, -⟩ := QhpcEcosystem.canvasToWorkflow_ok hdocument
  have hmapped : ∃ definitions, (edgesOfKind .internal graph.edges).mapM workflowEdge =
      .ok definitions ∧ List.Forall₂ (fun edge definition => (edge.target, edge.targetHandle) =
        targetPlace definition.target.node definition.target.port)
        (edgesOfKind .internal graph.edges) definitions :=
    mapM_forall₂ fun edge hedge => by
      obtain ⟨hmem, hkind⟩ := CanvasGraph.mem_edgesOfKind.mp hedge
      obtain ⟨_, toPort, -, htarget, hread⟩ := workflowEdge_eq (hnamed.handles edge hmem) hkind
      exact ⟨_, hread, by rw [htarget]; rfl⟩
  obtain ⟨definitions, hdefinitions, hends⟩ := hmapped
  obtain rfl := Except.ok.inj (hdefinitions.symm.trans hedges)
  have hplaces := map_eq_of_forall₂ hends
  have hnodup : ((graph.edgesOf .internal).map fun edge =>
      (edge.target, edge.targetHandle)).Nodup := by
    refine (List.Nodup.of_map _ hsourced.internalIds).map_on fun edge hedge other hother hsame => ?_
    by_contra hne
    obtain ⟨source, target, hmeets⟩ := hchecked.meets edge (CanvasGraph.mem_edgesOf.mp hedge).1
    obtain ⟨hnode, hport⟩ := Prod.mk.inj hsame
    refine hmeets.single other (CanvasGraph.mem_edgesOf.mp hother).1 (fun hid => hne ?_)
      ⟨hnode.symm, hport.symm⟩
    exact (List.inj_on_of_nodup_map hsourced.internalIds hother hedge hid).symm
  rw [← ((graph.edgesOfKind_perm .internal).map _).nodup_iff, hplaces] at hnodup
  refine List.Nodup.of_map (fun port => targetPlace port.1 port.2) ?_
  rw [List.map_map]
  exact hnodup

theorem CanvasGraph.Faithful.connected :
    ∀ item ∈ (registry.resolvedOperations (document.toWorkflow hnonempty)).rows,
      ∀ port ∈ item.2.operation.inputs.rows, port.2.isRequired = true →
        (∃ edge ∈ document.edges, edge.targetPort = (item.1, port.1)) ∨
        ∃ input ∈ document.inputs.rows, inputPort input = (item.1, port.1) := by
  intro item hitem port hport hrequired
  obtain ⟨data, -, hdata, -, -, hinputs, -⟩ := graph.item_of_row hsourced hchecked hresolves
    (Table.row?_of_mem hitem)
  have hvalue : port.2.required ≠ some false := by
    intro hvalue
    simp [PortDefinition.isRequired, hvalue] at hrequired
  obtain ⟨edge, hmem, hnode, hhandle, hkind | hreaches⟩ :=
    hfaithful.kept _ hdata port (hinputs ▸ hport) hvalue
  · obtain ⟨_, toPort, -, htarget, hread⟩ := workflowEdge_eq (hnamed.handles edge hmem) hkind
    rw [htarget] at hhandle
    refine .inl ⟨_, (mem_document_edges hdocument).mpr
      ⟨edge, CanvasGraph.mem_edgesOf.mpr ⟨hmem, hkind⟩, hread⟩, Prod.ext hnode ?_⟩
    exact append_left_injective "in:" (Option.some.inj hhandle)
  · obtain ⟨boundary, hboundary, -⟩ := hreaches.2
    obtain ⟨toPort, htarget, hread⟩ := workflowInput_eq hnamed hreaches.mem hboundary
    rw [htarget] at hhandle
    refine .inr ⟨_, (mem_document_inputs hnamed hdocument).mpr ⟨edge, hreaches, hread⟩,
      Prod.ext hnode ?_⟩
    exact append_left_injective "in:" (Option.some.inj hhandle)

end Faithful

end Agreement

section Composer

variable {registry : Registry} (hvalid : registry.Valid)
  (hids : ∀ entry ∈ registry.entries, ∀ operation ∈ entry.capability.operations,
    '/' ∉ operation.id.toList)

include hvalid hids

open TransitionSystem in
theorem Editor.graphChecks_iff {editor : Editor}
    (hreach : (composerCanvas registry.capabilities).Reachable anyStep editor)
    (hknown : ∀ item ∈ operationItems editor.graph.nodes, registry.Publishes item.2.operation)
    (hclient : validateCanvas editor.graph.nodes editor.graph.edges = [])
    (metadata : WorkflowMetadata) :
    (∃ document, canvasToWorkflow metadata editor.graph.nodes editor.graph.edges = .ok document ∧
      ∃ hnonempty, GraphChecks registry (document.toWorkflow hnonempty)) ↔
      editor.graph.Faithful := by
  have hadmitted : (composerCanvas registry.capabilities).Reachable
      (fun _ change => (fun _ => True) change) editor := hreach
  have hnamed := CanvasGraph.Named.of_reachable hadmitted
  have hsourced := CanvasGraph.Sourced.of_reachable (hvalid.operationKeys_nodup hids) hadmitted
  have hchecked := CanvasGraph.checked_of_validateCanvas hclient
  obtain ⟨document, hdocument⟩ := canvasToWorkflow_total hnamed metadata
  obtain ⟨-, hnodes, -⟩ := canvasToWorkflow_ok hdocument
  have hnonempty : document.nodes ≠ [] := by
    rw [hnodes, workflowNodes, ne_eq, List.map_eq_nil_iff]
    intro hnil
    have hperm := sortedBySequence_perm (fun item : String × OperationNodeData => item.2.sequence)
      (operationItems editor.graph.nodes)
    rw [hnil] at hperm
    exact hchecked.nonempty hperm.symm.eq_nil
  have hresolves : editor.graph.ResolvesTo (registry.resolve (document.toWorkflow hnonempty)) :=
    hchecked.resolvesTo hvalid hsourced hknown hnodes
  constructor
  · rintro ⟨document', hdocument', hnonempty', hchecks⟩
    obtain rfl := Except.ok.inj (hdocument.symm.trans hdocument')
    obtain ⟨hsound, hconnected⟩ := hchecks.sound (hchecked.published hvalid hknown hnodes)
    exact editor.graph.faithful_of_sound hnamed hsourced hchecked hdocument hresolves hsound
      hconnected
  · intro hfaithful
    refine ⟨document, hdocument, hnonempty, graphChecks_of_sound ?_ ?_ ?_⟩
    · exact hfaithful.sound hnamed hsourced hchecked hdocument hresolves
    · exact hchecked.single hnamed hsourced hdocument
    · exact hfaithful.connected hnamed hsourced hchecked hdocument hresolves

open TransitionSystem in
/-- After any edits of any opened draft, a canvas of published operations without issues gives
a document that passes the checks of its graph, if and only if what the canvas does not look at
is in order. -/
theorem client_checks_imply {editor : Editor}
    (hreach : (composerCanvas registry.capabilities).Reachable anyStep editor)
    (hknown : ∀ item ∈ operationItems editor.graph.nodes, registry.Publishes item.2.operation)
    (hclient : validateCanvas editor.graph.nodes editor.graph.edges = [])
    (metadata : WorkflowMetadata) :
    (∃ document, canvasToWorkflow metadata editor.graph.nodes editor.graph.edges = .ok document ∧
      ∃ hnonempty, GraphChecks registry (document.toWorkflow hnonempty)) ↔
      editor.graph.Faithful :=
  Editor.graphChecks_iff hvalid hids hreach hknown hclient metadata

end Composer

/-! ## The chain as a draft -/

/-- The chain as a draft whose edge names the given artifact type. -/
def draftedChain (artifactType : String) : WorkflowDocument where
  metadata := emptyWorkflow.metadata
  nodes := chainWorkflow.nodes
  edges := [⟨⟨"a", "out", artifactType⟩, ⟨"b", "in", artifactType⟩⟩]
  inputs := Table.empty
  outputs := chainWorkflow.outputs

def chainCanvas (artifactType : String) : Editor :=
  Editor.opened (draftedChain artifactType) none chainRegistry.capabilities

open TransitionSystem in
theorem chainCanvas_reachable (artifactType : String) :
    (composerCanvas chainRegistry.capabilities).Reachable anyStep (chainCanvas artifactType) :=
  .initial ⟨draftedChain artifactType, none, rfl⟩

theorem chainRegistry_valid : chainRegistry.Valid :=
  ⟨by decide, by decide⟩

theorem chainRegistry_ids : ∀ entry ∈ chainRegistry.entries,
    ∀ operation ∈ entry.capability.operations, '/' ∉ operation.id.toList := by
  decide

theorem chainCanvas_known (artifactType : String) :
    ∀ item ∈ operationItems (chainCanvas artifactType).graph.nodes,
      chainRegistry.Publishes item.2.operation := by
  intro item hitem
  have hoperations : (operationItems (chainCanvas artifactType).graph.nodes).map
      (fun item => item.2.operation) =
        [⟨"sample", "1.0.0", "work"⟩, ⟨"sample", "1.0.0", "pass"⟩] := rfl
  have hmem : item.2.operation ∈ (operationItems (chainCanvas artifactType).graph.nodes).map
      (fun item => item.2.operation) := List.mem_map.mpr ⟨item, hitem, rfl⟩
  rw [hoperations] at hmem
  rcases List.mem_cons.mp hmem with hwork | hpass
  · exact ⟨_, List.mem_singleton_self _, _, List.mem_cons_self, hwork⟩
  · exact ⟨_, List.mem_singleton_self _, _, List.mem_cons_of_mem _ (List.mem_singleton_self _),
      List.mem_singleton.mp hpass⟩

/-- The chain with the types of its ports. -/
theorem chainCanvas_faithful : (chainCanvas "data@1").graph.Faithful := by
  have hinternal : (chainCanvas "data@1").graph.edgesOf .internal =
      [internalEdge ⟨⟨"a", "out", "data@1"⟩, ⟨"b", "in", "data@1"⟩⟩ 0] := rfl
  refine ⟨fun edge hedge original horiginal => ?_, fun kind edge hreaches hshadowed => ?_,
    fun item hitem port hport _ => ?_, fun hcycle => ?_⟩
  · rw [hinternal, List.mem_singleton] at hedge
    subst hedge
    obtain rfl := Option.some.inj horiginal
    exact ⟨⟨_, rfl, rfl, rfl⟩, _, rfl, rfl, rfl⟩
  · have hends : ∀ kind, ∀ edge ∈ (chainCanvas "data@1").graph.edgesOf (.boundary kind),
        edge.boundaryEnd kind ∉ (operationItems (chainCanvas "data@1").graph.nodes).map
          Prod.fst := by
      intro kind
      cases kind <;> decide
    exact absurd hshadowed (hends kind edge hreaches.mem)
  · have hports : ∀ item ∈ operationItems (chainCanvas "data@1").graph.nodes,
        ∀ port ∈ item.2.inputs.rows,
          ∃ edge ∈ (chainCanvas "data@1").graph.edges, edge.target = item.1 ∧
            edge.targetHandle = some ("in:" ++ port.1) ∧ edge.data.kind = .internal := by
      decide
    obtain ⟨edge, hedge, htarget, hhandle, hkind⟩ := hports item hitem port hport
    exact ⟨edge, hedge, htarget, hhandle, .inl hkind⟩
  · obtain ⟨next, hstep, -⟩ := Relation.TransGen.head'_iff.mp hcycle
    have hends : internalEnds (chainCanvas "data@1").graph.edges = [("a", "b")] := rfl
    rw [hends, List.mem_singleton] at hstep
    exact absurd (Prod.mk.inj hstep).1 (by decide)

theorem client_checks_imply_chain :
    ∃ document, canvasToWorkflow emptyWorkflow.metadata (chainCanvas "data@1").graph.nodes
        (chainCanvas "data@1").graph.edges = .ok document ∧
      ∃ hnonempty, GraphChecks chainRegistry (document.toWorkflow hnonempty) :=
  (client_checks_imply chainRegistry_valid chainRegistry_ids (chainCanvas_reachable "data@1")
    (chainCanvas_known "data@1") (by decide) emptyWorkflow.metadata).mpr chainCanvas_faithful

open TransitionSystem in
/-- The edge of the opened draft names a type that neither port has. -/
theorem client_checks_overlook : ∃ (registry : Registry) (editor : Editor)
    (metadata : WorkflowMetadata), registry.Valid ∧
    (∀ entry ∈ registry.entries, ∀ operation ∈ entry.capability.operations,
      '/' ∉ operation.id.toList) ∧
    (composerCanvas registry.capabilities).Reachable anyStep editor ∧
    (∀ item ∈ operationItems editor.graph.nodes, registry.Publishes item.2.operation) ∧
    validateCanvas editor.graph.nodes editor.graph.edges = [] ∧
    ¬ ∃ document, canvasToWorkflow metadata editor.graph.nodes editor.graph.edges = .ok document ∧
      ∃ hnonempty, GraphChecks registry (document.toWorkflow hnonempty) := by
  have hclient : validateCanvas (chainCanvas "other@1").graph.nodes
      (chainCanvas "other@1").graph.edges = [] := by decide
  refine ⟨chainRegistry, chainCanvas "other@1", emptyWorkflow.metadata, chainRegistry_valid,
    chainRegistry_ids, chainCanvas_reachable _, chainCanvas_known _, hclient, ?_⟩
  rw [Editor.graphChecks_iff chainRegistry_valid chainRegistry_ids (chainCanvas_reachable _)
    (chainCanvas_known _) hclient]
  intro hfaithful
  obtain ⟨⟨node, hnode, -, htype⟩, -⟩ := hfaithful.drafted
    (internalEdge ⟨⟨"a", "out", "other@1"⟩, ⟨"b", "in", "other@1"⟩⟩ 0)
    (List.mem_singleton_self _) _ rfl
  have hfound : (nodeWithId? (chainCanvas "other@1").graph.nodes "a").bind
      (artifactTypeForSource · (some "out:out")) = some "data@1" := by decide
  have htypes : some "data@1" = some "other@1" := by
    rw [← hfound, show nodeWithId? (chainCanvas "other@1").graph.nodes "a" = some node from hnode]
    exact htype
  exact absurd htypes (by decide)

end QhpcEcosystem
