/-
What a canvas without issues is, and what every graph on the canvas keeps of the
operations that it was made from.
-/
import QhpcEcosystem.CanvasConnections

namespace QhpcEcosystem

/-! ## A canvas without issues -/

/-- The ends of an edge on a canvas without issues. -/
structure CanvasGraph.Meets (graph : CanvasGraph) (edge : ComposerEdge)
    (source target : ComposerNode) : Prop where
  sourceNode : nodeWithId? graph.nodes edge.source = some source
  targetNode : nodeWithId? graph.nodes edge.target = some target
  direction : directionValid source.data.kind target.data.kind = true
  types : ∃ artifactType, artifactTypeForSource source edge.sourceHandle = some artifactType ∧
    artifactTypeForTarget target edge.targetHandle = some artifactType
  single : ∀ other ∈ graph.edges, other.id ≠ edge.id →
    ¬ (other.target = edge.target ∧ other.targetHandle = edge.targetHandle)
  acyclic : source.data.kind = .operation → target.data.kind = .operation →
    operationPathExists edge.target edge.source
      (graph.edges.filter fun other => other.id ≠ edge.id) = false

/-- What `validateCanvas` establishes. -/
structure CanvasGraph.Checked (graph : CanvasGraph) : Prop where
  nonempty : operationItems graph.nodes ≠ []
  nodup : ((operationItems graph.nodes).map Prod.fst).Nodup
  required : ∀ item ∈ operationItems graph.nodes, ∀ port ∈ item.2.inputs.rows,
    port.2.required ≠ some false →
      ∃ edge ∈ graph.edges, edge.target = item.1 ∧ edge.targetHandle = some ("in:" ++ port.1)
  meets : ∀ edge ∈ graph.edges, ∃ source target, graph.Meets edge source target

theorem operationIssues_eq_nil {edges : List ComposerEdge}
    (items : List (String × OperationNodeData)) (ids : List String)
    (h : operationIssues edges items ids = []) :
    (items.map Prod.fst).Nodup ∧ (∀ item ∈ items, item.1 ∉ ids) ∧
      ∀ item ∈ items, ∀ port ∈ item.2.inputs.rows, port.2.required ≠ some false →
        ∃ edge ∈ edges, edge.target = item.1 ∧ edge.targetHandle = some ("in:" ++ port.1) := by
  induction items generalizing ids with
  | nil => simp
  | cons head rest ih =>
      obtain ⟨id, data⟩ := head
      simp only [operationIssues, List.append_eq_nil_iff, List.flatMap_eq_nil_iff] at h
      obtain ⟨⟨hfresh, hports⟩, hrest⟩ := h
      obtain ⟨hnodup, hout, hrequired⟩ := ih (id :: ids) hrest
      refine ⟨List.nodup_cons.mpr ⟨fun hmem => ?_, hnodup⟩, fun item hitem => ?_,
        fun item hitem port hport hne => ?_⟩
      · obtain ⟨item, hitem, heq⟩ := List.mem_map.mp hmem
        exact hout item hitem (heq ▸ List.mem_cons_self)
      · rcases List.mem_cons.mp hitem with rfl | hitem
        · intro hmem
          rw [if_pos hmem] at hfresh
          cases hfresh
        · exact fun hmem => hout item hitem (List.mem_cons_of_mem _ hmem)
      · rcases List.mem_cons.mp hitem with rfl | hitem
        · have hissue := hports port hport
          rw [if_neg hne] at hissue
          split at hissue
          · next hany =>
              obtain ⟨edge, hedge, hends⟩ := List.any_eq_true.mp hany
              exact ⟨edge, hedge, of_decide_eq_true hends⟩
          · cases hissue
        · exact hrequired item hitem port hport hne

theorem CanvasGraph.checked_of_validateCanvas {graph : CanvasGraph}
    (h : validateCanvas graph.nodes graph.edges = []) : graph.Checked := by
  simp only [validateCanvas, List.append_eq_nil_iff, List.flatMap_eq_nil_iff] at h
  obtain ⟨⟨⟨hempty, hoperations⟩, -⟩, hconnections⟩ := h
  obtain ⟨hnodup, -, hrequired⟩ := operationIssues_eq_nil _ _ hoperations
  refine ⟨fun hnone => ?_, hnodup, hrequired, fun edge hedge => ?_⟩
  · rw [if_pos hnone] at hempty
    cases hempty
  · have hissues := hconnections edge hedge
    unfold connectionIssues at hissues
    split at hissues
    · next hvalid =>
        obtain ⟨source, target, hsource, htarget, -, hdirection, ⟨artifactType, -, htypes⟩,
          hsingle, hacyclic⟩ := directionValid_of_validateConnection hvalid
        refine ⟨source, target, hsource, htarget, hdirection, ⟨artifactType, htypes⟩,
          fun other hother hid => ?_, fun hsourceKind htargetKind => ?_⟩
        · exact hsingle other (List.mem_filter.mpr ⟨hother, decide_eq_true hid⟩)
        · have hnone := hacyclic hsourceKind htargetKind
          rwa [id_of_nodeWithId? hsource, id_of_nodeWithId? htarget] at hnone
    · cases hissues

/-! ## Operations of a graph -/

/-- The keys of the operations, as the index of the composer spells them. -/
def operationKeys (capabilities : List Capability) : List String :=
  capabilities.flatMap fun capability => capability.operations.map fun operation =>
    operationKey capability.id capability.version operation.id

/-- What a graph keeps of the operations that it was made from. -/
structure CanvasGraph.Sourced (capabilities : List Capability) (graph : CanvasGraph) : Prop where
  /-- Of nodes under one id an operation stands first. -/
  operationsFirst : graph.nodes.Pairwise fun first second =>
    first.id = second.id → second.data.kind = .operation → first.data.kind = .operation
  internalIds : ((graph.edgesOf .internal).map ComposerEdge.id).Nodup
  /-- A drawn connection of operations carries the type of both ports. -/
  drawnTypes : ∀ edge ∈ graph.edges, edge.data.kind = .internal → edge.data.originalEdge = none →
    ∃ source ∈ graph.nodes, ∃ target ∈ graph.nodes, source.id = edge.source ∧
      target.id = edge.target ∧ source.data.kind = .operation ∧ target.data.kind = .operation ∧
      artifactTypeForSource source edge.sourceHandle = some edge.data.artifactType ∧
      artifactTypeForTarget target edge.targetHandle = some edge.data.artifactType
  /-- A node has the ports of the operation that it refers to. -/
  published : ∀ node ∈ graph.nodes, ∀ data, node.data = .operation data →
    ∀ capability ∈ capabilities, ∀ operation ∈ capability.operations,
      data.operation = ⟨capability.id, capability.version, operation.id⟩ →
      data.inputs = operation.inputs ∧ data.outputs = operation.outputs

section Operations

variable {capabilities : List Capability}

theorem mem_capabilityOperations {capability : Capability} {operation : OperationDefinition}
    (hcapability : capability ∈ capabilities) (hoperation : operation ∈ capability.operations) :
    (operationKey capability.id capability.version operation.id, capability, operation) ∈
      capabilities.flatMap fun capability => capability.operations.map fun operation =>
        (operationKey capability.id capability.version operation.id, capability, operation) :=
  List.mem_flatMap.mpr ⟨capability, hcapability, List.mem_map.mpr ⟨operation, hoperation, rfl⟩⟩

theorem keys_capabilityOperations :
    (capabilities.flatMap fun capability => capability.operations.map fun operation =>
        (operationKey capability.id capability.version operation.id, capability, operation)).map
      Prod.fst = operationKeys capabilities := by
  simp only [operationKeys, List.map_flatMap, List.map_map]
  rfl

variable (hkeys : (operationKeys capabilities).Nodup)

include hkeys

/-- The operation under a key is the only one. -/
theorem operation_unique {capability capability' : Capability}
    {operation operation' : OperationDefinition} (hcapability : capability ∈ capabilities)
    (hoperation : operation ∈ capability.operations) (hcapability' : capability' ∈ capabilities)
    (hoperation' : operation' ∈ capability'.operations)
    (hkey : operationKey capability.id capability.version operation.id =
      operationKey capability'.id capability'.version operation'.id) :
    operation = operation' := by
  rw [← keys_capabilityOperations] at hkeys
  have hpair := List.inj_on_of_nodup_map hkeys (mem_capabilityOperations hcapability hoperation)
    (mem_capabilityOperations hcapability' hoperation') hkey
  exact (Prod.mk.inj (Prod.mk.inj hpair).2).2

theorem row?_capabilityOperationIndex {capability : Capability} {operation : OperationDefinition}
    (hcapability : capability ∈ capabilities) (hoperation : operation ∈ capability.operations) :
    (capabilityOperationIndex capabilities).row?
        (operationKey capability.id capability.version operation.id) =
      some (operationKey capability.id capability.version operation.id, capability, operation) := by
  have hnodup := hkeys
  rw [← keys_capabilityOperations] at hnodup
  rw [capabilityOperationIndex, mapOf, Table.row?_foldl_set _ hnodup, Table.row?_empty,
    Option.or_none]
  exact find?_eq_some_of_unique (mem_capabilityOperations hcapability hoperation)
    (decide_eq_true rfl) fun other hother hsame => List.inj_on_of_nodup_map hnodup hother
      (mem_capabilityOperations hcapability hoperation) (of_decide_eq_true hsame)

end Operations

/-! ## Edits keep the operations -/

/-- Relabelling keeps the ports. -/
theorem ComposerNode.Relabels.artifactTypes {name : String → String} {node node' : ComposerNode}
    (h : node.Relabels name node') (handle : Option String) :
    artifactTypeForSource node' handle = artifactTypeForSource node handle ∧
      artifactTypeForTarget node' handle = artifactTypeForTarget node handle := by
  cases hdata : node.data with
  | operation data =>
      obtain ⟨-, data', hdata', -, hinputs, houtputs⟩ := h.operation data hdata
      simp [artifactTypeForSource, artifactTypeForTarget, hdata, hdata', hinputs, houtputs]
  | boundary data =>
      have hsame := (h.boundary data hdata).2
      simp [artifactTypeForSource, artifactTypeForTarget, hsame]

theorem ComposerNode.Relabels.kind_eq {name : String → String} {node node' : ComposerNode}
    (h : node.Relabels name node') : node'.data.kind = node.data.kind := by
  cases hdata : node.data with
  | operation data =>
      obtain ⟨-, data', hdata', -⟩ := h.operation data hdata
      rw [hdata']
      rfl
  | boundary data => rw [(h.boundary data hdata).2, hdata]

theorem ComposerNode.Relabels.id_of_operation {name : String → String} {node node' : ComposerNode}
    (h : node.Relabels name node') (hkind : node.data.kind = .operation) :
    node'.id = name node.id := by
  obtain ⟨data, hdata⟩ := operation_of_kind hkind
  exact (h.operation data hdata).1

namespace CanvasGraph.Sourced

variable {capabilities : List Capability} {graph graph' : CanvasGraph}

theorem drawn (hkeys : (operationKeys capabilities).Nodup) (h : graph.Sourced capabilities)
    (hdrawn : graph.Drawn capabilities graph') : graph'.Sourced capabilities := by
  cases hdrawn with
  | @added capability operation id position sequence hcapability hoperation hfresh =>
      refine ⟨?_, h.internalIds, fun edge hedge hkind hnew => ?_, fun node hnode data hdata => ?_⟩
      · refine List.pairwise_append.mpr ⟨h.operationsFirst, List.pairwise_singleton _ _, ?_⟩
        intro first hfirst second hsecond hsame _
        rw [List.mem_singleton.mp hsecond] at hsame
        exact absurd hsame (hfresh first hfirst)
      · obtain ⟨source, hsource, target, htarget, hends⟩ := h.drawnTypes edge hedge hkind hnew
        exact ⟨source, List.mem_append_left _ hsource, target, List.mem_append_left _ htarget, hends⟩
      · rcases List.mem_append.mp hnode with hold | hnew
        · exact h.published node hold data hdata
        · rw [List.mem_singleton.mp hnew] at hdata
          cases hdata
          intro capability' hcapability' operation' hoperation' hreference
          obtain ⟨hid, hversion, hname⟩ := OperationReference.mk.inj hreference
          obtain rfl := operation_unique hkeys hcapability hoperation hcapability' hoperation'
            (by rw [hid, hversion, hname])
          exact ⟨rfl, rfl⟩
  | @connected edge source target uuid hconnects hid hfresh =>
      refine ⟨h.operationsFirst, ?_, fun other hother hkind hnew => ?_, h.published⟩
      · rw [edgesOf, List.filter_append, List.map_append]
        refine List.nodup_append'.mpr ⟨h.internalIds, ?_, ?_⟩
        · exact (List.nodup_singleton edge.id).sublist (List.filter_sublist.map ComposerEdge.id)
        · intro id hold hnew
          obtain ⟨other, hother, rfl⟩ := List.mem_map.mp hold
          obtain ⟨added, hadded, heq⟩ := List.mem_map.mp hnew
          obtain rfl := List.mem_singleton.mp (List.mem_filter.mp hadded).1
          exact hfresh other (mem_edgesOf.mp hother).1 heq.symm
      · rcases List.mem_append.mp hother with hold | hlast
        · exact h.drawnTypes other hold hkind hnew
        · obtain rfl := List.mem_singleton.mp hlast
          have hends := hconnects.kind.symm.trans hkind
          rcases kinds_of_connection hconnects.direction with ⟨hsource, htarget, -⟩ |
            ⟨-, -, hinput⟩ | ⟨-, -, houtput⟩
          · exact ⟨source, mem_of_nodeWithId? hconnects.sourceNode, target,
              mem_of_nodeWithId? hconnects.targetNode, id_of_nodeWithId? hconnects.sourceNode,
              id_of_nodeWithId? hconnects.targetNode, hsource, htarget, hconnects.sourceType,
              hconnects.types.symm.trans hconnects.sourceType⟩
          · rw [hinput] at hends
            cases hends
          · rw [houtput] at hends
            cases hends
  | @exposed node data port definition kind sequence hnode _ _ =>
      obtain ⟨boundary, -, -, -, hdata, -⟩ := boundaryForPort_node node.id node.position port
        definition kind graph.nodes sequence
      obtain ⟨-, hkind, -⟩ := boundaryForPort_edge node.id node.position port definition kind
        graph.nodes sequence
      refine ⟨?_, ?_, fun edge hedge hinternal hnew => ?_, fun other hother data hother' => ?_⟩
      · refine List.pairwise_append.mpr ⟨h.operationsFirst, List.pairwise_singleton _ _, ?_⟩
        intro first _ second hsecond _ hoperation
        rw [List.mem_singleton.mp hsecond, hdata] at hoperation
        cases hoperation
      · rw [edgesOf, List.filter_append, List.filter_cons, if_neg (by rw [hkind]; simp),
          List.filter_nil, List.append_nil]
        exact h.internalIds
      · rcases List.mem_append.mp hedge with hold | hlast
        · obtain ⟨source, hsource, target, htarget, hends⟩ :=
            h.drawnTypes edge hold hinternal hnew
          exact ⟨source, List.mem_append_left _ hsource, target, List.mem_append_left _ htarget,
            hends⟩
        · rw [List.mem_singleton.mp hlast, hkind] at hinternal
          cases hinternal
      · rcases List.mem_append.mp hother with hold | hlast
        · exact h.published other hold data hother'
        · rw [List.mem_singleton.mp hlast, hdata] at hother'
          cases hother'
  | removed hends =>
      refine ⟨h.operationsFirst.sublist List.filter_sublist, ?_, fun edge hedge hkind hnew => ?_,
        fun node hnode => h.published node (List.mem_of_mem_filter hnode)⟩
      · refine h.internalIds.sublist (List.Sublist.map _ ?_)
        exact List.filter_sublist.filter _
      · obtain ⟨hold, hkept⟩ := List.mem_filter.mp hedge
        obtain ⟨source, hsource, target, htarget, hsourceId, htargetId, hrest⟩ :=
          h.drawnTypes edge hold hkind hnew
        obtain ⟨hsourceKept, htargetKept⟩ := hends edge hold hkept
        exact ⟨source, List.mem_filter.mpr ⟨hsource, hsourceId ▸ hsourceKept⟩, target,
          List.mem_filter.mpr ⟨htarget, htargetId ▸ htargetKept⟩, hsourceId, htargetId, hrest⟩

theorem relabelled {name : String → String} {relabel : ComposerNode → ComposerNode}
    (h : graph.Sourced capabilities) (hrelabelled : graph.Relabelled graph' name relabel) :
    graph'.Sourced capabilities := by
  have hrelabels := hrelabelled.relabels
  refine ⟨?_, ?_, fun edge hedge hkind hnew => ?_, fun node hnode data hdata => ?_⟩
  · rw [hrelabelled.nodes, List.pairwise_map]
    refine List.Pairwise.imp_of_mem (fun {first second} hfirst hsecond hpair hsame hoperation => ?_)
      h.operationsFirst
    rw [(hrelabels first hfirst).kind_eq]
    rw [(hrelabels second hsecond).kind_eq] at hoperation
    by_contra hkind
    -- the first is a boundary, and no boundary is under a new id
    obtain ⟨boundary, hboundary⟩ : ∃ boundary, first.data = .boundary boundary := by
      cases hdata : first.data with
      | operation data => exact absurd (by rw [hdata]; rfl) hkind
      | boundary boundary => exact ⟨boundary, rfl⟩
    rw [((hrelabels first hfirst).boundary boundary hboundary).1,
      (hrelabels second hsecond).id_of_operation hoperation] at hsame
    rcases hrelabelled.fresh second.id with hold | hfresh
    · exact hkind (hpair (hsame.trans hold) hoperation)
    · exact hfresh first hfirst hsame
  · have hids : (graph'.edgesOf .internal).map ComposerEdge.id =
        (graph.edgesOf .internal).map ComposerEdge.id := by
      rw [edgesOf, hrelabelled.edges, List.filter_map, List.map_map]
      rfl
    rw [hids]
    exact h.internalIds
  · rw [hrelabelled.edges] at hedge
    obtain ⟨old, hold, rfl⟩ := List.mem_map.mp hedge
    obtain ⟨source, hsource, target, htarget, hsourceId, htargetId, hsourceKind, htargetKind,
      hsourceType, htargetType⟩ := h.drawnTypes old hold hkind hnew
    have hmem : ∀ node ∈ graph.nodes, relabel node ∈ graph'.nodes := fun node hnode => by
      rw [hrelabelled.nodes]
      exact List.mem_map_of_mem hnode
    refine ⟨relabel source, hmem source hsource, relabel target, hmem target htarget, ?_, ?_, ?_,
      ?_, ?_, ?_⟩
    · rw [(hrelabels source hsource).id_of_operation hsourceKind, hsourceId]
    · rw [(hrelabels target htarget).id_of_operation htargetKind, htargetId]
    · rw [(hrelabels source hsource).kind_eq, hsourceKind]
    · rw [(hrelabels target htarget).kind_eq, htargetKind]
    · rw [((hrelabels source hsource).artifactTypes _).1, hsourceType]
    · rw [((hrelabels target htarget).artifactTypes _).2, htargetType]
  · rw [hrelabelled.nodes] at hnode
    obtain ⟨old, hold, rfl⟩ := List.mem_map.mp hnode
    cases holdData : old.data with
    | operation oldData =>
        obtain ⟨-, data', hdata', hreference, hinputs, houtputs⟩ :=
          (hrelabels old hold).operation oldData holdData
        obtain rfl := NodeData.operation.inj (hdata'.symm.trans hdata)
        rw [hreference, hinputs, houtputs]
        exact h.published old hold oldData holdData
    | boundary oldData =>
        have hsame := ((hrelabels old hold).boundary oldData holdData).2
        rw [hsame, holdData] at hdata
        cases hdata

theorem opened (hkeys : (operationKeys capabilities).Nodup) (workflow : WorkflowDocument)
    (layout : Option DraftLayout) :
    (Editor.opened workflow layout capabilities).graph.Sourced capabilities := by
  refine ⟨?_, ?_, fun edge hedge hkind hnew => ?_, fun node hnode data hdata => ?_⟩
  · have hboundary : ∀ node ∈ workflow.inputs.rows.zipIdx.map (fun item =>
          inputBoundaryNode item.1.1 item.1.2 item.2 layout
            (((mapOf ((operationNodes workflow layout capabilities).map fun node =>
              (node.id, node.position))).row? item.1.2.target.node).map Prod.snd)) ++
        workflow.outputs.rows.zipIdx.map (fun item =>
          outputBoundaryNode item.1.1 item.1.2 item.2 layout
            (((mapOf ((operationNodes workflow layout capabilities).map fun node =>
              (node.id, node.position))).row? item.1.2.source.node).map Prod.snd)),
        node.data.kind ≠ .operation := by
      intro node hnode
      rcases List.mem_append.mp hnode with hinput | houtput
      · obtain ⟨item, -, rfl⟩ := List.mem_map.mp hinput
        simp [inputBoundaryNode, NodeData.kind]
      · obtain ⟨item, -, rfl⟩ := List.mem_map.mp houtput
        simp [outputBoundaryNode, NodeData.kind]
    simp only [Editor.opened, workflowToCanvas]
    rw [List.append_assoc]
    refine List.pairwise_append.mpr ⟨?_, ?_, fun first hfirst second hsecond _ _ =>
      kind_of_mem_operationNodes hfirst⟩
    · exact List.pairwise_of_forall_mem_list fun first hfirst second _ _ _ =>
        kind_of_mem_operationNodes hfirst
    · exact List.pairwise_of_forall_mem_list fun first _ second hsecond _ hoperation =>
        absurd hoperation (hboundary second hsecond)
  · exact (Joined.nodup_edgeIds_opened capabilities workflow layout).sublist
      (List.filter_sublist.map _)
  · change edge ∈ (workflowToCanvas workflow layout capabilities).edges at hedge
    rcases mem_edges_workflowToCanvas hedge with ⟨item, _, rfl⟩ | ⟨item, _, rfl⟩ | ⟨item, _, rfl⟩
    · cases hnew
    · cases hkind
    · cases hkind
  · change node ∈ (workflowToCanvas workflow layout capabilities).nodes at hnode
    rcases mem_nodes_workflowToCanvas hnode with hoperation | ⟨item, _, position, rfl⟩ |
      ⟨item, _, position, rfl⟩
    · obtain ⟨item, -, rfl⟩ := List.mem_map.mp hoperation
      cases hdata
      intro capability hcapability operation hmem hreference
      have hrow := row?_capabilityOperationIndex hkeys hcapability hmem
      simp only [operationNodeData] at hreference ⊢
      rw [hreference, hrow]
      exact ⟨rfl, rfl⟩
    · cases hdata
    · cases hdata

open TransitionSystem in
theorem of_reachable (hkeys : (operationKeys capabilities).Nodup) {editor : Editor}
    {admitted : CanvasEdit → Prop}
    (hreach : (composerCanvas capabilities).Reachable (fun _ change => admitted change) editor) :
    editor.graph.Sourced capabilities := by
  refine (Editor.All.of_reachable (fun workflow layout => opened hkeys workflow layout)
    (fun graph change graph' hsourced _ hedit => ?_) hreach).graph
  rcases edit_cases hedit with hdrawn | ⟨-, name, relabel, hrelabelled⟩
  · exact hsourced.drawn hkeys hdrawn
  · exact hsourced.relabelled hrelabelled

end CanvasGraph.Sourced

end QhpcEcosystem
