/-
The document that a canvas translates to: its nodes are the operations of the canvas, its
edges the internal connections, and its inputs and outputs the connections that reach it.
-/
import QhpcEcosystem.CanvasValidation
import Mathlib.Data.List.Find
import Mathlib.Data.List.Pairwise

namespace QhpcEcosystem

/-- The last connection of the boundary under an id. -/
def CanvasGraph.lastConnection? (graph : CanvasGraph) (kind : BoundaryKind) (id : String) :
    Option ComposerEdge :=
  (edgesOfKind (.boundary kind) graph.edges).reverse.find? fun edge => edge.boundaryEnd kind = id

/-- The connection becomes an entry of the document: it is the last one of its boundary,
and the boundary is there under another name than `__proto__`. -/
def CanvasGraph.Reaches (graph : CanvasGraph) (kind : BoundaryKind) (edge : ComposerEdge) : Prop :=
  graph.lastConnection? kind (edge.boundaryEnd kind) = some edge ∧
    ∃ boundary, boundaryNode? kind graph.nodes (edge.boundaryEnd kind) = some boundary ∧
      boundary.name ≠ "__proto__"

/-! ## The operations under ids -/

section Ids

variable {graph : CanvasGraph} {capabilities : List Capability}

theorem mem_operationItems {nodes : List ComposerNode} {item : String × OperationNodeData} :
    item ∈ operationItems nodes ↔
      ∃ node ∈ nodes, node.id = item.1 ∧ node.data = .operation item.2 := by
  simp only [operationItems, List.mem_filterMap, Option.map_eq_some_iff]
  constructor
  · rintro ⟨node, hnode, data, hdata, rfl⟩
    refine ⟨node, hnode, rfl, ?_⟩
    unfold ComposerNode.operation? at hdata
    split at hdata <;> cases hdata
    assumption
  · rintro ⟨node, hnode, hid, hdata⟩
    exact ⟨node, hnode, item.2, by simp [ComposerNode.operation?, hdata], by rw [hid]⟩

theorem operationItem_of_nodeWithId? {id : String} {node : ComposerNode}
    (hnode : nodeWithId? graph.nodes id = some node) (hkind : node.data.kind = .operation) :
    ∃ data, node.data = .operation data ∧ (id, data) ∈ operationItems graph.nodes := by
  obtain ⟨data, hdata⟩ := operation_of_kind hkind
  exact ⟨data, hdata, mem_operationItems.mpr
    ⟨node, mem_of_nodeWithId? hnode, id_of_nodeWithId? hnode, hdata⟩⟩

/-- The first node under the id of an operation is that operation. -/
theorem nodeWithId?_of_operationItem (hsourced : graph.Sourced capabilities)
    (hchecked : graph.Checked) {item : String × OperationNodeData}
    (hitem : item ∈ operationItems graph.nodes) :
    ∃ node, nodeWithId? graph.nodes item.1 = some node ∧ node.data = .operation item.2 := by
  obtain ⟨node, hnode, hid, hdata⟩ := mem_operationItems.mp hitem
  cases hfound : nodeWithId? graph.nodes item.1 with
  | none =>
      have hnone := List.find?_eq_none.mp hfound node hnode
      rw [decide_eq_true_eq] at hnone
      exact absurd hid hnone
  | some found =>
      refine ⟨found, rfl, ?_⟩
      have hfoundId := id_of_nodeWithId? hfound
      have hkind : found.data.kind = .operation := by
        obtain ⟨-, before, after, hsplit, hbefore⟩ := List.find?_eq_some_iff_append.mp hfound
        have hfirst := hsourced.operationsFirst
        rw [hsplit] at hfirst hnode
        rcases List.mem_append.mp hnode with hearlier | hlater
        · have hne := hbefore node hearlier
          simp [hid] at hne
        · rcases List.mem_cons.mp hlater with rfl | hlater
          · rw [hdata]
            rfl
          · exact (List.pairwise_cons.mp (List.pairwise_append.mp hfirst).2.1).1 node hlater
              (hfoundId.trans hid.symm) (by rw [hdata]; rfl)
      obtain ⟨data, hfoundData, hfoundItem⟩ := operationItem_of_nodeWithId? hfound hkind
      have hsame := List.inj_on_of_nodup_map hchecked.nodup hfoundItem hitem rfl
      rw [hfoundData, ← hsame]

/-- Members that map to one value are equal when the values differ. -/
theorem eq_of_nodup_filterMap {α β : Type} {f : α → Option β} {values : List α}
    (hnodup : (values.filterMap f).Nodup) {x y : α} (hx : x ∈ values) (hy : y ∈ values) {b : β}
    (hfx : f x = some b) (hfy : f y = some b) : x = y := by
  have hpairs := List.pairwise_filterMap.mp hnodup
  have : Std.Symm fun x y => ∀ b, f x = some b → ∀ b', f y = some b' → b ≠ b' :=
    ⟨fun x y hxy b hb b' hb' heq => hxy b' hb' b hb heq.symm⟩
  by_contra hne
  exact hpairs.forall hx hy hne b hfx b hfy rfl

/-- Of one kind there is one boundary under an id. -/
theorem boundary_unique (hnamed : graph.Named) {kind : BoundaryKind} {node : ComposerNode}
    {data boundary : BoundaryNodeData} (hnode : node ∈ graph.nodes)
    (hdata : node.data = .boundary data)
    (hboundary : boundaryNode? kind graph.nodes node.id = some boundary) : data = boundary := by
  unfold boundaryNode? at hboundary
  obtain ⟨found, hfound, hread⟩ := Option.bind_eq_some_iff.mp hboundary
  have hmatches := List.find?_some hfound
  rw [decide_eq_true_eq] at hmatches
  obtain ⟨hfoundId, hfoundKind⟩ := hmatches
  obtain ⟨foundData, hfoundData, rfl⟩ := boundary_of_kind hfoundKind
  rw [boundary?_boundary hfoundData, if_pos rfl] at hread
  obtain rfl := Option.some.inj hread
  have hfoundMem := List.mem_of_find?_eq_some hfound
  have hids := hnamed.boundaryIds found hfoundMem foundData hfoundData
  rw [hfoundId, hnamed.boundaryIds node hnode data hdata] at hids
  obtain ⟨hkind, hname⟩ := nodeId_kind hids
  have hnames : ∀ {node : ComposerNode} {data : BoundaryNodeData}, node.data = .boundary data →
      data.kind = foundData.kind →
      (node.boundary? foundData.kind).map BoundaryNodeData.name = some data.name := by
    intro node data hdata hkind
    rw [boundary?_boundary hdata, if_pos hkind, Option.map_some]
  have hsame := eq_of_nodup_filterMap (hnamed.boundaryNodup foundData.kind) hnode hfoundMem
    ((hnames hdata hkind).trans (congrArg some hname)) (hnames hfoundData rfl)
  rw [hsame, hfoundData] at hdata
  exact (NodeData.boundary.inj hdata).symm

theorem id_of_boundaryNode? (hnamed : graph.Named) {kind : BoundaryKind} {id : String}
    {boundary : BoundaryNodeData} (h : boundaryNode? kind graph.nodes id = some boundary) :
    id = kind.nodeId boundary.name := by
  unfold boundaryNode? at h
  obtain ⟨found, hfound, hread⟩ := Option.bind_eq_some_iff.mp h
  have hmatches := List.find?_some hfound
  rw [decide_eq_true_eq] at hmatches
  obtain ⟨data, hdata, rfl⟩ := boundary_of_kind hmatches.2
  rw [boundary?_boundary hdata, if_pos rfl] at hread
  obtain rfl := Option.some.inj hread
  rw [← hmatches.1]
  exact hnamed.boundaryIds found (List.mem_of_find?_eq_some hfound) data hdata

end Ids

/-! ## The document of a canvas -/

/-- The results of a computation that succeeds on all values. -/
theorem mem_mapM_ok {ε α β : Type} {f : α → Except ε β} {values : List α} {results : List β}
    (h : values.mapM f = .ok results) (result : β) :
    result ∈ results ↔ ∃ value ∈ values, f value = .ok result := by
  induction values generalizing results with
  | nil =>
      cases h
      simp
  | cons value rest ih =>
      rw [List.mapM_cons] at h
      simp only [bind, Except.bind] at h
      split at h
      · cases h
      · next first hfirst =>
          split at h
          · cases h
          · next others hothers =>
              cases h
              rw [List.mem_cons, ih hothers]
              simp only [List.mem_cons, exists_eq_or_imp, hfirst, Except.ok.injEq]
              rw [eq_comm]

theorem mapM_eq_map_join {ε α β : Type} {f : α → Except ε (Option β)} {values : List α}
    {results : List (Option β)} (h : values.mapM f = .ok results) :
    results = values.map fun value => (f value).toOption.join := by
  induction values generalizing results with
  | nil =>
      cases h
      rfl
  | cons value rest ih =>
      rw [List.mapM_cons] at h
      simp only [bind, Except.bind] at h
      split at h
      · cases h
      · next first hfirst =>
          split at h
          · cases h
          · next others hothers =>
              cases h
              rw [List.map_cons, hfirst, ih hothers]
              rfl

theorem join_toOption_eq_some {ε β : Type} {result : Except ε (Option β)} {value : β} :
    result.toOption.join = some value ↔ result = .ok (some value) := by
  cases result with
  | error _ => simp [Except.toOption]
  | ok found => cases found <;> simp [Except.toOption]

/-- The parts of the document of a canvas. -/
theorem canvasToWorkflow_ok {metadata : WorkflowMetadata} {nodes : List ComposerNode}
    {edges : List ComposerEdge} {document : WorkflowDocument}
    (h : canvasToWorkflow metadata nodes edges = .ok document) :
    document.metadata = metadata ∧ document.nodes = workflowNodes nodes ∧
      (edgesOfKind .internal edges).mapM workflowEdge = .ok document.edges ∧
      (∃ inputs, (edgesOfKind (.boundary .workflowInput) edges).mapM (workflowInput nodes) =
        .ok inputs ∧ document.inputs = assignAll Table.empty (inputs.filterMap id)) ∧
      ∃ outputs, (edgesOfKind (.boundary .workflowOutput) edges).mapM (workflowOutput nodes) =
        .ok outputs ∧ document.outputs = assignAll Table.empty (outputs.filterMap id) := by
  unfold canvasToWorkflow at h
  simp only [bind, Except.bind] at h
  split at h
  · cases h
  · next definitions hdefinitions =>
      split at h
      · cases h
      · next inputs hinputs =>
          split at h
          · cases h
          · next outputs houtputs =>
              cases h
              exact ⟨rfl, rfl, hdefinitions, ⟨inputs, hinputs, rfl⟩, outputs, houtputs, rfl⟩

section Entries

variable {graph : CanvasGraph}

/-- The entries of a kind are those of the connections that reach the document. -/
theorem mem_boundaryEntries {α : Type} {kind : BoundaryKind} (hnamed : graph.Named)
    {entryOf : ComposerEdge → Except String (Option (String × α))}
    (hfound : ∀ edge ∈ graph.edgesOf (.boundary kind), ∀ boundary,
      boundaryNode? kind graph.nodes (edge.boundaryEnd kind) = some boundary →
        ∃ value, entryOf edge = .ok (some (boundary.name, value)))
    (hmissing : ∀ edge, boundaryNode? kind graph.nodes (edge.boundaryEnd kind) = none →
      entryOf edge = .ok none) {results : List (Option (String × α))}
    (hresults : (edgesOfKind (.boundary kind) graph.edges).mapM entryOf = .ok results)
    (row : String × α) :
    row ∈ (assignAll Table.empty (results.filterMap id)).rows ↔
      ∃ edge, graph.Reaches kind edge ∧ entryOf edge = .ok (some row) := by
  have hperm := graph.edgesOfKind_perm (.boundary kind)
  have hentry : ∀ edge ∈ graph.edgesOf (.boundary kind), ∀ other : String × α,
      entryOf edge = .ok (some other) → ∃ boundary,
        boundaryNode? kind graph.nodes (edge.boundaryEnd kind) = some boundary ∧
          boundary.name = other.1 := by
    intro edge hedge other hother
    cases hboundary : boundaryNode? kind graph.nodes (edge.boundaryEnd kind) with
    | none =>
        rw [hmissing edge hboundary] at hother
        cases hother
    | some boundary =>
        obtain ⟨value, hvalue⟩ := hfound edge hedge boundary hboundary
        rw [hvalue] at hother
        exact ⟨boundary, rfl, congrArg Prod.fst (Option.some.inj (Except.ok.inj hother))⟩
  have hlast : ∀ edge ∈ graph.edgesOf (.boundary kind), entryOf edge = .ok (some row) →
      ((edgesOfKind (.boundary kind) graph.edges).reverse.find? fun other =>
          (entryOf other).toOption.join.any fun item => item.1 = row.1) =
        graph.lastConnection? kind (edge.boundaryEnd kind) := by
    intro edge hedge hrow
    obtain ⟨boundary, hboundary, hname⟩ := hentry edge hedge row hrow
    have hend := id_of_boundaryNode? hnamed hboundary
    refine List.find?_congr fun other hother => ?_
    have hotherMem : other ∈ graph.edgesOf (.boundary kind) :=
      hperm.mem_iff.mp (List.mem_reverse.mp hother)
    by_cases hsame : other.boundaryEnd kind = edge.boundaryEnd kind
    · obtain ⟨value, hvalue⟩ := hfound other hotherMem boundary (by rw [hsame, hboundary])
      simp [hvalue, hsame, hname, Except.toOption]
    · cases hvalue : (entryOf other).toOption.join with
      | none => simp [hsame]
      | some item =>
          obtain ⟨boundary', hboundary', hname'⟩ :=
            hentry other hotherMem item (join_toOption_eq_some.mp hvalue)
          have hend' := id_of_boundaryNode? hnamed hboundary'
          have hne : item.1 ≠ row.1 := fun heq => hsame (by
            rw [hend, hend', hname, hname', heq])
          simp [hsame, hne]
  rw [Table.mem_rows_iff, show Keyed.key row = row.1 from rfl, row?_assignAll, Table.row?_empty,
    Option.or_none, mapM_eq_map_join hresults, List.filterMap_map,
    ← List.filterMap_reverse, List.find?_filterMap]
  constructor
  · intro hrow
    split at hrow
    · cases hrow
    · next hproto =>
        obtain ⟨edge, hedge, hvalue⟩ := Option.bind_eq_some_iff.mp hrow
        have hvalue := join_toOption_eq_some.mp hvalue
        have hmem : edge ∈ graph.edgesOf (.boundary kind) :=
          hperm.mem_iff.mp (List.mem_reverse.mp (List.mem_of_find?_eq_some hedge))
        obtain ⟨boundary, hboundary, hname⟩ := hentry edge hmem row hvalue
        exact ⟨edge, ⟨(hlast edge hmem hvalue).symm.trans hedge, boundary, hboundary,
          fun heq => hproto (hname ▸ heq)⟩, hvalue⟩
  · rintro ⟨edge, ⟨hreaches, boundary, hboundary, hproto⟩, hvalue⟩
    have hmem : edge ∈ graph.edgesOf (.boundary kind) :=
      hperm.mem_iff.mp (List.mem_reverse.mp (List.mem_of_find?_eq_some hreaches))
    obtain ⟨boundary', hboundary', hname⟩ := hentry edge hmem row hvalue
    obtain rfl := Option.some.inj (hboundary.symm.trans hboundary')
    rw [if_neg (fun heq => hproto (hname.trans heq))]
    exact Option.bind_eq_some_iff.mpr ⟨edge, (hlast edge hmem hvalue).trans hreaches,
      join_toOption_eq_some.mpr hvalue⟩

end Entries

section Nodes

variable {nodes : List ComposerNode}

theorem mem_workflowNodes {item : String × OperationNodeData}
    (hitem : item ∈ operationItems nodes) :
    ∃ node ∈ workflowNodes nodes, node.id = item.1 ∧ node.operation = item.2.operation :=
  ⟨_, List.mem_map_of_mem (mem_sortedBySequence.mpr hitem), rfl, rfl⟩

theorem item_of_mem_workflowNodes {node : Node} (hnode : node ∈ workflowNodes nodes) :
    ∃ item ∈ operationItems nodes, node.id = item.1 ∧ node.operation = item.2.operation := by
  obtain ⟨item, hitem, rfl⟩ := List.mem_map.mp hnode
  exact ⟨item, mem_sortedBySequence.mp hitem, rfl, rfl⟩

theorem nodeIds_perm : ((workflowNodes nodes).map Node.id).Perm
    ((operationItems nodes).map Prod.fst) := by
  rw [workflowNodes, List.map_map]
  exact (sortedBySequence_perm _ _).map Prod.fst

end Nodes

/-! ## Connections and entries -/

section Document

variable {graph : CanvasGraph} {metadata : WorkflowMetadata} {document : WorkflowDocument}
  (hnamed : graph.Named)

include hnamed

/-- Named handles always translate. -/
theorem canvasToWorkflow_total (metadata : WorkflowMetadata) :
    ∃ document, canvasToWorkflow metadata graph.nodes graph.edges = .ok document := by
  have hdefinitions : ∃ definitions, (edgesOfKind .internal graph.edges).mapM workflowEdge =
      .ok definitions ∧ List.Forall₂ (fun _ _ => True) (edgesOfKind .internal graph.edges)
        definitions := mapM_forall₂ fun edge hedge => by
    obtain ⟨hmem, hkind⟩ := CanvasGraph.mem_edgesOfKind.mp hedge
    obtain ⟨_, _, -, -, hdefinition⟩ := workflowEdge_eq (hnamed.handles edge hmem) hkind
    exact ⟨_, hdefinition, trivial⟩
  have hinputs : ∃ inputs, (edgesOfKind (.boundary .workflowInput) graph.edges).mapM
      (workflowInput graph.nodes) = .ok inputs ∧ List.Forall₂ (fun _ _ => True)
        (edgesOfKind (.boundary .workflowInput) graph.edges) inputs :=
    mapM_forall₂ fun edge hedge => by
      cases hboundary : boundaryNode? .workflowInput graph.nodes edge.source with
      | none => exact ⟨none, by rw [workflowInput, hboundary], trivial⟩
      | some boundary =>
          obtain ⟨_, -, hentry⟩ := workflowInput_eq hnamed
            ((graph.edgesOfKind_perm _).mem_iff.mp hedge) hboundary
          exact ⟨_, hentry, trivial⟩
  have houtputs : ∃ outputs, (edgesOfKind (.boundary .workflowOutput) graph.edges).mapM
      (workflowOutput graph.nodes) = .ok outputs ∧ List.Forall₂ (fun _ _ => True)
        (edgesOfKind (.boundary .workflowOutput) graph.edges) outputs :=
    mapM_forall₂ fun edge hedge => by
      cases hboundary : boundaryNode? .workflowOutput graph.nodes edge.target with
      | none => exact ⟨none, by rw [workflowOutput, hboundary], trivial⟩
      | some boundary =>
          obtain ⟨_, -, hentry⟩ := workflowOutput_eq hnamed
            ((graph.edgesOfKind_perm _).mem_iff.mp hedge) hboundary
          exact ⟨_, hentry, trivial⟩
  obtain ⟨definitions, hdefinitions, -⟩ := hdefinitions
  obtain ⟨inputs, hinputs, -⟩ := hinputs
  obtain ⟨outputs, houtputs, -⟩ := houtputs
  rw [canvasToWorkflow, hdefinitions, hinputs, houtputs]
  exact ⟨_, rfl⟩

variable (hdocument : canvasToWorkflow metadata graph.nodes graph.edges = .ok document)

include hdocument

omit hnamed in
/-- The edges of the document are those of the internal connections. -/
theorem mem_document_edges {definition : Edge} : definition ∈ document.edges ↔
    ∃ edge ∈ graph.edgesOf .internal, workflowEdge edge = .ok definition := by
  obtain ⟨-, -, hedges, -⟩ := canvasToWorkflow_ok hdocument
  rw [mem_mapM_ok hedges]
  simp only [(graph.edgesOfKind_perm .internal).mem_iff]

/-- The inputs of the document are those of the connections that reach it. -/
theorem mem_document_inputs {row : String × WorkflowInput} : row ∈ document.inputs.rows ↔
    ∃ edge, graph.Reaches .workflowInput edge ∧ workflowInput graph.nodes edge = .ok (some row) := by
  obtain ⟨-, -, -, ⟨inputs, hinputs, hrows⟩, -⟩ := canvasToWorkflow_ok hdocument
  rw [hrows]
  refine mem_boundaryEntries hnamed (fun edge hedge boundary hboundary => ?_)
    (fun edge hnone => ?_) hinputs row
  · obtain ⟨port, -, hentry⟩ := workflowInput_eq hnamed hedge hboundary
    exact ⟨_, hentry⟩
  · rw [ComposerEdge.boundaryEnd] at hnone
    rw [workflowInput, hnone]

theorem mem_document_outputs {row : String × WorkflowOutput} : row ∈ document.outputs.rows ↔
    ∃ edge, graph.Reaches .workflowOutput edge ∧
      workflowOutput graph.nodes edge = .ok (some row) := by
  obtain ⟨-, -, -, -, outputs, houtputs, hrows⟩ := canvasToWorkflow_ok hdocument
  rw [hrows]
  refine mem_boundaryEntries hnamed (fun edge hedge boundary hboundary => ?_)
    (fun edge hnone => ?_) houtputs row
  · obtain ⟨port, -, hentry⟩ := workflowOutput_eq hnamed hedge hboundary
    exact ⟨_, hentry⟩
  · rw [ComposerEdge.boundaryEnd] at hnone
    rw [workflowOutput, hnone]

omit hnamed hdocument in
theorem CanvasGraph.Reaches.mem {kind : BoundaryKind} {edge : ComposerEdge}
    (h : graph.Reaches kind edge) : edge ∈ graph.edgesOf (.boundary kind) :=
  (graph.edgesOfKind_perm _).mem_iff.mp
    (List.mem_reverse.mp (List.mem_of_find?_eq_some h.1))

end Document

end QhpcEcosystem
