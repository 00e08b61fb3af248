/-
Opening a workflow on the canvas and reading it back gives the same workflow, whatever
the layout, the positions of the nodes and the known capabilities are.
-/
import QhpcEcosystem.Canvas

namespace QhpcEcosystem

/-! ## Handles -/

theorem afterStart?_append (start rest : String) :
    afterStart? start (start ++ rest) = some rest := by
  have hstart : start.toList <+: (start ++ rest).toList := by
    rw [String.toList_append]
    exact List.prefix_append _ _
  rw [afterStart?, if_pos hstart, String.toList_append, List.drop_left, String.ofList_toList]

theorem afterStart?_some {start text rest : String} (h : afterStart? start text = some rest) :
    text = start ++ rest := by
  unfold afterStart? at h
  split at h
  · next hstart =>
      obtain ⟨tail, htail⟩ := hstart
      cases h
      rw [← htail, List.drop_left]
      apply String.toList_injective
      rw [String.toList_append, String.toList_ofList, htail]
  · cases h

@[simp] theorem portFromHandle_append (start port : String) :
    portFromHandle (some (start ++ port)) start = .ok port := by
  simp [portFromHandle, afterStart?_append]

/-! ## Sorting -/

theorem sortedBySequence_perm {α : Type} (sequence : α → Nat) (values : List α) :
    (sortedBySequence sequence values).Perm values :=
  List.perm_insertionSort _ values

@[simp] theorem mem_sortedBySequence {α : Type} {sequence : α → Nat} {values : List α}
    {value : α} : value ∈ sortedBySequence sequence values ↔ value ∈ values :=
  (sortedBySequence_perm sequence values).mem_iff

/-- Items that are numbered by their positions are sorted. -/
theorem sortedBySequence_zipIdx {α β : Type} (sequence : β → Nat) (values : List α)
    (f : α × Nat → β) (hf : ∀ item, sequence (f item) = item.2) :
    sortedBySequence sequence (values.zipIdx.map f) = values.zipIdx.map f := by
  refine List.Pairwise.insertionSort_eq (List.pairwise_map.mpr ?_)
  have hindices : (values.zipIdx.map Prod.snd).Pairwise (· ≤ ·) := by
    rw [List.zipIdx_map_snd]
    exact List.pairwise_le_range' 
  refine (List.pairwise_map.mp hindices).imp fun hle => ?_
  rwa [hf, hf]

/-- Computations over built values that all succeed. -/
theorem mapM_map_ok {ε α β γ : Type} {build : α → β} {f : β → Except ε γ} {g : α → γ}
    {values : List α} (h : ∀ value ∈ values, f (build value) = .ok (g value)) :
    (values.map build).mapM f = .ok (values.map g) := by
  induction values with
  | nil => rfl
  | cons value rest ih =>
      rw [List.map_cons, List.mapM_cons, h value List.mem_cons_self,
        ih fun other hother => h other (List.mem_cons_of_mem _ hother)]
      rfl

/-! ## Positions -/

/-- Move every node. -/
def ComposerNode.moveTo (move : ComposerNode → Position) (node : ComposerNode) : ComposerNode :=
  { node with position := move node }

section Positions

variable (move : ComposerNode → Position)

theorem workflowNodes_moveTo (nodes : List ComposerNode) :
    workflowNodes (nodes.map (ComposerNode.moveTo move)) = workflowNodes nodes := by
  simp only [workflowNodes, operationItems, List.filterMap_map]
  rfl

theorem boundaryNode?_moveTo (kind : BoundaryKind) (nodes : List ComposerNode) (id : String) :
    boundaryNode? kind (nodes.map (ComposerNode.moveTo move)) id =
      boundaryNode? kind nodes id := by
  simp only [boundaryNode?, List.find?_map]
  have hsame : (fun node : ComposerNode => decide (node.id = id ∧
      node.data.kind = .boundary kind)) ∘ ComposerNode.moveTo move =
      fun node => decide (node.id = id ∧ node.data.kind = .boundary kind) := rfl
  rw [hsame]
  cases nodes.find? fun node => decide (node.id = id ∧ node.data.kind = .boundary kind) with
  | none => rfl
  | some node => rfl

/-- The positions of the nodes do not enter the document. -/
theorem canvasToWorkflow_moveTo (metadata : WorkflowMetadata) (nodes : List ComposerNode)
    (edges : List ComposerEdge) :
    canvasToWorkflow metadata (nodes.map (ComposerNode.moveTo move)) edges =
      canvasToWorkflow metadata nodes edges := by
  have hinput : workflowInput (nodes.map (ComposerNode.moveTo move)) = workflowInput nodes := by
    funext edge
    simp only [workflowInput, boundaryNode?_moveTo]
  have houtput : workflowOutput (nodes.map (ComposerNode.moveTo move)) =
      workflowOutput nodes := by
    funext edge
    simp only [workflowOutput, boundaryNode?_moveTo]
  simp only [canvasToWorkflow, workflowNodes_moveTo, hinput, houtput]

end Positions

/-! ## The canvas of a workflow -/

section OpenedCanvas

variable (workflow : WorkflowDocument) (layout : Option DraftLayout)
  (capabilities : List Capability)

theorem workflowNodes_workflowToCanvas :
    workflowNodes (workflowToCanvas workflow layout capabilities).nodes = workflow.nodes := by
  have hboundary : ∀ (f : (String × WorkflowInput) × Nat → ComposerNode)
      (g : (String × WorkflowOutput) × Nat → ComposerNode),
      (∀ item, (f item).operation? = none) → (∀ item, (g item).operation? = none) →
      workflowNodes (operationNodes workflow layout capabilities ++
        workflow.inputs.rows.zipIdx.map f ++ workflow.outputs.rows.zipIdx.map g) =
      workflowNodes (operationNodes workflow layout capabilities) := by
    intro f g hf hg
    simp only [workflowNodes, operationItems, List.filterMap_append, List.filterMap_map]
    have hnone : ∀ {α : Type} (items : List (α × Nat)) (h : α × Nat → ComposerNode),
        (∀ item, (h item).operation? = none) → items.filterMap
          ((fun node : ComposerNode => node.operation?.map fun data => (node.id, data)) ∘ h) =
            [] := by
      intro α items h hh
      rw [List.filterMap_eq_nil_iff]
      intro item _
      simp [hh item]
    rw [hnone _ f hf, hnone _ g hg, List.append_nil, List.append_nil]
  rw [workflowToCanvas, hboundary _ _ (fun _ => rfl) fun _ => rfl]
  let data : Node × Nat → String × OperationNodeData := fun item => (item.1.id,
    operationNodeData item.1 item.2 workflow (capabilityOperationIndex capabilities))
  have hitems : operationItems (operationNodes workflow layout capabilities) =
      workflow.nodes.zipIdx.map data := by
    rw [operationItems, operationNodes, List.filterMap_map, ← List.filterMap_eq_map]
    rfl
  have hsorted := sortedBySequence_zipIdx (fun item : String × OperationNodeData =>
    item.2.sequence) workflow.nodes data fun _ => rfl
  rw [workflowNodes, hitems, hsorted, List.map_map]
  exact List.zipIdx_map_fst 0 workflow.nodes

/-- The edges of one kind. -/
theorem edgesOfKind_workflowToCanvas :
    edgesOfKind .internal (workflowToCanvas workflow layout capabilities).edges =
        workflow.edges.zipIdx.map (fun item => internalEdge item.1 item.2) ∧
      edgesOfKind (.boundary .workflowInput)
          (workflowToCanvas workflow layout capabilities).edges =
        workflow.inputs.rows.zipIdx.map (fun item => inputEdge item.1.1 item.1.2 item.2) ∧
      edgesOfKind (.boundary .workflowOutput)
          (workflowToCanvas workflow layout capabilities).edges =
        workflow.outputs.rows.zipIdx.map (fun item => outputEdge item.1.1 item.1.2 item.2) := by
  have hfilter : ∀ {α : Type} (kind kind' : EdgeKind) (items : List (α × Nat))
      (f : α × Nat → ComposerEdge), (∀ item, (f item).data.kind = kind') →
      (items.map f).filter (fun edge => edge.data.kind = kind) =
        if kind' = kind then items.map f else [] := by
    intro α kind kind' items f hf
    split
    · next heq =>
        rw [List.filter_eq_self]
        intro edge hedge
        obtain ⟨item, -, rfl⟩ := List.mem_map.mp hedge
        simp [hf, heq]
    · next hne =>
        rw [List.filter_eq_nil_iff]
        intro edge hedge
        obtain ⟨item, -, rfl⟩ := List.mem_map.mp hedge
        simp [hf, hne]
  have hinternal : ∀ item : Edge × Nat,
      (internalEdge item.1 item.2).data.kind = .internal := fun _ => rfl
  have hinput : ∀ item : (String × WorkflowInput) × Nat,
      (inputEdge item.1.1 item.1.2 item.2).data.kind = .boundary .workflowInput := fun _ => rfl
  have houtput : ∀ item : (String × WorkflowOutput) × Nat,
      (outputEdge item.1.1 item.1.2 item.2).data.kind = .boundary .workflowOutput := fun _ => rfl
  refine ⟨?_, ?_, ?_⟩
  all_goals
    rw [edgesOfKind, workflowToCanvas, List.filter_append, List.filter_append,
      hfilter _ _ _ _ hinternal, hfilter _ _ _ _ hinput, hfilter _ _ _ _ houtput]
    simp only [reduceCtorEq, EdgeKind.boundary.injEq, ↓reduceIte, List.append_nil, List.nil_append]
    exact sortedBySequence_zipIdx _ _ _ fun _ => rfl

theorem append_left_injective (start : String) : Function.Injective (start ++ ·) := by
  intro x y hxy
  have hlists := congrArg String.toList hxy
  simp only [String.toList_append] at hlists
  exact String.toList_injective (List.append_cancel_left hlists)

/-- Numbered items with distinct names are determined by their names. -/
theorem zipIdx_eq_of_name {α : Type} (object : Dict String α) {item other : (String × α) × Nat}
    (hitem : item ∈ object.rows.zipIdx) (hother : other ∈ object.rows.zipIdx)
    (hname : item.1.1 = other.1.1) : item = other := by
  have hnodup : (object.rows.zipIdx.map fun item => item.1.1).Nodup := by
    have hnames := object.nodup
    rw [← List.zipIdx_map_fst 0 object.rows, List.map_map] at hnames
    exact hnames
  exact List.inj_on_of_nodup_map hnodup hitem hother hname

/-- The data of a boundary that stands on the canvas under its id. -/
theorem boundaryNode?_eq_some {kind : BoundaryKind} {nodes : List ComposerNode}
    {node : ComposerNode} {boundary : BoundaryNodeData} (hnode : node ∈ nodes)
    (hdata : node.data = .boundary boundary) (hkind : boundary.kind = kind)
    (hunique : ∀ other ∈ nodes, other.id = node.id → other.data.kind = .boundary kind →
      other = node) : boundaryNode? kind nodes node.id = some boundary := by
  have hnodeKind : node.data.kind = .boundary kind := by
    rw [hdata, NodeData.kind, hkind]
  rw [boundaryNode?, find?_eq_some_of_unique hnode (by simp [hnodeKind]) fun other hother hp => ?_]
  · simp [ComposerNode.boundary?, hdata, hkind]
  · obtain ⟨hid, hotherKind⟩ := of_decide_eq_true hp
    exact hunique other hother hid hotherKind

theorem kind_of_mem_operationNodes {workflow : WorkflowDocument} {layout : Option DraftLayout}
    {capabilities : List Capability} {node : ComposerNode}
    (hnode : node ∈ operationNodes workflow layout capabilities) :
    node.data.kind = .operation := by
  obtain ⟨item, -, rfl⟩ := List.mem_map.mp hnode
  rfl

theorem boundaryNode?_input {item : (String × WorkflowInput) × Nat}
    (hitem : item ∈ workflow.inputs.rows.zipIdx) :
    boundaryNode? .workflowInput (workflowToCanvas workflow layout capabilities).nodes
        ("input:" ++ item.1.1) = some {
      kind := .workflowInput
      name := item.1.1
      artifactType := item.1.2.artifactType
      required := item.1.2.required
      requiredWasSet := item.1.2.required.isSome
      sequence := item.2 } := by
  refine boundaryNode?_eq_some (List.mem_append_left _ (List.mem_append_right _
    (List.mem_map_of_mem hitem))) rfl rfl fun other hother hid hkind => ?_
  simp only [List.mem_append, List.mem_map] at hother
  rcases hother with (hoperation | ⟨found, hfound, rfl⟩) | ⟨found, -, rfl⟩
  · rw [kind_of_mem_operationNodes hoperation] at hkind
    cases hkind
  · rw [zipIdx_eq_of_name workflow.inputs hfound hitem (append_left_injective "input:" hid)]
  · cases hkind

theorem boundaryNode?_output {item : (String × WorkflowOutput) × Nat}
    (hitem : item ∈ workflow.outputs.rows.zipIdx) :
    boundaryNode? .workflowOutput (workflowToCanvas workflow layout capabilities).nodes
        ("output:" ++ item.1.1) = some {
      kind := .workflowOutput
      name := item.1.1
      artifactType := item.1.2.artifactType
      sequence := item.2 } := by
  refine boundaryNode?_eq_some (List.mem_append_right _ (List.mem_map_of_mem hitem)) rfl rfl
    fun other hother hid hkind => ?_
  simp only [List.mem_append, List.mem_map] at hother
  rcases hother with (hoperation | ⟨found, -, rfl⟩) | ⟨found, hfound, rfl⟩
  · rw [kind_of_mem_operationNodes hoperation] at hkind
    cases hkind
  · cases hkind
  · rw [zipIdx_eq_of_name workflow.outputs hfound hitem (append_left_injective "output:" hid)]

theorem workflowEdge_internalEdge (definition : Edge) (index : Nat) :
    workflowEdge (internalEdge definition index) = .ok definition := by
  simp [workflowEdge, internalEdge, bind, Except.bind, pure, Except.pure]

theorem workflowInput_inputEdge {item : (String × WorkflowInput) × Nat}
    (hitem : item ∈ workflow.inputs.rows.zipIdx) :
    workflowInput (workflowToCanvas workflow layout capabilities).nodes
      (inputEdge item.1.1 item.1.2 item.2) = .ok (some item.1) := by
  have hboundary := boundaryNode?_input workflow layout capabilities hitem
  rw [workflowInput, inputEdge, hboundary]
  have hrequired : (if item.1.2.required.isSome then item.1.2.required else none) =
      item.1.2.required := by
    cases item.1.2.required <;> rfl
  simp only [portFromHandle_append, bind, Except.bind, pure, Except.pure, hrequired]

theorem workflowOutput_outputEdge {item : (String × WorkflowOutput) × Nat}
    (hitem : item ∈ workflow.outputs.rows.zipIdx) :
    workflowOutput (workflowToCanvas workflow layout capabilities).nodes
      (outputEdge item.1.1 item.1.2 item.2) = .ok (some item.1) := by
  have hboundary := boundaryNode?_output workflow layout capabilities hitem
  rw [workflowOutput, outputEdge, hboundary]
  simp [bind, Except.bind, pure, Except.pure]

end OpenedCanvas

/-- Entries that are assigned in their order make the object that they came from. -/
theorem assignAll_rows {α : Type} (object : Dict String α)
    (hordinary : ∀ item ∈ object.rows, OrdinaryName item.1) :
    assignAll Table.empty object.rows = object := by
  have hrows := rows_assignAll Table.empty object.rows object.nodup hordinary
  cases object
  cases hassigned : assignAll Table.empty _
  rw [hassigned] at hrows
  cases hrows
  rfl

/-- Opening a document and reading it back changes nothing, wherever the nodes are. -/
theorem canvas_round_trip (workflow : WorkflowDocument) (layout : Option DraftLayout)
    (capabilities : List Capability) (move : ComposerNode → Position)
    (hinputs : ∀ item ∈ workflow.inputs.rows, OrdinaryName item.1)
    (houtputs : ∀ item ∈ workflow.outputs.rows, OrdinaryName item.1) :
    canvasToWorkflow workflow.metadata (workflowToCanvas workflow layout capabilities).nodes
        (workflowToCanvas workflow layout capabilities).edges = .ok workflow ∧
      canvasToWorkflow workflow.metadata
        ((workflowToCanvas workflow layout capabilities).nodes.map (ComposerNode.moveTo move))
        (workflowToCanvas workflow layout capabilities).edges = .ok workflow := by
  rw [canvasToWorkflow_moveTo, and_self]
  obtain ⟨hinternal, hinput, houtput⟩ :=
    edgesOfKind_workflowToCanvas workflow layout capabilities
  have hedges : (workflow.edges.zipIdx.map fun item => internalEdge item.1 item.2).mapM
      workflowEdge = .ok workflow.edges := by
    rw [mapM_map_ok (g := Prod.fst) fun item _ => workflowEdge_internalEdge item.1 item.2,
      List.zipIdx_map_fst]
  have hin : (workflow.inputs.rows.zipIdx.map fun item => inputEdge item.1.1 item.1.2 item.2).mapM
      (workflowInput (workflowToCanvas workflow layout capabilities).nodes) =
        .ok (workflow.inputs.rows.map some) := by
    rw [mapM_map_ok (g := some ∘ Prod.fst) fun item hitem =>
      workflowInput_inputEdge workflow layout capabilities hitem, ← List.map_map,
      List.zipIdx_map_fst]
  have hout : (workflow.outputs.rows.zipIdx.map fun item =>
      outputEdge item.1.1 item.1.2 item.2).mapM
      (workflowOutput (workflowToCanvas workflow layout capabilities).nodes) =
        .ok (workflow.outputs.rows.map some) := by
    rw [mapM_map_ok (g := some ∘ Prod.fst) fun item hitem =>
      workflowOutput_outputEdge workflow layout capabilities hitem, ← List.map_map,
      List.zipIdx_map_fst]
  have hsome : ∀ {α : Type} (items : List α), (items.map some).filterMap id = items := by
    intro α items
    rw [List.filterMap_map]
    exact List.filterMap_some
  rw [canvasToWorkflow, hinternal, hinput, houtput, hedges, hin, hout]
  simp only [bind, Except.bind, pure, Except.pure, hsome, assignAll_rows _ hinputs,
    assignAll_rows _ houtputs, workflowNodes_workflowToCanvas]

/-! ## A workflow with an optional input -/

def optionalInputDocument : WorkflowDocument where
  metadata := ⟨"energy", "Energy", "1.0.0", "user", "internal", none⟩
  nodes := [{ id := "prepare", operation := ⟨"qchem", "1.0.0", "prepare"⟩ },
    { id := "solve", operation := ⟨"qchem", "1.0.0", "solve"⟩,
      executionTarget := some "cluster" }]
  edges := [⟨⟨"prepare", "state", "qhpc.state@1"⟩, ⟨"solve", "state", "qhpc.state@1"⟩⟩]
  inputs := ⟨[("molecule", ⟨"qhpc.molecule@1", some false, ⟨"prepare", "molecule"⟩⟩)], by decide⟩
  outputs := ⟨[("energy", ⟨"qhpc.energy@1", ⟨"solve", "energy"⟩⟩)], by decide⟩

theorem canvas_round_trip_optionalInput :
    canvasToWorkflow optionalInputDocument.metadata (workflowToCanvas optionalInputDocument none []).nodes
        (workflowToCanvas optionalInputDocument none []).edges = .ok optionalInputDocument ∧
      canvasToWorkflow optionalInputDocument.metadata
        ((workflowToCanvas optionalInputDocument none []).nodes.map
          (ComposerNode.moveTo fun _ => ⟨999, 777⟩))
        (workflowToCanvas optionalInputDocument none []).edges = .ok optionalInputDocument :=
  canvas_round_trip optionalInputDocument none [] (fun _ => ⟨999, 777⟩) (by decide) (by decide)

end QhpcEcosystem
