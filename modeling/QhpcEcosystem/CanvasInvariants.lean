/-
What every graph on the canvas keeps.  An edit adds a node, a connection or a boundary
with its connection, removes what stands under an id, or relabels nodes in place.
-/
import QhpcEcosystem.CanvasEditing
import QhpcEcosystem.CanvasRoundTrip

namespace QhpcEcosystem

/-! ## What an edit can do -/

/-- The ends of an edge meet nodes that may be connected. -/
structure CanvasGraph.Connects (graph : CanvasGraph) (edge : ComposerEdge)
    (source target : ComposerNode) : Prop where
  sourceNode : nodeWithId? graph.nodes edge.source = some source
  targetNode : nodeWithId? graph.nodes edge.target = some target
  direction : directionValid source.data.kind target.data.kind = true
  types : artifactTypeForSource source edge.sourceHandle =
    artifactTypeForTarget target edge.targetHandle
  sourceType : artifactTypeForSource source edge.sourceHandle = some edge.data.artifactType
  named : edge.data.artifactType ≠ ""
  kind : edge.data.kind = (connectionKind source.data target.data).1
  drawn : edge.data.originalEdge = none

/-- An edit that adds or removes. -/
inductive CanvasGraph.Drawn (capabilities : List Capability) (graph : CanvasGraph) :
    CanvasGraph → Prop
  | added {capability : Capability} {operation : OperationDefinition} {id : String}
      {position : Position} {sequence : Nat} : capability ∈ capabilities →
      operation ∈ capability.operations → (∀ node ∈ graph.nodes, node.id ≠ id) →
      Drawn capabilities graph { graph with nodes := graph.nodes ++
        [createOperationCanvasNode capability operation id position sequence] }
  | connected {edge : ComposerEdge} {source target : ComposerNode} {uuid : String} :
      graph.Connects edge source target → edge.id = "edge:" ++ uuid →
      (∀ other ∈ graph.edges, other.id ≠ edge.id) →
      Drawn capabilities graph { graph with edges := graph.edges ++ [edge] }
  | exposed {node : ComposerNode} {data : OperationNodeData} {port : String}
      {definition : PortDefinition} {kind : BoundaryKind} {sequence : Nat} :
      node ∈ graph.nodes → node.data = .operation data →
      (match kind with
        | .workflowInput => data.inputs
        | .workflowOutput => data.outputs).row? port = some (port, definition) →
      Drawn capabilities graph ⟨graph.nodes ++
          [(boundaryForPort node.id node.position port definition kind graph.nodes sequence).1],
        graph.edges ++
          [(boundaryForPort node.id node.position port definition kind graph.nodes sequence).2]⟩
  | removed {keep : String → Bool} {keepEdge : ComposerEdge → Bool} :
      (∀ edge ∈ graph.edges, keepEdge edge = true →
        keep edge.source = true ∧ keep edge.target = true) →
      Drawn capabilities graph ⟨graph.nodes.filter fun node => keep node.id,
        graph.edges.filter keepEdge⟩

/-- A node under a new id with the ports that it had. -/
structure ComposerNode.Relabels (name : String → String) (node node' : ComposerNode) : Prop where
  operation : ∀ data, node.data = .operation data → node'.id = name node.id ∧
    ∃ data', node'.data = .operation data' ∧ data'.operation = data.operation ∧
      data'.inputs = data.inputs ∧ data'.outputs = data.outputs
  boundary : ∀ data, node.data = .boundary data → node'.id = node.id ∧ node'.data = node.data

/-- An edit in place. -/
structure CanvasGraph.Relabelled (graph graph' : CanvasGraph) (name : String → String)
    (relabel : ComposerNode → ComposerNode) : Prop where
  nodes : graph'.nodes = graph.nodes.map relabel
  edges : graph'.edges = graph.edges.map fun edge =>
    { edge with source := name edge.source, target := name edge.target }
  relabels : ∀ node ∈ graph.nodes, node.Relabels name (relabel node)
  /-- A new id is the id of no node. -/
  fresh : ∀ id, name id = id ∨ ∀ node ∈ graph.nodes, node.id ≠ name id

section EditCases

variable {capabilities : List Capability} {graph graph' : CanvasGraph}

theorem directionValid_of_validateConnection {connection : Connection}
    {nodes : List ComposerNode} {edges : List ComposerEdge}
    (h : validateConnection connection nodes edges = none) :
    ∃ source target, nodeWithId? nodes connection.source = some source ∧
      nodeWithId? nodes connection.target = some target ∧ source.id ≠ target.id ∧
      directionValid source.data.kind target.data.kind = true ∧
      (∃ artifactType, artifactType ≠ "" ∧
        artifactTypeForSource source connection.sourceHandle = some artifactType ∧
        artifactTypeForTarget target connection.targetHandle = some artifactType) ∧
      (∀ edge ∈ edges, ¬ (edge.target = connection.target ∧
        edge.targetHandle = connection.targetHandle)) ∧
      (source.data.kind = .operation → target.data.kind = .operation →
        operationPathExists target.id source.id edges = false) := by
  unfold validateConnection at h
  split at h
  · next source target hsource htarget =>
      refine ⟨source, target, hsource, htarget, ?_⟩
      split at h
      · cases h
      · next hself =>
          split at h
          · cases h
          · next hdirection =>
              simp only at h
              split at h
              · cases h
              · next hnamed =>
                  split at h
                  · cases h
                  · next htypes =>
                      split at h
                      · cases h
                      · next hoccupied =>
                          split at h
                          · cases h
                          · next hcycle =>
                              obtain ⟨hsourceType, htargetType⟩ := not_or.mp hnamed
                              refine ⟨hself, by simpa using hdirection, ?_, ?_, ?_⟩
                              · have hsome : ∀ {type : Option String}, type.getD "" ≠ "" →
                                    type = some (type.getD "") := by
                                  intro type htype
                                  cases type with
                                  | none => exact absurd rfl htype
                                  | some _ => rfl
                                refine ⟨_, hsourceType, hsome hsourceType, ?_⟩
                                rw [not_not.mp htypes]
                                exact hsome htargetType
                              · intro edge hedge hsame
                                exact hoccupied (List.any_eq_true.mpr ⟨edge, hedge,
                                  decide_eq_true hsame⟩)
                              · intro hsourceKind htargetKind
                                simpa [hsourceKind, htargetKind] using hcycle
  · cases h

theorem id_of_nodeWithId? {nodes : List ComposerNode} {id : String} {node : ComposerNode}
    (h : nodeWithId? nodes id = some node) : node.id = id := by
  have := List.find?_some h
  simpa using this

theorem mem_of_nodeWithId? {nodes : List ComposerNode} {id : String} {node : ComposerNode}
    (h : nodeWithId? nodes id = some node) : node ∈ nodes :=
  List.mem_of_find?_eq_some h

theorem connect_drawn {connection : Connection} {uuid : String}
    (hfresh : ∀ edge ∈ graph.edges, edge.id ≠ "edge:" ++ uuid)
    (h : graph.connect connection uuid = some graph') :
    graph.Drawn capabilities graph' := by
  unfold CanvasGraph.connect at h
  split at h
  · cases h
  · next hvalid =>
      obtain ⟨source, target, hsource, htarget, -, hdirection,
        ⟨artifactType, hnamed, hsourceType, htargetType⟩, -, -⟩ :=
          directionValid_of_validateConnection hvalid
      split at h
      · cases h
      · next edge hedge =>
          cases h
          have hsourceId := id_of_nodeWithId? hsource
          have htargetId := id_of_nodeWithId? htarget
          simp only [connectionEdge, hsource, htarget, hsourceType, Option.getD_some, hnamed,
            ↓reduceIte, Except.ok.injEq] at hedge
          subst hedge
          refine .connected (⟨?_, ?_, hdirection, ?_, hsourceType, hnamed, rfl, rfl⟩ :
            graph.Connects _ source target) rfl hfresh
          · rw [← hsource, hsourceId]
          · rw [← htarget, htargetId]
          · exact hsourceType.trans htargetType.symm

theorem exposePort_drawn {nodeId port : String} {kind : BoundaryKind}
    (h : graph.exposePort nodeId port kind = some graph') :
    graph.Drawn capabilities graph' := by
  unfold CanvasGraph.exposePort at h
  split at h
  · cases h
  · next node hnode =>
      split at h
      · cases h
      · next data hdata =>
          have hoperation : node.data = .operation data := by
            unfold ComposerNode.operation? at hdata
            split at hdata <;> cases hdata
            assumption
          split at h
          · cases h
          · next boundary edge hcreated =>
              cases h
              unfold createBoundaryForPort at hcreated
              simp only at hcreated
              split at hcreated
              · cases hcreated
              · next name definition hport =>
                  obtain rfl : name = port := Table.key_of_row? hport
                  have hpair := Except.ok.inj hcreated
                  have hdrawn := @CanvasGraph.Drawn.exposed capabilities graph node data name
                    definition kind graph.edges.length (mem_of_nodeWithId? hnode) hoperation hport
                  rwa [hpair] at hdrawn

/-- An edit of nodes that keeps their ids. -/
theorem relabelled_of_same_ids {relabel : ComposerNode → ComposerNode}
    (h : ∀ node ∈ graph.nodes, node.Relabels id (relabel node)) :
    graph.Relabelled { graph with nodes := graph.nodes.map relabel } id relabel where
  nodes := rfl
  edges := (List.map_id graph.edges).symm
  relabels := h
  fresh _ := .inl rfl

theorem renameNode_relabelled {oldId nextId : String}
    (h : graph.renameNode oldId nextId = some graph') :
    graph.Relabelled graph' (CanvasGraph.renameEnd oldId nextId)
      (CanvasGraph.renamed oldId nextId) := by
  unfold CanvasGraph.renameNode at h
  split at h
  · cases h
  · next hguard =>
      cases h
      obtain ⟨hne, hguard⟩ := not_or.mp hguard
      obtain ⟨-, hfree⟩ := not_or.mp hguard
      refine ⟨rfl, rfl, fun node _ => ⟨fun data hdata => ?_, fun data hdata => ?_⟩, fun id => ?_⟩
      · simp only [CanvasGraph.renamed, hdata, CanvasGraph.renameEnd]
        split
        · exact ⟨rfl, _, rfl, rfl, rfl, rfl⟩
        · exact ⟨rfl, data, hdata, rfl, rfl, rfl⟩
      · simp only [CanvasGraph.renamed, hdata]
        exact ⟨trivial, trivial⟩
      · simp only [CanvasGraph.renameEnd]
        split
        · exact .inr fun node hnode hid => hfree (List.any_eq_true.mpr
            ⟨node, hnode, decide_eq_true hid⟩)
        · exact .inl rfl

/-- What an edit does: it draws, or it relabels in place. -/
theorem edit_cases {change : CanvasEdit} (h : graph.edit capabilities change = some graph') :
    graph.Drawn capabilities graph' ∨
      (change.draws = false ∧ ∃ name relabel, graph.Relabelled graph' name relabel) := by
  cases change with
  | addOperation capability operation position =>
      left
      simp only [CanvasGraph.edit, bind, Option.bind_eq_some_iff, pure, Option.some.injEq] at h
      obtain ⟨found, hfound, chosen, hchosen, rfl⟩ := h
      refine .added (List.mem_of_getElem? hfound) (List.mem_of_getElem? hchosen)
        fun node hnode hid => ?_
      have hfree := freshName_not_mem (normalizedName '-' "operation" chosen.id) "-"
        (graph.nodes.map ComposerNode.id)
      exact hfree (List.mem_map.mpr ⟨node, hnode, hid⟩)
  | connect connection uuid =>
      left
      simp only [CanvasGraph.edit] at h
      split at h
      · cases h
      · next hfresh =>
          refine connect_drawn (fun edge hedge hid => hfresh ?_) h
          exact List.any_eq_true.mpr ⟨edge, hedge, decide_eq_true hid⟩
  | exposePort nodeId port kind => exact .inl (exposePort_drawn h)
  | deleteNode nodeId =>
      left
      cases h
      have hends : ∀ edge ∈ graph.edges, decide (edge.source ≠ nodeId ∧ edge.target ≠ nodeId) =
          true → decide (edge.source ≠ nodeId) = true ∧ decide (edge.target ≠ nodeId) = true := by
        intro edge _ hkept
        simpa using hkept
      exact @CanvasGraph.Drawn.removed capabilities graph (fun id => decide (id ≠ nodeId)) _ hends
  | deleteEdge edgeId =>
      left
      cases h
      have hremoved := @CanvasGraph.Drawn.removed capabilities graph (fun _ => true)
        (fun edge => decide (edge.id ≠ edgeId)) fun _ _ _ => ⟨rfl, rfl⟩
      rwa [List.filter_true] at hremoved
  | renameNode oldId nextId => exact .inr ⟨rfl, _, _, renameNode_relabelled h⟩
  | setParameter nodeId name value =>
      right
      cases h
      refine ⟨rfl, _, _, relabelled_of_same_ids fun node _ => ⟨fun data hdata => ?_,
        fun data hdata => ?_⟩⟩
      · simp only [CanvasGraph.parameterSet, hdata]
        split
        · exact ⟨rfl, _, rfl, rfl, rfl, rfl⟩
        · exact ⟨rfl, data, hdata, rfl, rfl, rfl⟩
      · simp only [CanvasGraph.parameterSet, hdata]
        exact ⟨trivial, trivial⟩
  | moveNodes move =>
      right
      cases h
      exact ⟨rfl, _, _, relabelled_of_same_ids fun node _ =>
        ⟨fun data hdata => ⟨rfl, data, hdata, rfl, rfl, rfl⟩, fun _ _ => ⟨rfl, rfl⟩⟩⟩
  | dragStart | dragStop | undo | redo => cases h

end EditCases

/-! ## Runs -/

/-- A property of the graph and of every graph that undo and redo can bring back. -/
structure Editor.All (P : CanvasGraph → Prop) (editor : Editor) : Prop where
  graph : P editor.graph
  history : ∀ graph ∈ editor.history, P graph
  future : ∀ graph ∈ editor.future, P graph
  dragStart : ∀ graph ∈ editor.dragStart, P graph

namespace Editor.All

variable {P : CanvasGraph → Prop} {capabilities : List Capability} {editor editor' : Editor}
  {graph : CanvasGraph}

theorem replaceGraph (h : editor.All P) (hgraph : P graph) :
    (editor.replaceGraph graph).All P := by
  refine ⟨hgraph, fun old hold => ?_, nofun, h.dragStart⟩
  simp only [Editor.replaceGraph] at hold
  have hmem : old ∈ editor.graph :: editor.history := by
    split at hold
    · exact (List.dropLast_sublist _).subset hold
    · exact hold
  rcases List.mem_cons.mp hmem with rfl | hmem
  · exact h.graph
  · exact h.history old hmem

theorem updateGraph (h : editor.All P) (hgraph : P graph) : (editor.updateGraph graph).All P := by
  refine ⟨hgraph, fun old hold => ?_, nofun, h.dragStart⟩
  rcases List.mem_cons.mp hold with rfl | hold
  · exact h.graph
  · exact h.history old hold

/-- What the edits of graphs keep, the editor keeps. -/
theorem edit {change : CanvasEdit} (h : editor.All P)
    (hedit : ∀ graph graph', P graph → graph.edit capabilities change = some graph' → P graph')
    (hstep : editor.edit capabilities change = some editor') : editor'.All P := by
  have hgraph : ∀ graph', editor.graph.edit capabilities change = some graph' → P graph' :=
    fun graph' => hedit editor.graph graph' h.graph
  cases change with
  | undo =>
      simp only [Editor.edit] at hstep
      split at hstep
      · cases hstep
      · next prior rest hhistory =>
          cases hstep
          refine ⟨h.history prior (hhistory ▸ List.mem_cons_self), fun old hold => h.history old
            (hhistory ▸ List.mem_cons_of_mem _ hold), fun old hold => ?_, h.dragStart⟩
          rcases List.mem_cons.mp hold with rfl | hold
          · exact h.graph
          · exact h.future old hold
  | redo =>
      simp only [Editor.edit] at hstep
      split at hstep
      · cases hstep
      · next following rest hfuture =>
          cases hstep
          refine ⟨h.future following (hfuture ▸ List.mem_cons_self), fun old hold => ?_,
            fun old hold => h.future old (hfuture ▸ List.mem_cons_of_mem _ hold), h.dragStart⟩
          rcases List.mem_cons.mp hold with rfl | hold
          · exact h.graph
          · exact h.history old hold
  | dragStart =>
      cases hstep
      refine ⟨h.graph, h.history, h.future, fun old hold => ?_⟩
      cases hold
      exact h.graph
  | dragStop =>
      obtain ⟨start, hstart, rfl⟩ := Option.map_eq_some_iff.mp hstep
      refine ⟨h.graph, fun old hold => ?_, nofun, nofun⟩
      rcases List.mem_cons.mp hold with rfl | hold
      · exact h.dragStart old hstart
      · exact h.history old hold
  | moveNodes move =>
      simp only [Editor.edit, Option.map_eq_some_iff] at hstep
      obtain ⟨graph, hmoved, rfl⟩ := hstep
      exact ⟨hgraph graph hmoved, h.history, h.future, h.dragStart⟩
  | renameNode _ _ | setParameter _ _ _ =>
      simp only [Editor.edit, Option.map_eq_some_iff] at hstep
      obtain ⟨graph, hchanged, rfl⟩ := hstep
      exact h.updateGraph (hgraph graph hchanged)
  | addOperation _ _ _ | connect _ _ | exposePort _ _ _ | deleteNode _ | deleteEdge _ =>
      simp only [Editor.edit, Option.map_eq_some_iff] at hstep
      obtain ⟨graph, hchanged, rfl⟩ := hstep
      exact h.replaceGraph (hgraph graph hchanged)

open TransitionSystem in
/-- What every opened graph has and every admitted edit keeps, every graph has. -/
theorem of_reachable {admitted : CanvasEdit → Prop}
    (hopened : ∀ workflow layout, P (Editor.opened workflow layout capabilities).graph)
    (hedit : ∀ graph change graph', P graph → admitted change →
      graph.edit capabilities change = some graph' → P graph')
    (hreach : (composerCanvas capabilities).Reachable (fun _ change => admitted change) editor) :
    editor.All P := by
  refine hreach.invariant (Editor.All P) ?_ ?_
  · rintro editor ⟨workflow, layout, rfl⟩
    exact ⟨hopened workflow layout, nofun, nofun, nofun⟩
  · intro editor change editor' _ hall hadmitted hstep
    exact hall.edit (fun graph graph' hgraph => hedit graph change graph' hgraph hadmitted) hstep

end Editor.All

/-! ## Names and handles -/

/-- The handles that the translation to a document reads name their ports. -/
def ComposerEdge.HandlesNamed (edge : ComposerEdge) : Prop :=
  (edge.data.kind ≠ .boundary .workflowInput → ∃ port, edge.sourceHandle = some ("out:" ++ port)) ∧
  (edge.data.kind ≠ .boundary .workflowOutput → ∃ port, edge.targetHandle = some ("in:" ++ port))

/-- Boundaries stand under the ids of their names, once each, and the handles name ports. -/
structure CanvasGraph.Named (graph : CanvasGraph) : Prop where
  boundaryIds : ∀ node ∈ graph.nodes, ∀ data, node.data = .boundary data →
    node.id = data.kind.nodeId data.name
  boundaryNodup : ∀ kind, (boundaryNames kind graph.nodes).Nodup
  handles : ∀ edge ∈ graph.edges, edge.HandlesNamed

theorem boundary?_operation {node : ComposerNode} {data : OperationNodeData}
    (h : node.data = .operation data) (kind : BoundaryKind) : node.boundary? kind = none := by
  simp [ComposerNode.boundary?, h]

theorem boundary?_boundary {node : ComposerNode} {data : BoundaryNodeData}
    (h : node.data = .boundary data) (kind : BoundaryKind) :
    node.boundary? kind = if data.kind = kind then some data else none := by
  simp [ComposerNode.boundary?, h]

theorem boundaryNames_append (kind : BoundaryKind) (nodes nodes' : List ComposerNode) :
    boundaryNames kind (nodes ++ nodes') = boundaryNames kind nodes ++ boundaryNames kind nodes' :=
  List.filterMap_append

/-- Relabelling keeps the boundaries. -/
theorem ComposerNode.Relabels.boundary?_eq {name : String → String} {node node' : ComposerNode}
    (h : node.Relabels name node') (kind : BoundaryKind) :
    node'.boundary? kind = node.boundary? kind := by
  cases hdata : node.data with
  | operation data =>
      obtain ⟨-, data', hdata', -⟩ := h.operation data hdata
      rw [boundary?_operation hdata, boundary?_operation hdata']
  | boundary data =>
      rw [ComposerNode.boundary?, (h.boundary data hdata).2, ComposerNode.boundary?]

section Handles

variable {node : ComposerNode} {data : OperationNodeData} {handle : Option String}
  {artifactType : String}

/-- A type at an operation comes from the port that the handle names. -/
theorem artifactTypeForSource_operation (hdata : node.data = .operation data)
    (h : artifactTypeForSource node handle = some artifactType) :
    ∃ port definition, handle = some ("out:" ++ port) ∧
      data.outputs.row? port = some (port, definition) ∧
      definition.artifactType = artifactType := by
  rw [artifactTypeForSource, hdata] at h
  simp only [Option.bind_eq_some_iff, Option.map_eq_some_iff] at h
  obtain ⟨port, ⟨text, rfl, htext⟩, ⟨name, definition⟩, hrow, rfl⟩ := h
  obtain rfl : name = port := Table.key_of_row? hrow
  exact ⟨name, definition, by rw [afterStart?_some htext], hrow, rfl⟩

theorem artifactTypeForTarget_operation (hdata : node.data = .operation data)
    (h : artifactTypeForTarget node handle = some artifactType) :
    ∃ port definition, handle = some ("in:" ++ port) ∧
      data.inputs.row? port = some (port, definition) ∧
      definition.artifactType = artifactType := by
  rw [artifactTypeForTarget, hdata] at h
  simp only [Option.bind_eq_some_iff, Option.map_eq_some_iff] at h
  obtain ⟨port, ⟨text, rfl, htext⟩, ⟨name, definition⟩, hrow, rfl⟩ := h
  obtain rfl : name = port := Table.key_of_row? hrow
  exact ⟨name, definition, by rw [afterStart?_some htext], hrow, rfl⟩

end Handles

section Directions

variable {source target : ComposerNode}

theorem operation_of_kind {node : ComposerNode} (h : node.data.kind = .operation) :
    ∃ data, node.data = .operation data := by
  cases hdata : node.data with
  | operation data => exact ⟨data, rfl⟩
  | boundary data =>
      rw [hdata] at h
      cases h

/-- The kind of a connection says what its ends are. -/
theorem kinds_of_connection (hdirection : directionValid source.data.kind target.data.kind = true) :
    (source.data.kind = .operation ∧ target.data.kind = .operation ∧
      (connectionKind source.data target.data).1 = .internal) ∨
    (source.data.kind = .boundary .workflowInput ∧ target.data.kind = .operation ∧
      (connectionKind source.data target.data).1 = .boundary .workflowInput) ∨
    (source.data.kind = .operation ∧ target.data.kind = .boundary .workflowOutput ∧
      (connectionKind source.data target.data).1 = .boundary .workflowOutput) := by
  cases hsource : source.data with
  | operation data =>
      cases htarget : target.data with
      | operation data' => exact .inl ⟨rfl, rfl, rfl⟩
      | boundary boundary =>
          obtain ⟨kind, name, artifactType, required, requiredWasSet, sequence⟩ := boundary
          cases kind with
          | workflowInput => simp [directionValid, hsource, htarget, NodeData.kind] at hdirection
          | workflowOutput => exact .inr (.inr ⟨rfl, rfl, rfl⟩)
  | boundary boundary =>
      obtain ⟨kind, name, artifactType, required, requiredWasSet, sequence⟩ := boundary
      cases kind with
      | workflowInput =>
          refine .inr (.inl ⟨rfl, ?_, rfl⟩)
          rw [show source.data.kind = .boundary .workflowInput by rw [hsource]; rfl] at hdirection
          by_contra hother
          simp [directionValid, hother] at hdirection
      | workflowOutput =>
          rw [show source.data.kind = .boundary .workflowOutput by rw [hsource]; rfl]
            at hdirection
          simp [directionValid] at hdirection

end Directions

theorem CanvasGraph.Connects.handlesNamed {graph : CanvasGraph} {edge : ComposerEdge}
    {source target : ComposerNode} (h : graph.Connects edge source target) :
    edge.HandlesNamed := by
  have hsourceHandle : source.data.kind = .operation →
      ∃ port, edge.sourceHandle = some ("out:" ++ port) := by
    intro hkind
    obtain ⟨data, hdata⟩ := operation_of_kind hkind
    obtain ⟨port, -, hhandle, -⟩ := artifactTypeForSource_operation hdata h.sourceType
    exact ⟨port, hhandle⟩
  have htargetHandle : target.data.kind = .operation →
      ∃ port, edge.targetHandle = some ("in:" ++ port) := by
    intro hkind
    obtain ⟨data, hdata⟩ := operation_of_kind hkind
    obtain ⟨port, -, hhandle, -⟩ :=
      artifactTypeForTarget_operation hdata (h.types.symm.trans h.sourceType)
    exact ⟨port, hhandle⟩
  rcases kinds_of_connection h.direction with ⟨hsource, htarget, -⟩ | ⟨-, htarget, hkind⟩ |
    ⟨hsource, -, hkind⟩
  · exact ⟨fun _ => hsourceHandle hsource, fun _ => htargetHandle htarget⟩
  · exact ⟨fun hne => absurd (h.kind.trans hkind) hne, fun _ => htargetHandle htarget⟩
  · exact ⟨fun _ => hsourceHandle hsource, fun hne => absurd (h.kind.trans hkind) hne⟩

/-- The boundary that `boundaryForPort` makes. -/
theorem boundaryForPort_node (operationId : String) (position : Position) (port : String)
    (definition : PortDefinition) (kind : BoundaryKind) (nodes : List ComposerNode)
    (sequence : Nat) :
    ∃ boundary : BoundaryNodeData, boundary.kind = kind ∧
      boundary.name = uniqueBoundaryName port kind nodes ∧
      boundary.artifactType = definition.artifactType ∧
      (boundaryForPort operationId position port definition kind nodes sequence).1.data =
        .boundary boundary ∧
      (boundaryForPort operationId position port definition kind nodes sequence).1.id =
        kind.nodeId boundary.name := by
  cases kind <;> exact ⟨_, rfl, rfl, rfl, rfl, rfl⟩

theorem boundaryForPort_handles (operationId : String) (position : Position) (port : String)
    (definition : PortDefinition) (kind : BoundaryKind) (nodes : List ComposerNode)
    (sequence : Nat) :
    (boundaryForPort operationId position port definition kind nodes
      sequence).2.HandlesNamed := by
  cases kind
  · exact ⟨fun hne => absurd rfl hne, fun _ => ⟨port, rfl⟩⟩
  · exact ⟨fun _ => ⟨port, rfl⟩, fun hne => absurd rfl hne⟩

section OpenedGraph

variable {workflow : WorkflowDocument} {layout : Option DraftLayout}
  {capabilities : List Capability}

theorem mem_nodes_workflowToCanvas {node : ComposerNode}
    (h : node ∈ (workflowToCanvas workflow layout capabilities).nodes) :
    node ∈ operationNodes workflow layout capabilities ∨
      (∃ item ∈ workflow.inputs.rows.zipIdx, ∃ position,
        node = inputBoundaryNode item.1.1 item.1.2 item.2 layout position) ∨
      ∃ item ∈ workflow.outputs.rows.zipIdx, ∃ position,
        node = outputBoundaryNode item.1.1 item.1.2 item.2 layout position := by
  simp only [workflowToCanvas, List.mem_append, List.mem_map] at h
  rcases h with (hoperation | ⟨item, hitem, rfl⟩) | ⟨item, hitem, rfl⟩
  · exact .inl hoperation
  · exact .inr (.inl ⟨item, hitem, _, rfl⟩)
  · exact .inr (.inr ⟨item, hitem, _, rfl⟩)

theorem mem_edges_workflowToCanvas {edge : ComposerEdge}
    (h : edge ∈ (workflowToCanvas workflow layout capabilities).edges) :
    (∃ item ∈ workflow.edges.zipIdx, edge = internalEdge item.1 item.2) ∨
      (∃ item ∈ workflow.inputs.rows.zipIdx, edge = inputEdge item.1.1 item.1.2 item.2) ∨
      ∃ item ∈ workflow.outputs.rows.zipIdx, edge = outputEdge item.1.1 item.1.2 item.2 := by
  simp only [workflowToCanvas, List.mem_append, List.mem_map] at h
  rcases h with (⟨item, hitem, rfl⟩ | ⟨item, hitem, rfl⟩) | ⟨item, hitem, rfl⟩
  · exact .inl ⟨item, hitem, rfl⟩
  · exact .inr (.inl ⟨item, hitem, rfl⟩)
  · exact .inr (.inr ⟨item, hitem, rfl⟩)

/-- The names of numbered items that all are boundaries. -/
theorem boundaryNames_zipIdx {α : Type} (kind : BoundaryKind) (items : List (String × α))
    (f : (String × α) × Nat → ComposerNode)
    (hf : ∀ item, ((f item).boundary? kind).map BoundaryNodeData.name = some item.1.1) :
    boundaryNames kind (items.zipIdx.map f) = items.map Prod.fst := by
  rw [boundaryNames, List.filterMap_map]
  have hnames : ((fun node => (ComposerNode.boundary? kind node).map BoundaryNodeData.name) ∘ f) =
      fun item => some item.1.1 := funext hf
  have hrows : items.map Prod.fst = (items.zipIdx.map Prod.fst).map Prod.fst := by
    rw [List.zipIdx_map_fst]
  rw [hnames, List.filterMap_eq_map', hrows, List.map_map]
  rfl

theorem boundaryNames_none (kind : BoundaryKind) (nodes : List ComposerNode)
    (h : ∀ node ∈ nodes, node.boundary? kind = none) : boundaryNames kind nodes = [] := by
  rw [boundaryNames, List.filterMap_eq_nil_iff]
  exact fun node hnode => by rw [h node hnode, Option.map_none]

theorem boundary?_operationNodes (kind : BoundaryKind) :
    ∀ node ∈ operationNodes workflow layout capabilities, node.boundary? kind = none := by
  intro node hnode
  obtain ⟨data, hdata⟩ := operation_of_kind (kind_of_mem_operationNodes hnode)
  exact boundary?_operation hdata kind

variable (workflow layout capabilities)

theorem boundaryNames_input :
    boundaryNames .workflowInput (workflowToCanvas workflow layout capabilities).nodes =
      workflow.inputs.rows.map Prod.fst := by
  simp only [workflowToCanvas]
  rw [boundaryNames_append, boundaryNames_append,
    boundaryNames_none _ _ (boundary?_operationNodes _),
    boundaryNames_zipIdx .workflowInput _ _ fun _ => rfl, boundaryNames_none, List.nil_append,
    List.append_nil]
  intro node hnode
  obtain ⟨item, -, rfl⟩ := List.mem_map.mp hnode
  rfl

theorem boundaryNames_output :
    boundaryNames .workflowOutput (workflowToCanvas workflow layout capabilities).nodes =
      workflow.outputs.rows.map Prod.fst := by
  simp only [workflowToCanvas]
  rw [boundaryNames_append, boundaryNames_append,
    boundaryNames_none _ _ (boundary?_operationNodes _),
    boundaryNames_none _ (workflow.inputs.rows.zipIdx.map _) ?_,
    boundaryNames_zipIdx .workflowOutput _ _ fun _ => rfl, List.nil_append, List.nil_append]
  intro node hnode
  obtain ⟨item, -, rfl⟩ := List.mem_map.mp hnode
  rfl

end OpenedGraph

namespace CanvasGraph.Named

variable {capabilities : List Capability} {graph graph' : CanvasGraph}

theorem drawn (h : graph.Named) (hdrawn : graph.Drawn capabilities graph') : graph'.Named := by
  cases hdrawn with
  | @added capability operation id position sequence _ _ _ =>
      refine ⟨fun node hnode data hdata => ?_, fun kind => ?_, h.handles⟩
      · rcases List.mem_append.mp hnode with hold | hnew
        · exact h.boundaryIds node hold data hdata
        · rw [List.mem_singleton.mp hnew] at hdata
          cases hdata
      · have hnew : boundaryNames kind [createOperationCanvasNode capability operation id position
            sequence] = [] := rfl
        rw [boundaryNames_append, hnew, List.append_nil]
        exact h.boundaryNodup kind
  | connected hconnects _ _ =>
      refine ⟨h.boundaryIds, h.boundaryNodup, fun edge hedge => ?_⟩
      rcases List.mem_append.mp hedge with hold | hnew
      · exact h.handles edge hold
      · rw [List.mem_singleton.mp hnew]
        exact hconnects.handlesNamed
  | @exposed node data port definition kind sequence _ _ _ =>
      obtain ⟨boundary, hkind, hname, -, hdata, hid⟩ := boundaryForPort_node node.id node.position
        port definition kind graph.nodes sequence
      refine ⟨fun other hother data hother' => ?_, fun kind' => ?_, fun edge hedge => ?_⟩
      · rcases List.mem_append.mp hother with hold | hnew
        · exact h.boundaryIds other hold data hother'
        · obtain rfl := List.mem_singleton.mp hnew
          rw [hdata] at hother'
          cases hother'
          rw [hid, hkind]
      · rw [boundaryNames_append]
        have hnew : boundaryNames kind' [(boundaryForPort node.id node.position port definition
            kind graph.nodes sequence).1] =
            if kind = kind' then [uniqueBoundaryName port kind graph.nodes] else [] := by
          rw [boundaryNames, List.filterMap_cons, List.filterMap_nil, boundary?_boundary hdata,
            hkind]
          by_cases hsame : kind = kind'
          · simp [hsame, hname]
          · simp [hsame]
        rw [hnew]
        by_cases hsame : kind = kind'
        · subst hsame
          rw [if_pos rfl]
          refine List.nodup_append'.mpr ⟨h.boundaryNodup kind, List.nodup_singleton _, ?_⟩
          rw [List.disjoint_singleton]
          exact freshName_not_mem _ _ _
        · rw [if_neg hsame, List.append_nil]
          exact h.boundaryNodup kind'
      · rcases List.mem_append.mp hedge with hold | hnew
        · exact h.handles edge hold
        · rw [List.mem_singleton.mp hnew]
          exact boundaryForPort_handles _ _ _ _ _ _ _
  | removed _ =>
      refine ⟨fun node hnode => h.boundaryIds node (List.mem_of_mem_filter hnode), fun kind => ?_,
        fun edge hedge => h.handles edge (List.mem_of_mem_filter hedge)⟩
      exact (List.filter_sublist.filterMap _).nodup (h.boundaryNodup kind)

theorem relabelled {name : String → String} {relabel : ComposerNode → ComposerNode}
    (h : graph.Named) (hrelabelled : graph.Relabelled graph' name relabel) : graph'.Named := by
  refine ⟨fun node hnode data hdata => ?_, fun kind => ?_, fun edge hedge => ?_⟩
  · rw [hrelabelled.nodes] at hnode
    obtain ⟨old, hold, rfl⟩ := List.mem_map.mp hnode
    have hrelabels := hrelabelled.relabels old hold
    cases holdData : old.data with
    | operation oldData =>
        obtain ⟨-, data', hdata', -⟩ := hrelabels.operation oldData holdData
        rw [hdata'] at hdata
        cases hdata
    | boundary oldData =>
        obtain ⟨hid, hsame⟩ := hrelabels.boundary oldData holdData
        rw [hid]
        exact h.boundaryIds old hold data (hsame.symm.trans hdata)
  · have hnames : boundaryNames kind graph'.nodes = boundaryNames kind graph.nodes := by
      rw [hrelabelled.nodes, boundaryNames, List.filterMap_map]
      refine List.filterMap_congr fun node hnode => ?_
      simp only [Function.comp_apply, (hrelabelled.relabels node hnode).boundary?_eq]
    rw [hnames]
    exact h.boundaryNodup kind
  · rw [hrelabelled.edges] at hedge
    obtain ⟨old, hold, rfl⟩ := List.mem_map.mp hedge
    exact h.handles old hold

theorem opened (workflow : WorkflowDocument) (layout : Option DraftLayout) :
    (Editor.opened workflow layout capabilities).graph.Named := by
  refine ⟨fun node hnode data hdata => ?_, fun kind => ?_, fun edge hedge => ?_⟩
  · rcases mem_nodes_workflowToCanvas hnode with hoperation | ⟨item, _, position, rfl⟩ |
      ⟨item, _, position, rfl⟩
    · have hkind := kind_of_mem_operationNodes hoperation
      rw [hdata] at hkind
      cases hkind
    · cases hdata
      rfl
    · cases hdata
      rfl
  · cases kind with
    | workflowInput =>
        have hnames : boundaryNames .workflowInput
            (Editor.opened workflow layout capabilities).graph.nodes =
              workflow.inputs.rows.map Prod.fst := boundaryNames_input workflow layout capabilities
        rw [hnames]
        exact workflow.inputs.nodup
    | workflowOutput =>
        have hnames : boundaryNames .workflowOutput
            (Editor.opened workflow layout capabilities).graph.nodes =
              workflow.outputs.rows.map Prod.fst :=
          boundaryNames_output workflow layout capabilities
        rw [hnames]
        exact workflow.outputs.nodup
  · change edge ∈ (workflowToCanvas workflow layout capabilities).edges at hedge
    rcases mem_edges_workflowToCanvas hedge with ⟨item, _, rfl⟩ | ⟨item, _, rfl⟩ | ⟨item, _, rfl⟩
    · exact ⟨fun _ => ⟨_, rfl⟩, fun _ => ⟨_, rfl⟩⟩
    · exact ⟨fun hne => absurd rfl hne, fun _ => ⟨_, rfl⟩⟩
    · exact ⟨fun _ => ⟨_, rfl⟩, fun hne => absurd rfl hne⟩

open TransitionSystem in
theorem of_reachable {editor : Editor} {admitted : CanvasEdit → Prop}
    (hreach : (composerCanvas capabilities).Reachable (fun _ change => admitted change) editor) :
    editor.graph.Named := by
  refine (Editor.All.of_reachable (fun workflow layout => opened workflow layout)
    (fun graph change graph' hnamed _ hedit => ?_) hreach).graph
  rcases edit_cases hedit with hdrawn | ⟨-, name, relabel, hrelabelled⟩
  · exact hnamed.drawn hdrawn
  · exact hnamed.relabelled hrelabelled

end CanvasGraph.Named

end QhpcEcosystem
