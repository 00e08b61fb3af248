/-
Connections of the canvas and entries of the document.  A connection to a boundary
becomes the entry under the name of the boundary, so that connections which share a
boundary overwrite each other.
-/
import QhpcEcosystem.CanvasInvariants

namespace QhpcEcosystem

/-- The end of an edge at its boundary. -/
def ComposerEdge.boundaryEnd (kind : BoundaryKind) (edge : ComposerEdge) : String :=
  match kind with
  | .workflowInput => edge.source
  | .workflowOutput => edge.target

/-- The id of the edge that a boundary comes with. -/
def BoundaryKind.edgeId (kind : BoundaryKind) (name : String) : String :=
  match kind with
  | .workflowInput => "workflow-input:" ++ name
  | .workflowOutput => "workflow-output:" ++ name

/-- Every connection of a boundary kind has its boundary, and ids tell the edges apart. -/
structure CanvasGraph.Joined (graph : CanvasGraph) : Prop where
  named : graph.Named
  edgeIds : (graph.edges.map ComposerEdge.id).Nodup
  boundaries : ∀ edge ∈ graph.edges, ∀ kind, edge.data.kind = .boundary kind →
    ∃ node ∈ graph.nodes, node.id = edge.boundaryEnd kind ∧ node.data.kind = .boundary kind
  edgeNames : ∀ edge ∈ graph.edges, ∀ kind name, edge.id = BoundaryKind.edgeId kind name →
    edge.data.kind = .boundary kind ∧ edge.boundaryEnd kind = kind.nodeId name

/-! ## Ids -/

theorem nodeId_injective (kind : BoundaryKind) : Function.Injective kind.nodeId := by
  cases kind
  · exact append_left_injective "input:"
  · exact append_left_injective "output:"

theorem edgeId_injective (kind : BoundaryKind) : Function.Injective kind.edgeId := by
  cases kind
  · exact append_left_injective "workflow-input:"
  · exact append_left_injective "workflow-output:"

/-- Texts with different starts differ. -/
theorem append_ne_of_getElem? {start start' : String} (n : Nat)
    (hn : n < start.toList.length) (hn' : n < start'.toList.length)
    (h : start.toList[n]? ≠ start'.toList[n]?) (rest rest' : String) :
    start ++ rest ≠ start' ++ rest' := by
  intro heq
  have hlists := congrArg (fun text => text.toList[n]?) heq
  simp only [String.toList_append, List.getElem?_append_left hn, List.getElem?_append_left hn']
    at hlists
  exact h hlists

theorem edgeId_ne_drawn (kind : BoundaryKind) (name uuid : String) :
    kind.edgeId name ≠ "edge:" ++ uuid := by
  cases kind <;> exact append_ne_of_getElem? 0 (by decide) (by decide) (by decide) _ _

theorem edgeId_kind {kind kind' : BoundaryKind} {name name' : String}
    (h : kind.edgeId name = kind'.edgeId name') : kind = kind' ∧ name = name' := by
  have hkind : kind = kind' := by
    cases kind <;> cases kind' <;> first | rfl | skip
    · exact absurd h (append_ne_of_getElem? 9 (by decide) (by decide) (by decide) _ _)
    · exact absurd h (append_ne_of_getElem? 9 (by decide) (by decide) (by decide) _ _)
  subst hkind
  exact ⟨rfl, edgeId_injective kind h⟩

theorem nodeId_kind {kind kind' : BoundaryKind} {name name' : String}
    (h : kind.nodeId name = kind'.nodeId name') : kind = kind' ∧ name = name' := by
  have hkind : kind = kind' := by
    cases kind <;> cases kind' <;> first | rfl | skip
    · exact absurd h (append_ne_of_getElem? 0 (by decide) (by decide) (by decide) _ _)
    · exact absurd h (append_ne_of_getElem? 0 (by decide) (by decide) (by decide) _ _)
  subst hkind
  exact ⟨rfl, nodeId_injective kind h⟩

/-- The id of an edge of the document gives its place. -/
theorem internalEdge_id_index {edge edge' : Edge} {index index' : Nat}
    (h : (internalEdge edge index).id = (internalEdge edge' index').id) : index = index' := by
  have hcolon : ∀ n : Nat, ':' ∉ Nat.toDigits 10 n := fun n hmem =>
    absurd (Nat.isDigit_of_mem_toDigits (by omega) (by omega) hmem) (by decide)
  have hsplit : ∀ (edge : Edge) (index : Nat), ∃ rest, (internalEdge edge index).id.toList =
      "edge:".toList ++ (Nat.toDigits 10 index ++ ':' :: rest) := by
    intro edge index
    refine ⟨(edge.source.node ++ ":" ++ edge.source.port ++ ":" ++ edge.target.node ++ ":" ++
      edge.target.port).toList, ?_⟩
    rw [← Nat.toList_repr]
    simp only [internalEdge, String.toList_append, List.append_assoc]
    rfl
  obtain ⟨rest, hrest⟩ := hsplit edge index
  obtain ⟨rest', hrest'⟩ := hsplit edge' index'
  have hlists : Nat.toDigits 10 index ++ ':' :: rest = Nat.toDigits 10 index' ++ ':' :: rest' :=
    List.append_cancel_left ((hrest.symm.trans (congrArg String.toList h)).trans hrest')
  obtain ⟨hdigits, -⟩ := append_separator_inj (hcolon index) (hcolon index') hlists
  rw [← Nat.ofDigitChars_toDigits (b := 10) (n := index) (by omega) (by omega), hdigits,
    Nat.ofDigitChars_toDigits (by omega) (by omega)]

theorem mem_boundaryNames {kind : BoundaryKind} {nodes : List ComposerNode} {name : String} :
    name ∈ boundaryNames kind nodes ↔
      ∃ node ∈ nodes, ∃ data, node.data = .boundary data ∧ data.kind = kind ∧ data.name = name := by
  simp only [boundaryNames, List.mem_filterMap, Option.map_eq_some_iff]
  constructor
  · rintro ⟨node, hnode, data, hdata, rfl⟩
    unfold ComposerNode.boundary? at hdata
    split at hdata
    · cases hdata
    · next boundary hboundary =>
        split at hdata <;> cases hdata
        exact ⟨node, hnode, data, hboundary, by assumption, rfl⟩
  · rintro ⟨node, hnode, data, hdata, rfl, rfl⟩
    exact ⟨node, hnode, data, by rw [boundary?_boundary hdata, if_pos rfl], rfl⟩

theorem boundary_of_kind {node : ComposerNode} {kind : BoundaryKind}
    (h : node.data.kind = .boundary kind) :
    ∃ data, node.data = .boundary data ∧ data.kind = kind := by
  cases hdata : node.data with
  | operation data =>
      rw [hdata] at h
      cases h
  | boundary data =>
      rw [hdata] at h
      exact ⟨data, rfl, CanvasNodeKind.boundary.inj h⟩

/-! ## Edits keep the connections with their boundaries -/

/-- The edge that `boundaryForPort` makes. -/
theorem boundaryForPort_edge (operationId : String) (position : Position) (port : String)
    (definition : PortDefinition) (kind : BoundaryKind) (nodes : List ComposerNode)
    (sequence : Nat) :
    (boundaryForPort operationId position port definition kind nodes sequence).2.id =
        kind.edgeId (uniqueBoundaryName port kind nodes) ∧
      (boundaryForPort operationId position port definition kind nodes sequence).2.data.kind =
        .boundary kind ∧
      (boundaryForPort operationId position port definition kind nodes
        sequence).2.boundaryEnd kind = kind.nodeId (uniqueBoundaryName port kind nodes) := by
  cases kind <;> exact ⟨rfl, rfl, rfl⟩

namespace CanvasGraph.Joined

variable {capabilities : List Capability} {graph graph' : CanvasGraph}

theorem drawn (h : graph.Joined) (hdrawn : graph.Drawn capabilities graph') : graph'.Joined := by
  have hnamed := h.named.drawn hdrawn
  cases hdrawn with
  | added _ _ _ =>
      refine ⟨hnamed, h.edgeIds, fun edge hedge kind hkind => ?_, h.edgeNames⟩
      obtain ⟨node, hnode, hid⟩ := h.boundaries edge hedge kind hkind
      exact ⟨node, List.mem_append_left _ hnode, hid⟩
  | @connected edge source target uuid hconnects hid hfresh =>
      refine ⟨hnamed, ?_, fun other hother kind hkind => ?_, fun other hother kind name hname => ?_⟩
      · rw [List.map_append, List.nodup_append']
        refine ⟨h.edgeIds, List.nodup_singleton _, ?_⟩
        rw [List.map_singleton, List.disjoint_singleton]
        intro hmem
        obtain ⟨other, hother, heq⟩ := List.mem_map.mp hmem
        exact hfresh other hother heq
      · rcases List.mem_append.mp hother with hold | hnew
        · exact h.boundaries other hold kind hkind
        · obtain rfl := List.mem_singleton.mp hnew
          have hedgeKind := hconnects.kind
          rw [hkind] at hedgeKind
          rcases kinds_of_connection hconnects.direction with ⟨-, -, hinternal⟩ |
            ⟨hsource, -, hinput⟩ | ⟨-, htarget, houtput⟩
          · rw [hinternal] at hedgeKind
            cases hedgeKind
          · rw [hinput] at hedgeKind
            cases hedgeKind
            exact ⟨source, mem_of_nodeWithId? hconnects.sourceNode,
              id_of_nodeWithId? hconnects.sourceNode, hsource⟩
          · rw [houtput] at hedgeKind
            cases hedgeKind
            exact ⟨target, mem_of_nodeWithId? hconnects.targetNode,
              id_of_nodeWithId? hconnects.targetNode, htarget⟩
      · rcases List.mem_append.mp hother with hold | hnew
        · exact h.edgeNames other hold kind name hname
        · obtain rfl := List.mem_singleton.mp hnew
          exact absurd (hname.symm.trans hid) (edgeId_ne_drawn kind name uuid)
  | @exposed node data port definition kind sequence _ _ _ =>
      obtain ⟨hid, hedgeKind, hend⟩ := boundaryForPort_edge node.id node.position port definition
        kind graph.nodes sequence
      obtain ⟨boundary, hboundaryKind, hname, -, hdata, hnodeId⟩ := boundaryForPort_node node.id
        node.position port definition kind graph.nodes sequence
      refine ⟨hnamed, ?_, fun other hother kind' hkind => ?_,
        fun other hother kind' name hother' => ?_⟩
      · rw [List.map_append, List.nodup_append']
        refine ⟨h.edgeIds, List.nodup_singleton _, ?_⟩
        rw [List.map_singleton, List.disjoint_singleton]
        intro hmem
        obtain ⟨other, hother, heq⟩ := List.mem_map.mp hmem
        -- the old edge under this id has a boundary of the new name
        obtain ⟨hotherKind, hotherEnd⟩ := h.edgeNames other hother kind _ (heq.trans hid)
        obtain ⟨old, hold, holdId, holdKind⟩ := h.boundaries other hother kind hotherKind
        obtain ⟨oldData, holdData, rfl⟩ := boundary_of_kind holdKind
        have hsame := h.named.boundaryIds old hold oldData holdData
        rw [holdId, hotherEnd] at hsame
        have htaken := mem_boundaryNames.mpr ⟨old, hold, oldData, holdData, rfl,
          (nodeId_injective _ hsame).symm⟩
        exact freshName_not_mem _ _ _ htaken
      · rcases List.mem_append.mp hother with hold | hnew
        · obtain ⟨found, hfound, hfoundId⟩ := h.boundaries other hold kind' hkind
          exact ⟨found, List.mem_append_left _ hfound, hfoundId⟩
        · obtain rfl := List.mem_singleton.mp hnew
          rw [hedgeKind] at hkind
          cases hkind
          refine ⟨_, List.mem_append_right _ (List.mem_singleton_self _), ?_, ?_⟩
          · rw [hnodeId, hend, hname]
          · rw [hdata, NodeData.kind, hboundaryKind]
      · rcases List.mem_append.mp hother with hold | hnew
        · exact h.edgeNames other hold kind' name hother'
        · obtain rfl := List.mem_singleton.mp hnew
          obtain ⟨rfl, rfl⟩ := edgeId_kind (hid.symm.trans hother')
          exact ⟨hedgeKind, hend⟩
  | removed hends =>
      refine ⟨hnamed, (List.filter_sublist.map _).nodup h.edgeIds, fun edge hedge kind hkind => ?_,
        fun edge hedge => h.edgeNames edge (List.mem_of_mem_filter hedge)⟩
      obtain ⟨hold, hkept⟩ := List.mem_filter.mp hedge
      obtain ⟨node, hnode, hid, hnodeKind⟩ := h.boundaries edge hold kind hkind
      refine ⟨node, List.mem_filter.mpr ⟨hnode, ?_⟩, hid, hnodeKind⟩
      rw [hid]
      obtain ⟨hsource, htarget⟩ := hends edge hold hkept
      cases kind
      · exact hsource
      · exact htarget

variable (capabilities) in
theorem nodup_edgeIds_opened (workflow : WorkflowDocument) (layout : Option DraftLayout) :
    ((workflowToCanvas workflow layout capabilities).edges.map ComposerEdge.id).Nodup := by
  have hinternal : ((workflow.edges.zipIdx.map fun item => internalEdge item.1 item.2).map
      ComposerEdge.id).Nodup := by
    rw [List.map_map]
    have hindices : (workflow.edges.zipIdx.map Prod.snd).Nodup := by
      rw [List.zipIdx_map_snd]
      exact List.nodup_range'
    refine (List.Nodup.of_map _ hindices).map_on fun item hitem other hother heq => ?_
    exact List.inj_on_of_nodup_map hindices hitem hother (internalEdge_id_index heq)
  have hboundary : ∀ {α : Type} (kind : BoundaryKind) (object : Dict String α)
      (f : (String × α) × Nat → ComposerEdge), (∀ item, (f item).id = kind.edgeId item.1.1) →
      ((object.rows.zipIdx.map f).map ComposerEdge.id).Nodup := by
    intro α kind object f hf
    have hids : (object.rows.zipIdx.map f).map ComposerEdge.id =
        (object.rows.map Prod.fst).map kind.edgeId := by
      rw [show object.rows.map Prod.fst = (object.rows.zipIdx.map Prod.fst).map Prod.fst by
        rw [List.zipIdx_map_fst], List.map_map, List.map_map, List.map_map]
      exact List.map_congr_left fun item _ => hf item
    rw [hids]
    exact object.nodup.map (edgeId_injective kind)
  simp only [workflowToCanvas, List.map_append]
  refine List.nodup_append'.mpr ⟨List.nodup_append'.mpr ⟨hinternal,
    hboundary .workflowInput _ _ fun _ => rfl, ?_⟩, hboundary .workflowOutput _ _ fun _ => rfl, ?_⟩
  · intro id hedge hinput
    simp only [List.map_map, List.mem_map, Function.comp_apply] at hedge hinput
    obtain ⟨item, -, rfl⟩ := hedge
    obtain ⟨other, -, heq⟩ := hinput
    exact absurd heq (by
      simp only [internalEdge, inputEdge, String.append_assoc]
      exact edgeId_ne_drawn .workflowInput _ _)
  · intro id hedge houtput
    simp only [List.map_map, List.mem_append, List.mem_map, Function.comp_apply] at hedge houtput
    obtain ⟨other, -, heq⟩ := houtput
    rcases hedge with ⟨item, -, rfl⟩ | ⟨item, -, rfl⟩
    · exact absurd heq (by
        simp only [internalEdge, outputEdge, String.append_assoc]
        exact edgeId_ne_drawn .workflowOutput _ _)
    · exact absurd (edgeId_kind (show BoundaryKind.edgeId .workflowOutput other.1.1 =
        BoundaryKind.edgeId .workflowInput item.1.1 from heq)).1 (by decide)

theorem opened (workflow : WorkflowDocument) (layout : Option DraftLayout) :
    (Editor.opened workflow layout capabilities).graph.Joined := by
  refine ⟨.opened workflow layout, nodup_edgeIds_opened capabilities workflow layout,
    fun edge hedge kind hkind => ?_, fun edge hedge kind name hname => ?_⟩
  · change edge ∈ (workflowToCanvas workflow layout capabilities).edges at hedge
    rcases mem_edges_workflowToCanvas hedge with ⟨item, _, rfl⟩ | ⟨item, hitem, rfl⟩ |
      ⟨item, hitem, rfl⟩
    · cases hkind
    · cases hkind
      exact ⟨_, List.mem_append_left _ (List.mem_append_right _ (List.mem_map_of_mem hitem)),
        rfl, rfl⟩
    · cases hkind
      exact ⟨_, List.mem_append_right _ (List.mem_map_of_mem hitem), rfl, rfl⟩
  · change edge ∈ (workflowToCanvas workflow layout capabilities).edges at hedge
    rcases mem_edges_workflowToCanvas hedge with ⟨item, _, rfl⟩ | ⟨item, hitem, rfl⟩ |
      ⟨item, hitem, rfl⟩
    · refine absurd hname.symm ?_
      simp only [internalEdge, String.append_assoc]
      exact edgeId_ne_drawn kind name _
    · obtain ⟨rfl, rfl⟩ := edgeId_kind (show BoundaryKind.edgeId .workflowInput item.1.1 =
        kind.edgeId name from hname)
      exact ⟨rfl, rfl⟩
    · obtain ⟨rfl, rfl⟩ := edgeId_kind (show BoundaryKind.edgeId .workflowOutput item.1.1 =
        kind.edgeId name from hname)
      exact ⟨rfl, rfl⟩

open TransitionSystem in
theorem of_reachable {editor : Editor} (hreach : (composerCanvas capabilities).Reachable
    (fun _ change => change.draws = true) editor) : editor.graph.Joined := by
  refine (Editor.All.of_reachable (fun workflow layout => opened workflow layout)
    (fun graph change graph' hjoined hdraws hedit => ?_) hreach).graph
  rcases edit_cases hedit with hdrawn | ⟨hplace, -⟩
  · exact hjoined.drawn hdrawn
  · rw [hdraws] at hplace
    cases hplace

end CanvasGraph.Joined

/-! ## Entries of the document -/

/-- Computations that all succeed, with what is known of each result. -/
theorem mapM_forall₂ {ε α β : Type} {f : α → Except ε β} {R : α → β → Prop} {values : List α}
    (h : ∀ value ∈ values, ∃ result, f value = .ok result ∧ R value result) :
    ∃ results, values.mapM f = .ok results ∧ List.Forall₂ R values results := by
  induction values with
  | nil => exact ⟨[], rfl, .nil⟩
  | cons value rest ih =>
      obtain ⟨result, hresult, hR⟩ := h value List.mem_cons_self
      obtain ⟨results, hresults, hRs⟩ :=
        ih fun other hother => h other (List.mem_cons_of_mem _ hother)
      refine ⟨result :: results, ?_, .cons hR hRs⟩
      rw [List.mapM_cons, hresult, hresults]
      rfl

theorem map_eq_of_forall₂ {α β γ : Type} {f : α → γ} {g : β → γ} {xs : List α} {ys : List β}
    (h : List.Forall₂ (fun x y => f x = g y) xs ys) : xs.map f = ys.map g := by
  induction h with
  | nil => rfl
  | cons hxy _ ih => rw [List.map_cons, List.map_cons, hxy, ih]

theorem forall₂_filterMap_id {α β : Type} {P : α → β → Prop} {xs : List α}
    {results : List (Option β)}
    (h : List.Forall₂ (fun x result => ∃ y, result = some y ∧ P x y) xs results) :
    List.Forall₂ P xs (results.filterMap id) := by
  induction h with
  | nil => exact .nil
  | cons hhead _ ih =>
      obtain ⟨y, rfl, hP⟩ := hhead
      exact .cons hP ih

namespace CanvasGraph

variable (graph : CanvasGraph)

def edgesOf (kind : EdgeKind) : List ComposerEdge :=
  graph.edges.filter fun edge => edge.data.kind = kind

theorem edgesOfKind_perm (kind : EdgeKind) :
    (edgesOfKind kind graph.edges).Perm (graph.edgesOf kind) :=
  sortedBySequence_perm _ _

theorem mem_edgesOf {graph : CanvasGraph} {kind : EdgeKind} {edge : ComposerEdge} :
    edge ∈ graph.edgesOf kind ↔ edge ∈ graph.edges ∧ edge.data.kind = kind := by
  simp [edgesOf]

theorem mem_edgesOfKind {graph : CanvasGraph} {kind : EdgeKind} {edge : ComposerEdge} :
    edge ∈ edgesOfKind kind graph.edges ↔ edge ∈ graph.edges ∧ edge.data.kind = kind := by
  rw [(graph.edgesOfKind_perm kind).mem_iff, mem_edgesOf]

end CanvasGraph

/-- The ends of an edge on the canvas. -/
def ComposerEdge.ends (edge : ComposerEdge) : (String × Option String) × String × Option String :=
  ((edge.source, edge.sourceHandle), edge.target, edge.targetHandle)

/-- The place of an input port on the canvas. -/
def targetPlace (node port : String) : String × Option String := (node, some ("in:" ++ port))

def sourcePlace (node port : String) : String × Option String := (node, some ("out:" ++ port))

def inputPlace (item : String × WorkflowInput) : String × Option String :=
  targetPlace item.2.target.node item.2.target.port

def outputPlace (item : String × WorkflowOutput) : String × Option String :=
  sourcePlace item.2.source.node item.2.source.port

/-- The document has exactly one entry for every operation and every connection. -/
structure CanvasGraph.Keeps (graph : CanvasGraph) (workflow : WorkflowDocument) : Prop where
  operations : (workflow.nodes.map fun node => (node.id, node.operation)).Perm
    ((operationItems graph.nodes).map fun item => (item.1, item.2.operation))
  edges : (workflow.edges.map fun edge => (sourcePlace edge.source.node edge.source.port,
      targetPlace edge.target.node edge.target.port)).Perm
    ((graph.edgesOf .internal).map ComposerEdge.ends)
  inputs : (workflow.inputs.rows.map inputPlace).Perm
    ((graph.edgesOf (.boundary .workflowInput)).map fun edge => (edge.target, edge.targetHandle))
  outputs : (workflow.outputs.rows.map outputPlace).Perm
    ((graph.edgesOf (.boundary .workflowOutput)).map fun edge => (edge.source, edge.sourceHandle))

/-- No two connections share a boundary, and no boundary is called `__proto__`. -/
structure CanvasGraph.SingleConnections (graph : CanvasGraph) : Prop where
  single : ∀ kind, ((graph.edgesOf (.boundary kind)).map (ComposerEdge.boundaryEnd kind)).Nodup
  named : ∀ kind, ∀ edge ∈ graph.edgesOf (.boundary kind),
    edge.boundaryEnd kind ≠ kind.nodeId "__proto__"

section Entries

variable {graph : CanvasGraph}

/-- Entries under the names of boundaries are all kept exactly when the names differ. -/
theorem boundaryEntries {α γ : Type} {kind : BoundaryKind}
    {entryOf : ComposerEdge → Except String (Option (String × α))} (place : String × α → γ)
    {edgePlace : ComposerEdge → γ}
    (h : ∀ edge ∈ graph.edgesOf (.boundary kind), ∃ entry, entryOf edge = .ok (some entry) ∧
      edge.boundaryEnd kind = kind.nodeId entry.1 ∧ edgePlace edge = place entry) :
    ∃ results, (edgesOfKind (.boundary kind) graph.edges).mapM entryOf = .ok results ∧
      (((assignAll Table.empty (results.filterMap id)).rows.map place).Perm
          ((graph.edgesOf (.boundary kind)).map edgePlace) ↔
        ((graph.edgesOf (.boundary kind)).map (ComposerEdge.boundaryEnd kind)).Nodup ∧
          ∀ edge ∈ graph.edgesOf (.boundary kind),
            edge.boundaryEnd kind ≠ kind.nodeId "__proto__") := by
  have hperm := graph.edgesOfKind_perm (.boundary kind)
  have hmapped : ∃ results, (edgesOfKind (.boundary kind) graph.edges).mapM entryOf =
      .ok results ∧ List.Forall₂ (fun edge result => ∃ entry, result = some entry ∧
        edge.boundaryEnd kind = kind.nodeId entry.1 ∧ edgePlace edge = place entry)
        (edgesOfKind (.boundary kind) graph.edges) results :=
    mapM_forall₂ fun edge hedge => by
      obtain ⟨entry, hentry, hends⟩ := h edge (hperm.mem_iff.mp hedge)
      exact ⟨some entry, hentry, entry, rfl, hends⟩
  obtain ⟨results, hresults, hall⟩ := hmapped
  have hentries := forall₂_filterMap_id hall
  have hends := map_eq_of_forall₂ (hentries.imp fun _ _ => And.left)
  have hplaces := map_eq_of_forall₂ (hentries.imp fun _ _ => And.right)
  have hnames : ((graph.edgesOf (.boundary kind)).map (ComposerEdge.boundaryEnd kind)).Perm
      (((results.filterMap id).map Prod.fst).map kind.nodeId) := by
    rw [List.map_map]
    exact ((hperm.map _).symm.trans (List.Perm.of_eq hends))
  refine ⟨results, hresults, ?_⟩
  rw [hnames.nodup_iff, List.nodup_map_iff (nodeId_injective kind)]
  have hproto : (∀ edge ∈ graph.edgesOf (.boundary kind),
      edge.boundaryEnd kind ≠ kind.nodeId "__proto__") ↔
        "__proto__" ∉ (results.filterMap id).map Prod.fst := by
    rw [← List.mem_map_of_injective (nodeId_injective kind), ← hnames.mem_iff, List.mem_map]
    exact ⟨fun hne hmem => hmem.elim fun edge hedge => hne edge hedge.1 hedge.2,
      fun hout edge hedge heq => hout ⟨edge, hedge, heq⟩⟩
  rw [hproto]
  constructor
  · intro hkept
    have hlength := hkept.length_eq
    rw [List.length_map, List.length_map, ← hperm.length_eq, hentries.length_eq] at hlength
    exact nodup_of_length_assignAll hlength
  · rintro ⟨hnodup, hordinary⟩
    refine ((perm_assignAll hnodup hordinary).map place).trans ?_
    exact (List.Perm.of_eq hplaces.symm).trans (hperm.map edgePlace)

theorem workflowEdge_eq {edge : ComposerEdge} (hhandles : edge.HandlesNamed)
    (hkind : edge.data.kind = .internal) :
    ∃ fromPort toPort, edge.sourceHandle = some ("out:" ++ fromPort) ∧
      edge.targetHandle = some ("in:" ++ toPort) ∧
      workflowEdge edge = .ok {
        source := ⟨edge.source, fromPort,
          (edge.data.originalEdge.map (·.source.artifactType)).getD edge.data.artifactType⟩
        target := ⟨edge.target, toPort,
          (edge.data.originalEdge.map (·.target.artifactType)).getD edge.data.artifactType⟩ } := by
  obtain ⟨fromPort, hsource⟩ := hhandles.1 (by simp [hkind])
  obtain ⟨toPort, htarget⟩ := hhandles.2 (by simp [hkind])
  refine ⟨fromPort, toPort, hsource, htarget, ?_⟩
  rw [workflowEdge, hsource, htarget, portFromHandle_append, portFromHandle_append]
  rfl

theorem workflowEdge_ok {edge : ComposerEdge} (hhandles : edge.HandlesNamed)
    (hkind : edge.data.kind = .internal) :
    ∃ definition, workflowEdge edge = .ok definition ∧
      edge.ends = (sourcePlace definition.source.node definition.source.port,
        targetPlace definition.target.node definition.target.port) := by
  obtain ⟨fromPort, toPort, hsource, htarget, hdefinition⟩ := workflowEdge_eq hhandles hkind
  exact ⟨_, hdefinition, by rw [ComposerEdge.ends, hsource, htarget]; rfl⟩

theorem workflowInput_eq (hnamed : graph.Named) {edge : ComposerEdge}
    (hedge : edge ∈ graph.edgesOf (.boundary .workflowInput)) {boundary : BoundaryNodeData}
    (hboundary : boundaryNode? .workflowInput graph.nodes edge.source = some boundary) :
    ∃ port, edge.targetHandle = some ("in:" ++ port) ∧
      workflowInput graph.nodes edge = .ok (some (boundary.name, {
        artifactType := boundary.artifactType
        required := if boundary.requiredWasSet then boundary.required else none
        target := ⟨edge.target, port⟩ })) := by
  obtain ⟨hmem, hkind⟩ := CanvasGraph.mem_edgesOf.mp hedge
  obtain ⟨port, hport⟩ := (hnamed.handles edge hmem).2 (by simp [hkind])
  refine ⟨port, hport, ?_⟩
  rw [workflowInput, hboundary, hport]
  simp only [portFromHandle_append]
  rfl

theorem workflowOutput_eq (hnamed : graph.Named) {edge : ComposerEdge}
    (hedge : edge ∈ graph.edgesOf (.boundary .workflowOutput)) {boundary : BoundaryNodeData}
    (hboundary : boundaryNode? .workflowOutput graph.nodes edge.target = some boundary) :
    ∃ port, edge.sourceHandle = some ("out:" ++ port) ∧
      workflowOutput graph.nodes edge = .ok (some (boundary.name, {
        artifactType := boundary.artifactType
        source := ⟨edge.source, port⟩ })) := by
  obtain ⟨hmem, hkind⟩ := CanvasGraph.mem_edgesOf.mp hedge
  obtain ⟨port, hport⟩ := (hnamed.handles edge hmem).1 (by simp [hkind])
  refine ⟨port, hport, ?_⟩
  rw [workflowOutput, hboundary, hport]
  simp only [portFromHandle_append]
  rfl

/-- The boundary of a kind under an id. -/
theorem boundaryNode?_of_mem {kind : BoundaryKind} {id : String} (hnamed : graph.Named)
    (h : ∃ node ∈ graph.nodes, node.id = id ∧ node.data.kind = .boundary kind) :
    ∃ boundary, boundaryNode? kind graph.nodes id = some boundary ∧
      id = kind.nodeId boundary.name := by
  obtain ⟨node, hnode, hid, hkind⟩ := h
  cases hfound : graph.nodes.find? fun node =>
      decide (node.id = id ∧ node.data.kind = .boundary kind) with
  | none =>
      have hnone := List.find?_eq_none.mp hfound node hnode
      rw [decide_eq_true_eq] at hnone
      exact absurd ⟨hid, hkind⟩ hnone
  | some found =>
      have hmatches := List.find?_some hfound
      rw [decide_eq_true_eq] at hmatches
      obtain ⟨hfoundId, hfoundKind⟩ := hmatches
      obtain ⟨boundary, hdata, rfl⟩ := boundary_of_kind hfoundKind
      refine ⟨boundary, ?_, ?_⟩
      · rw [boundaryNode?, hfound, Option.bind_some, boundary?_boundary hdata, if_pos rfl]
      · rw [← hfoundId]
        exact hnamed.boundaryIds found (List.mem_of_find?_eq_some hfound) boundary hdata

namespace CanvasGraph.Joined

variable (h : graph.Joined)

include h

theorem workflowInput_ok {edge : ComposerEdge}
    (hedge : edge ∈ graph.edgesOf (.boundary .workflowInput)) :
    ∃ entry, workflowInput graph.nodes edge = .ok (some entry) ∧
      edge.boundaryEnd .workflowInput = BoundaryKind.nodeId .workflowInput entry.1 ∧
      (edge.target, edge.targetHandle) = inputPlace entry := by
  obtain ⟨hmem, hkind⟩ := mem_edgesOf.mp hedge
  obtain ⟨boundary, hboundary, hid⟩ :=
    boundaryNode?_of_mem h.named (h.boundaries edge hmem .workflowInput hkind)
  obtain ⟨port, hport, hentry⟩ := workflowInput_eq h.named hedge hboundary
  exact ⟨_, hentry, hid, by rw [hport]; rfl⟩

theorem workflowOutput_ok {edge : ComposerEdge}
    (hedge : edge ∈ graph.edgesOf (.boundary .workflowOutput)) :
    ∃ entry, workflowOutput graph.nodes edge = .ok (some entry) ∧
      edge.boundaryEnd .workflowOutput = BoundaryKind.nodeId .workflowOutput entry.1 ∧
      (edge.source, edge.sourceHandle) = outputPlace entry := by
  obtain ⟨hmem, hkind⟩ := mem_edgesOf.mp hedge
  obtain ⟨boundary, hboundary, hid⟩ :=
    boundaryNode?_of_mem h.named (h.boundaries edge hmem .workflowOutput hkind)
  obtain ⟨port, hport, hentry⟩ := workflowOutput_eq h.named hedge hboundary
  exact ⟨_, hentry, hid, by rw [hport]; rfl⟩

/-- The document keeps every connection exactly when no two share a boundary. -/
theorem kept_iff (metadata : WorkflowMetadata) :
    (∃ workflow, canvasToWorkflow metadata graph.nodes graph.edges = .ok workflow ∧
      graph.Keeps workflow) ↔ graph.SingleConnections := by
  have hmapped : ∃ definitions, (edgesOfKind .internal graph.edges).mapM workflowEdge =
      .ok definitions ∧ List.Forall₂ (fun edge definition => edge.ends =
        (sourcePlace definition.source.node definition.source.port,
          targetPlace definition.target.node definition.target.port))
        (edgesOfKind .internal graph.edges) definitions :=
    mapM_forall₂ fun edge hedge => by
      obtain ⟨hmem, hkind⟩ := mem_edgesOfKind.mp hedge
      exact workflowEdge_ok (h.named.handles edge hmem) hkind
  obtain ⟨definitions, hdefinitions, hends⟩ := hmapped
  obtain ⟨inputs, hinputs, hinputsKept⟩ := boundaryEntries inputPlace
    fun edge hedge => h.workflowInput_ok hedge
  obtain ⟨outputs, houtputs, houtputsKept⟩ := boundaryEntries outputPlace
    fun edge hedge => h.workflowOutput_ok hedge
  have hdocument : canvasToWorkflow metadata graph.nodes graph.edges = .ok {
      metadata := metadata
      nodes := workflowNodes graph.nodes
      edges := definitions
      inputs := assignAll Table.empty (inputs.filterMap id)
      outputs := assignAll Table.empty (outputs.filterMap id) } := by
    rw [canvasToWorkflow, hdefinitions, hinputs, houtputs]
    rfl
  rw [hdocument]
  constructor
  · rintro ⟨workflow, hworkflow, hkeeps⟩
    obtain rfl := Except.ok.inj hworkflow
    obtain ⟨hsingle, hnamed⟩ := hinputsKept.mp hkeeps.inputs
    obtain ⟨hsingle', hnamed'⟩ := houtputsKept.mp hkeeps.outputs
    refine ⟨fun kind => ?_, fun kind => ?_⟩
    · cases kind
      · exact hsingle
      · exact hsingle'
    · cases kind
      · exact hnamed
      · exact hnamed'
  · intro hsingle
    refine ⟨_, rfl, ?_, ?_, hinputsKept.mpr ⟨hsingle.single _, hsingle.named _⟩,
      houtputsKept.mpr ⟨hsingle.single _, hsingle.named _⟩⟩
    · rw [workflowNodes, List.map_map]
      exact (sortedBySequence_perm _ _).map _
    · rw [← map_eq_of_forall₂ hends]
      exact (graph.edgesOfKind_perm .internal).map _

end CanvasGraph.Joined

end Entries

open TransitionSystem in
/-- After any edits that add and delete, the document has exactly one entry for every
operation and every connection on the canvas, if and only if no two connections share a
boundary and no boundary is called `__proto__`. -/
theorem connections_kept {capabilities : List Capability} {editor : Editor}
    (hreach : (composerCanvas capabilities).Reachable (fun _ change => change.draws = true) editor)
    (metadata : WorkflowMetadata) :
    (∃ workflow, canvasToWorkflow metadata editor.graph.nodes editor.graph.edges = .ok workflow ∧
      editor.graph.Keeps workflow) ↔ editor.graph.SingleConnections :=
  (CanvasGraph.Joined.of_reachable hreach).kept_iff metadata

/-! ## Two inputs of one operation -/

/-- An operation with two inputs of one artifact type. -/
def pairCapability : Capability where
  id := "chem"
  version := "1.0.0"
  project := "chem"
  operations := [{
    id := "pair"
    inputs := ⟨[("left", ⟨"qhpc.state@1", none, none⟩), ("right", ⟨"qhpc.state@1", none, none⟩)],
      by decide⟩
    outputs := Table.empty
    runtime := ⟨"apptainer", "pair.sif", "sha256:pair"⟩
    invocation := { entrypoint := ["pair"] }
    executionTargets := ["cluster"] }]

/-- `createEmptyWorkflow`. -/
def emptyWorkflow : WorkflowDocument where
  metadata := ⟨"untitled-workflow", "Untitled workflow", "0.1.0", "workbench-user", "internal",
    none⟩
  nodes := []
  edges := []
  inputs := Table.empty
  outputs := Table.empty

/-- The canvas after edits of a new workflow. -/
def drawnCanvas (edits : List CanvasEdit) : Editor :=
  (composerCanvas [pairCapability]).after (fun _ change => change.draws)
    (Editor.opened emptyWorkflow none [pairCapability]) edits

open TransitionSystem in
theorem drawnCanvas_reachable (edits : List CanvasEdit) :
    (composerCanvas [pairCapability]).Reachable (fun _ change => change.draws = true)
      (drawnCanvas edits) := by
  have hopened : (composerCanvas [pairCapability]).Reachable
      (fun _ change => change.draws = true) (Editor.opened emptyWorkflow none [pairCapability]) :=
    .initial ⟨emptyWorkflow, none, rfl⟩
  exact hopened.after edits

/-- Both inputs get a boundary of their own. -/
def twoBoundaries : List CanvasEdit :=
  [.addOperation 0 0 ⟨0, 0⟩, .exposePort "pair" "left" .workflowInput,
    .exposePort "pair" "right" .workflowInput]

theorem connections_kept_twoBoundaries :
    ∃ workflow, canvasToWorkflow emptyWorkflow.metadata (drawnCanvas twoBoundaries).graph.nodes
        (drawnCanvas twoBoundaries).graph.edges = .ok workflow ∧
      (drawnCanvas twoBoundaries).graph.Keeps workflow :=
  (connections_kept (drawnCanvas_reachable twoBoundaries) emptyWorkflow.metadata).mpr
    ⟨fun kind => by cases kind <;> decide, fun kind => by cases kind <;> decide⟩

/-- The boundary of one input is connected to the other input too. -/
def sharedBoundary : List CanvasEdit :=
  [.addOperation 0 0 ⟨0, 0⟩, .exposePort "pair" "left" .workflowInput,
    .connect ⟨"input:left", some "out:left", "pair", some "in:right"⟩ "7f3a"]

open TransitionSystem in
theorem connection_lost : ∃ capabilities editor metadata,
    (composerCanvas capabilities).Reachable (fun _ change => change.draws = true) editor ∧
    validateCanvas editor.graph.nodes editor.graph.edges = [] ∧
    ¬ ∃ workflow, canvasToWorkflow metadata editor.graph.nodes editor.graph.edges =
        .ok workflow ∧ editor.graph.Keeps workflow := by
  refine ⟨_, _, emptyWorkflow.metadata, drawnCanvas_reachable sharedBoundary, by decide, ?_⟩
  rw [(CanvasGraph.Joined.of_reachable (drawnCanvas_reachable sharedBoundary)).kept_iff]
  exact fun hsingle => absurd (hsingle.single .workflowInput) (by decide)

end QhpcEcosystem
