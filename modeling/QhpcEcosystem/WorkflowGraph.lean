/-
The semantic checks of a workflow document and the deterministic topological
order of its nodes.  Both run Kahn's algorithm: the validator on a queue, to
count the nodes it reaches, and the engine on a sorted list, to order them.
-/
import QhpcEcosystem.Contract
import QhpcEcosystem.Worklist
import Mathlib.Data.List.Dedup

namespace QhpcEcosystem

/-- `sorted(values)` on strings. -/
def sortedStrings (values : List String) : List String :=
  values.insertionSort (· ≤ ·)

theorem sortedStrings_perm (values : List String) : (sortedStrings values).Perm values :=
  List.perm_insertionSort _ values

/-- `_duplicate_issues`. -/
def duplicateIssues (values : List String) (path description : String) :
    List ContractIssue :=
  let duplicates := sortedStrings
    (values.dedup.filter fun value => 1 < values.count value)
  if duplicates = [] then []
  else [⟨path, "duplicate " ++ description ++ ": " ++ ", ".intercalate duplicates⟩]

theorem nodup_of_duplicateIssues {values : List String} {path description : String}
    (h : duplicateIssues values path description = []) : values.Nodup := by
  rw [List.nodup_iff_count_le_one]
  intro value
  by_contra hcount
  have hmem : value ∈ sortedStrings
      (values.dedup.filter fun value => 1 < values.count value) := by
    rw [(sortedStrings_perm _).mem_iff, List.mem_filter, List.mem_dedup]
    refine ⟨List.count_pos_iff.mp (by omega), ?_⟩
    simpa using hcount
  simp only [duplicateIssues, ite_eq_left_iff, reduceCtorEq, imp_false, not_not] at h
  rw [h] at hmem
  cases hmem

theorem duplicateIssues_of_nodup {values : List String} {path description : String}
    (h : values.Nodup) : duplicateIssues values path description = [] := by
  have hnone : values.dedup.filter (fun value => decide (1 < values.count value)) = [] := by
    rw [List.filter_eq_nil_iff]
    intro value _
    have hcount := List.nodup_iff_count_le_one.mp h value
    rw [decide_eq_true_eq]
    omega
  simp [duplicateIssues, hnone, sortedStrings]

def unknownNodeIssue (known : List String) (path node : String) : List ContractIssue :=
  if node ∈ known then [] else [⟨path, "references unknown node " ++ node⟩]

/-- The issues `_validate_workflow` reports for one edge. -/
def edgeIssues (known : List String) (edge : Edge) (index : Nat) : List ContractIssue :=
  let path := "/spec/edges/" ++ toString index
  unknownNodeIssue known (path ++ "/from/node") edge.source.node ++
  unknownNodeIssue known (path ++ "/to/node") edge.target.node ++
  (if edge.source.artifactType ≠ edge.target.artifactType then
    [⟨path, "edge artifact types must match exactly"⟩] else []) ++
  (if edge.source.node = edge.target.node then
    [⟨path, "self-edges are not allowed"⟩] else [])

def Edge.ends (edge : Edge) : String × String :=
  (edge.source.node, edge.target.node)

/-- The edges that enter the graph of the cycle check: between distinct known
nodes. -/
def Workflow.graphEdges (workflow : Workflow) : List (String × String) :=
  (workflow.edges.filter fun edge =>
    edge.source.node ≠ edge.target.node ∧
      edge.source.node ∈ workflow.nodeIds ∧
      edge.target.node ∈ workflow.nodeIds).map Edge.ends

/-- `ready.append(target)` on a deque. -/
def pushBack (ready : List String) (node : String) : List String :=
  ready ++ [node]

/-- The nodes that the work-list loop of `_validate_workflow` visits. -/
def Workflow.visitedNodes (workflow : Workflow) : List String :=
  Worklist.order pushBack (fun ready => ready) workflow.nodeIds
    (Worklist.Graph.ofEdges workflow.graphEdges)

/-- `_validate_workflow`. -/
def validateWorkflow (workflow : Workflow) : List ContractIssue :=
  let known := workflow.nodeIds
  duplicateIssues known "/spec/nodes" "node IDs" ++
  workflow.edges.zipIdx.flatMap (fun item => edgeIssues known item.1 item.2) ++
  workflow.inputs.rows.flatMap (fun item =>
    unknownNodeIssue known ("/spec/inputs/" ++ item.1 ++ "/to/node") item.2.target.node) ++
  workflow.outputs.rows.flatMap (fun item =>
    unknownNodeIssue known ("/spec/outputs/" ++ item.1 ++ "/from/node")
      item.2.source.node) ++
  (if known.dedup.length = known.length ∧
      workflow.visitedNodes.length ≠ known.dedup.length then
    [⟨"/spec/edges", "workflow graph must be acyclic"⟩] else [])

/-- What the semantic checks establish. -/
structure Workflow.WellFormed (workflow : Workflow) : Prop where
  nodup : workflow.nodeIds.Nodup
  sources : ∀ edge ∈ workflow.edges, edge.source.node ∈ workflow.nodeIds
  targets : ∀ edge ∈ workflow.edges, edge.target.node ∈ workflow.nodeIds
  edgeTypes : ∀ edge ∈ workflow.edges, edge.source.artifactType = edge.target.artifactType
  inputs : ∀ item ∈ workflow.inputs.rows, item.2.target.node ∈ workflow.nodeIds
  outputs : ∀ item ∈ workflow.outputs.rows, item.2.source.node ∈ workflow.nodeIds
  acyclic : ∃ rank : String → Nat, ∀ edge ∈ workflow.edges,
    rank edge.source.node < rank edge.target.node

theorem unknownNodeIssue_eq_nil {known : List String} {path node : String} :
    unknownNodeIssue known path node = [] ↔ node ∈ known := by
  unfold unknownNodeIssue
  split <;> simp_all

theorem edgeIssues_eq_nil {known : List String} {edge : Edge} {index : Nat} :
    edgeIssues known edge index = [] ↔
      edge.source.node ∈ known ∧ edge.target.node ∈ known ∧
        edge.source.artifactType = edge.target.artifactType ∧
        edge.source.node ≠ edge.target.node := by
  simp only [edgeIssues, List.append_eq_nil_iff, unknownNodeIssue_eq_nil]
  split <;> split <;> simp_all

theorem mem_graphEdges {workflow : Workflow} {edge : Edge} (hedge : edge ∈ workflow.edges)
    (hsource : edge.source.node ∈ workflow.nodeIds)
    (htarget : edge.target.node ∈ workflow.nodeIds)
    (hne : edge.source.node ≠ edge.target.node) : edge.ends ∈ workflow.graphEdges := by
  apply List.mem_map_of_mem
  simp [hedge, hsource, htarget, hne]

theorem graphEdges_known {workflow : Workflow} {ends : String × String}
    (h : ends ∈ workflow.graphEdges) :
    ends.1 ∈ workflow.nodeIds ∧ ends.2 ∈ workflow.nodeIds := by
  simp only [Workflow.graphEdges, List.mem_map, List.mem_filter, decide_eq_true_eq] at h
  obtain ⟨edge, ⟨-, -, hsource, htarget⟩, rfl⟩ := h
  exact ⟨hsource, htarget⟩

theorem pushBack_perm (ready : List String) (node : String) :
    (pushBack ready node).Perm (node :: ready) :=
  List.perm_append_singleton node ready

/-- A workflow without issues is well formed; its nodes are ranked by the order
in which the cycle check visits them. -/
theorem wellFormed_of_validateWorkflow {workflow : Workflow}
    (h : validateWorkflow workflow = []) : workflow.WellFormed := by
  simp only [validateWorkflow, List.append_eq_nil_iff, List.flatMap_eq_nil_iff] at h
  obtain ⟨⟨⟨⟨hdup, hedges⟩, hinputs⟩, houtputs⟩, hacyclic⟩ := h
  have hnodup := nodup_of_duplicateIssues hdup
  have hedge : ∀ edge ∈ workflow.edges, edge.source.node ∈ workflow.nodeIds ∧
      edge.target.node ∈ workflow.nodeIds ∧
      edge.source.artifactType = edge.target.artifactType ∧
      edge.source.node ≠ edge.target.node := by
    intro edge hmem
    obtain ⟨index, hindex⟩ := List.getElem?_of_mem hmem
    exact edgeIssues_eq_nil.mp
      (hedges (edge, index) (List.mk_mem_zipIdx_iff_getElem?.mpr hindex))
  have hlength : workflow.visitedNodes.length = workflow.nodeIds.length := by
    rw [List.Nodup.dedup hnodup] at hacyclic
    by_contra hne
    simp [hne] at hacyclic
  have hsources : ∀ ends ∈ workflow.graphEdges, ends.1 ∈ workflow.nodeIds :=
    fun ends hmem => (graphEdges_known hmem).1
  have hcounts := Worklist.Graph.ofEdges_counts hnodup hsources
  refine ⟨hnodup, fun edge hmem => (hedge edge hmem).1, fun edge hmem => (hedge edge hmem).2.1,
    fun edge hmem => (hedge edge hmem).2.2.1, ?_, ?_, ?_⟩
  · exact fun item hmem => unknownNodeIssue_eq_nil.mp (hinputs item hmem)
  · exact fun item hmem => unknownNodeIssue_eq_nil.mp (houtputs item hmem)
  · refine ⟨workflow.visitedNodes.idxOf, fun edge hmem => ?_⟩
    obtain ⟨hsource, htarget, -, hne⟩ := hedge edge hmem
    have htargets : ∀ node, ∀ target ∈ (Worklist.Graph.ofEdges workflow.graphEdges).adjacency node,
        target ∈ workflow.nodeIds := by
      intro node target hadj
      rw [Worklist.Graph.mem_ofEdges hnodup hsources] at hadj
      exact (graphEdges_known hadj).2
    have hadj : edge.target.node ∈
        (Worklist.Graph.ofEdges workflow.graphEdges).adjacency edge.source.node := by
      rw [Worklist.Graph.mem_ofEdges hnodup hsources]
      exact mem_graphEdges hmem hsource htarget hne
    exact Worklist.order_rank pushBack_perm (fun _ => List.Perm.refl _) hnodup hcounts
      htargets hlength hsource hadj

/-! ## Topological order -/

/-- `ready.append(target); ready.sort()`. -/
def pushSorted (ready : List String) (node : String) : List String :=
  sortedStrings (ready ++ [node])

theorem pushSorted_perm (ready : List String) (node : String) :
    (pushSorted ready node).Perm (node :: ready) :=
  (sortedStrings_perm _).trans (List.perm_append_singleton node ready)

/-- The graph of `topological_nodes`; a node's successors are traversed in
sorted order. -/
def Workflow.sortedGraph (workflow : Workflow) : Worklist.Graph String :=
  let graph := Worklist.Graph.ofEdges (workflow.edges.map Edge.ends)
  { graph with adjacency := fun node => sortedStrings (graph.adjacency node) }

/-- `topological_nodes`. -/
def topologicalNodes (workflow : Workflow) : List String :=
  Worklist.order pushSorted sortedStrings workflow.nodeIds workflow.sortedGraph

section TopologicalNodes

variable {workflow : Workflow} (hwf : workflow.WellFormed)

include hwf

theorem ends_source_mem : ∀ ends ∈ workflow.edges.map Edge.ends,
    ends.1 ∈ workflow.nodeIds := by
  intro ends hmem
  obtain ⟨edge, hedge, rfl⟩ := List.mem_map.mp hmem
  exact hwf.sources edge hedge

theorem mem_sortedGraph (source target : String) :
    target ∈ workflow.sortedGraph.adjacency source ↔
      ∃ edge ∈ workflow.edges, edge.source.node = source ∧ edge.target.node = target := by
  rw [Workflow.sortedGraph, (sortedStrings_perm _).mem_iff,
    Worklist.Graph.mem_ofEdges hwf.nodup (ends_source_mem hwf)]
  simp [Edge.ends]

theorem sortedGraph_counts : workflow.sortedGraph.Counts workflow.nodeIds := by
  have hcounts := Worklist.Graph.ofEdges_counts hwf.nodup (ends_source_mem hwf)
  constructor
  · intro node
    exact (sortedStrings_perm _).nodup_iff.mpr (hcounts.adjacencyNodup node)
  · intro target
    simp only [Workflow.sortedGraph, hcounts.indegreeEq, Worklist.inDegreeIn,
      (sortedStrings_perm _).mem_iff]

theorem sortedGraph_targets (node target : String)
    (h : target ∈ workflow.sortedGraph.adjacency node) : target ∈ workflow.nodeIds := by
  obtain ⟨edge, hedge, -, rfl⟩ := (mem_sortedGraph hwf node target).mp h
  exact hwf.targets edge hedge

/-- Every node of a well-formed workflow is ordered, exactly once. -/
theorem topologicalNodes_perm : (topologicalNodes workflow).Perm workflow.nodeIds := by
  obtain ⟨rank, hrank⟩ := hwf.acyclic
  apply Worklist.order_perm pushSorted_perm sortedStrings_perm hwf.nodup
    (sortedGraph_counts hwf) (sortedGraph_targets hwf) rank
  intro source _ target hedge
  obtain ⟨edge, hmem, rfl, rfl⟩ := (mem_sortedGraph hwf source target).mp hedge
  exact hrank edge hmem

theorem topologicalNodes_nodup : (topologicalNodes workflow).Nodup :=
  (topologicalNodes_perm hwf).nodup_iff.mpr hwf.nodup

theorem mem_topologicalNodes (node : String) :
    node ∈ topologicalNodes workflow ↔ node ∈ workflow.nodeIds :=
  (topologicalNodes_perm hwf).mem_iff

/-- The source of every edge stands before its target. -/
theorem topologicalNodes_before {pre post : List String} {node : String}
    (heq : topologicalNodes workflow = pre ++ node :: post) {edge : Edge}
    (hedge : edge ∈ workflow.edges) (htarget : edge.target.node = node) :
    edge.source.node ∈ pre := by
  obtain ⟨-, -, htop, -⟩ := Worklist.order_spec pushSorted_perm sortedStrings_perm
    hwf.nodup (sortedGraph_counts hwf) (sortedGraph_targets hwf)
  apply htop pre node post heq _ (hwf.sources edge hedge)
  exact (mem_sortedGraph hwf _ _).mpr ⟨edge, hedge, rfl, htarget⟩

end TopologicalNodes

end QhpcEcosystem
