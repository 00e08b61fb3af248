/-
What the checks of a workflow's edges report: a cycle exactly when the edges between
distinct known nodes have one, and the self-edges and unknown endpoints for exactly the
edges that have them.
-/
import QhpcEcosystem.JsObjects
import QhpcEcosystem.WorkflowGraph
import QhpcEcosystem.WorklistOrder

namespace QhpcEcosystem

/-- The ends of an edge, as the path of an issue names them. -/
inductive EdgeEnd where
  | source
  | target
deriving DecidableEq, Repr

def EdgeEnd.name : EdgeEnd → String
  | .source => "from"
  | .target => "to"

def Edge.endNode (edge : Edge) : EdgeEnd → String
  | .source => edge.source.node
  | .target => edge.target.node

def edgePath (index : Nat) : String :=
  "/spec/edges/" ++ toString index

def cycleIssue : ContractIssue :=
  ⟨"/spec/edges", "workflow graph must be acyclic"⟩

def selfEdgeIssue (index : Nat) : ContractIssue :=
  ⟨edgePath index, "self-edges are not allowed"⟩

def unknownEndIssue (index : Nat) (edgeEnd : EdgeEnd) (node : String) : ContractIssue :=
  ⟨edgePath index ++ ("/" ++ edgeEnd.name ++ "/node"), "references unknown node " ++ node⟩

/-- The graph of the cycle check. -/
def Workflow.Precedes (workflow : Workflow) (source target : String) : Prop :=
  ∃ edge ∈ workflow.edges, edge.source.node = source ∧ edge.target.node = target ∧
    source ≠ target ∧ source ∈ workflow.nodeIds ∧ target ∈ workflow.nodeIds

/-- The work list of the cycle check after some rounds. -/
def Workflow.workList (workflow : Workflow) (rounds : Nat) : List String :=
  let graph := Worklist.Graph.ofEdges workflow.graphEdges
  (Worklist.kahn pushBack graph.adjacency rounds
    { indegree := graph.indegree
      ready := workflow.nodeIds.filter fun node => graph.indegree node = 0
      ordered := [] }).ready

section Cycles

variable {workflow : Workflow}

theorem mem_graphEdges_iff {source target : String} :
    (source, target) ∈ workflow.graphEdges ↔ workflow.Precedes source target := by
  simp only [Workflow.graphEdges, Workflow.Precedes, List.mem_map, List.mem_filter,
    decide_eq_true_eq, Edge.ends, Prod.mk.injEq]
  constructor
  · rintro ⟨edge, ⟨hedge, hne, hsource, htarget⟩, rfl, rfl⟩
    exact ⟨edge, hedge, rfl, rfl, hne, hsource, htarget⟩
  · rintro ⟨edge, hedge, rfl, rfl, hne, hsource, htarget⟩
    exact ⟨edge, ⟨hedge, hne, hsource, htarget⟩, rfl, rfl⟩

variable (hnodup : workflow.nodeIds.Nodup)

include hnodup

theorem graphEdges_counts :
    (Worklist.Graph.ofEdges workflow.graphEdges).Counts workflow.nodeIds :=
  Worklist.Graph.ofEdges_counts hnodup fun _ hmem => (graphEdges_known hmem).1

theorem mem_graphEdges_adjacency (source target : String) :
    target ∈ (Worklist.Graph.ofEdges workflow.graphEdges).adjacency source ↔
      (source, target) ∈ workflow.graphEdges :=
  Worklist.Graph.mem_ofEdges hnodup (fun _ hmem => (graphEdges_known hmem).1) source target

/-- Every node is visited exactly when the graph has no cycle. -/
theorem visitedNodes_length_iff :
    workflow.visitedNodes.length = workflow.nodeIds.length ↔
      ∀ node, ¬ Relation.TransGen workflow.Precedes node node := by
  have hiff := Worklist.order_length_iff pushBack_perm (fun _ => List.Perm.refl _) hnodup
    (graphEdges_counts hnodup) (mem_graphEdges_adjacency hnodup)
    (fun _ hmem => graphEdges_known hmem)
  simp only [mem_graphEdges_iff] at hiff
  exact hiff

theorem workList_stops {rounds : Nat} (hrounds : workflow.nodeIds.length ≤ rounds) :
    workflow.workList rounds = [] :=
  Worklist.order_stops pushBack_perm (fun _ => List.Perm.refl _) hnodup
    (graphEdges_counts hnodup)
    (fun _ _ htarget => (graphEdges_known ((mem_graphEdges_adjacency hnodup _ _).mp htarget)).2)
    hrounds

end Cycles

/-! ## The texts of the issues -/

theorem ne_of_head {first second : String} (h : first.toList.head? ≠ second.toList.head?) :
    first ≠ second :=
  fun heq => h (heq ▸ rfl)

theorem edgePath_injective : Function.Injective edgePath := by
  intro i j heq
  exact toString_nat_injective ((String.append_right_inj _).mp heq)

theorem endPath_injective {i j : Nat} {edgeEnd edgeEnd' : EdgeEnd}
    (h : edgePath i ++ ("/" ++ edgeEnd.name ++ "/node") =
      edgePath j ++ ("/" ++ edgeEnd'.name ++ "/node")) : i = j ∧ edgeEnd = edgeEnd' := by
  have hend : edgeEnd = edgeEnd' := by
    -- the names of the ends differ in their last letter
    have hletter : ∀ k (e : EdgeEnd), (edgePath k ++ ("/" ++ e.name ++ "/node")).toList.reverse[5]? =
        e.name.toList.reverse[0]? := by
      intro k e
      cases e <;> simp [EdgeEnd.name]
    have hletters := congrArg (fun path => path.toList.reverse[5]?) h
    simp only [hletter] at hletters
    revert hletters
    cases edgeEnd <;> cases edgeEnd' <;> decide
  subst hend
  exact ⟨edgePath_injective ((String.append_left_inj _).mp h), rfl⟩

theorem unknownMessage_ne (node message : String)
    (h : message.toList.head? ≠ some 'r') : "references unknown node " ++ node ≠ message := by
  refine ne_of_head fun heq => h ?_
  rw [← heq, String.toList_append]
  rfl

/-! ## The issues of one edge -/

section Edges

variable {known : List String} {edge : Edge} {index place : Nat}

theorem mem_unknownNodeIssue {path node : String} {issue : ContractIssue} :
    issue ∈ unknownNodeIssue known path node ↔
      node ∉ known ∧ issue = ⟨path, "references unknown node " ++ node⟩ := by
  unfold unknownNodeIssue
  split <;> simp_all

theorem mem_edgeIssues {issue : ContractIssue} : issue ∈ edgeIssues known edge index ↔
    (∃ edgeEnd, edge.endNode edgeEnd ∉ known ∧
      issue = unknownEndIssue index edgeEnd (edge.endNode edgeEnd)) ∨
    (edge.source.artifactType ≠ edge.target.artifactType ∧
      issue = ⟨edgePath index, "edge artifact types must match exactly"⟩) ∨
    (edge.source.node = edge.target.node ∧ issue = selfEdgeIssue index) := by
  have hends : (∃ edgeEnd, edge.endNode edgeEnd ∉ known ∧
      issue = unknownEndIssue index edgeEnd (edge.endNode edgeEnd)) ↔
        (edge.endNode .source ∉ known ∧
          issue = unknownEndIssue index .source (edge.endNode .source)) ∨
        (edge.endNode .target ∉ known ∧
          issue = unknownEndIssue index .target (edge.endNode .target)) := by
    constructor
    · rintro ⟨edgeEnd, h⟩
      cases edgeEnd with
      | source => exact .inl h
      | target => exact .inr h
    · rintro (h | h)
      · exact ⟨_, h⟩
      · exact ⟨_, h⟩
  rw [hends, edgeIssues, List.mem_append, List.mem_append, List.mem_append,
    mem_unknownNodeIssue, mem_unknownNodeIssue]
  simp only [List.mem_ite_nil_right, List.mem_singleton]
  exact or_assoc.trans (or_congr Iff.rfl Iff.rfl)

theorem selfEdge_mem_edgeIssues : selfEdgeIssue place ∈ edgeIssues known edge index ↔
    index = place ∧ edge.source.node = edge.target.node := by
  rw [mem_edgeIssues]
  constructor
  · rintro (⟨edgeEnd, -, heq⟩ | ⟨-, heq⟩ | ⟨hself, heq⟩)
    · exact absurd (congrArg ContractIssue.message heq).symm
        (unknownMessage_ne _ "self-edges are not allowed" (by decide))
    · exact absurd (congrArg ContractIssue.message heq) (by simp [selfEdgeIssue])
    · exact ⟨(edgePath_injective (congrArg ContractIssue.path heq)).symm, hself⟩
  · rintro ⟨rfl, hself⟩
    exact .inr (.inr ⟨hself, rfl⟩)

theorem unknownEnd_mem_edgeIssues {edgeEnd : EdgeEnd} {node : String} :
    unknownEndIssue place edgeEnd node ∈ edgeIssues known edge index ↔
      index = place ∧ edge.endNode edgeEnd = node ∧ node ∉ known := by
  rw [mem_edgeIssues]
  constructor
  · rintro (⟨edgeEnd', hunknown, heq⟩ | ⟨-, heq⟩ | ⟨-, heq⟩)
    · obtain ⟨rfl, rfl⟩ := endPath_injective (congrArg ContractIssue.path heq)
      obtain rfl := (String.append_right_inj _).mp (congrArg ContractIssue.message heq)
      exact ⟨rfl, rfl, hunknown⟩
    · exact absurd (congrArg ContractIssue.message heq)
        (unknownMessage_ne _ "edge artifact types must match exactly" (by decide))
    · exact absurd (congrArg ContractIssue.message heq)
        (unknownMessage_ne _ "self-edges are not allowed" (by decide))
  · rintro ⟨rfl, rfl, hunknown⟩
    exact .inl ⟨edgeEnd, hunknown, rfl⟩

theorem cycleIssue_not_mem_edgeIssues : cycleIssue ∉ edgeIssues known edge index := by
  rw [mem_edgeIssues]
  rintro (⟨edgeEnd, -, heq⟩ | ⟨-, heq⟩ | ⟨-, heq⟩)
  · exact absurd (congrArg ContractIssue.message heq).symm
      (unknownMessage_ne _ "workflow graph must be acyclic" (by decide))
  · exact absurd (congrArg ContractIssue.message heq) (by simp [cycleIssue])
  · exact absurd (congrArg ContractIssue.message heq) (by simp [cycleIssue, selfEdgeIssue])

end Edges

/-! ## The issues of a workflow -/

section Workflows

variable {workflow : Workflow}

theorem mem_validateWorkflow (hnodup : workflow.nodeIds.Nodup) {issue : ContractIssue} :
    issue ∈ validateWorkflow workflow ↔
      (∃ index edge, workflow.edges[index]? = some edge ∧
        issue ∈ edgeIssues workflow.nodeIds edge index) ∨
      (∃ item ∈ workflow.inputs.rows, item.2.target.node ∉ workflow.nodeIds ∧
        issue = ⟨"/spec/inputs/" ++ item.1 ++ "/to/node",
          "references unknown node " ++ item.2.target.node⟩) ∨
      (∃ item ∈ workflow.outputs.rows, item.2.source.node ∉ workflow.nodeIds ∧
        issue = ⟨"/spec/outputs/" ++ item.1 ++ "/from/node",
          "references unknown node " ++ item.2.source.node⟩) ∨
      (workflow.visitedNodes.length ≠ workflow.nodeIds.length ∧ issue = cycleIssue) := by
  have hedges : issue ∈ workflow.edges.zipIdx.flatMap
      (fun item => edgeIssues workflow.nodeIds item.1 item.2) ↔
        ∃ index edge, workflow.edges[index]? = some edge ∧
          issue ∈ edgeIssues workflow.nodeIds edge index := by
    simp only [List.mem_flatMap, Prod.exists, List.mk_mem_zipIdx_iff_getElem?]
    exact exists_comm
  rw [validateWorkflow, duplicateIssues_of_nodup hnodup, List.nil_append]
  simp only [List.mem_append, hedges, List.mem_flatMap, mem_unknownNodeIssue, hnodup.dedup,
    List.mem_ite_nil_right, List.mem_singleton, true_and, or_assoc]
  rfl

/-- An issue that is neither at a workflow port nor the cycle is at an edge. -/
theorem mem_validateWorkflow_edge (hnodup : workflow.nodeIds.Nodup) (index : Nat)
    (rest : String) {message : String} (hmessage : message ≠ cycleIssue.message) :
    ⟨edgePath index ++ rest, message⟩ ∈ validateWorkflow workflow ↔
      ∃ place edge, workflow.edges[place]? = some edge ∧
        ⟨edgePath index ++ rest, message⟩ ∈ edgeIssues workflow.nodeIds edge place := by
  rw [mem_validateWorkflow hnodup]
  constructor
  · rintro (hedge | ⟨item, -, -, heq⟩ | ⟨item, -, -, heq⟩ | ⟨-, heq⟩)
    · exact hedge
    · have hletter := congrArg (fun path => path.toList[6]?) (congrArg ContractIssue.path heq)
      simp [edgePath] at hletter
    · have hletter := congrArg (fun path => path.toList[6]?) (congrArg ContractIssue.path heq)
      simp [edgePath] at hletter
    · exact absurd (congrArg ContractIssue.message heq) hmessage
  · exact .inl

theorem cycleIssue_mem_iff (hnodup : workflow.nodeIds.Nodup) :
    cycleIssue ∈ validateWorkflow workflow ↔
      ∃ node, Relation.TransGen workflow.Precedes node node := by
  have hiff : (∃ node, Relation.TransGen workflow.Precedes node node) ↔
      workflow.visitedNodes.length ≠ workflow.nodeIds.length := by
    rw [ne_eq, visitedNodes_length_iff hnodup, not_forall_not]
  rw [hiff, mem_validateWorkflow hnodup]
  constructor
  · rintro (⟨_, _, -, hedge⟩ | ⟨item, -, -, heq⟩ | ⟨item, -, -, heq⟩ | ⟨hlength, -⟩)
    · exact absurd hedge cycleIssue_not_mem_edgeIssues
    · exact absurd (congrArg ContractIssue.message heq).symm
        (unknownMessage_ne _ "workflow graph must be acyclic" (by decide))
    · exact absurd (congrArg ContractIssue.message heq).symm
        (unknownMessage_ne _ "workflow graph must be acyclic" (by decide))
    · exact hlength
  · exact fun hlength => .inr (.inr (.inr ⟨hlength, rfl⟩))

end Workflows

/-- For a workflow with distinct nodes, the cycle is reported exactly when there is one, a
self-edge and an unknown endpoint for exactly the edges that have them, and the work-list
loop stops after at most as many rounds as there are nodes. -/
theorem cycle_detection_exact {workflow : Workflow} (hnodup : workflow.nodeIds.Nodup) :
    (cycleIssue ∈ validateWorkflow workflow ↔
      ∃ node, Relation.TransGen workflow.Precedes node node) ∧
    (∀ index, selfEdgeIssue index ∈ validateWorkflow workflow ↔
      ∃ edge, workflow.edges[index]? = some edge ∧ edge.source.node = edge.target.node) ∧
    (∀ index edgeEnd node, unknownEndIssue index edgeEnd node ∈ validateWorkflow workflow ↔
      ∃ edge, workflow.edges[index]? = some edge ∧ edge.endNode edgeEnd = node ∧
        node ∉ workflow.nodeIds) ∧
    ∀ rounds, workflow.nodeIds.length ≤ rounds → workflow.workList rounds = [] := by
  refine ⟨cycleIssue_mem_iff hnodup, fun index => ?_, fun index edgeEnd node => ?_,
    fun rounds hrounds => workList_stops hnodup hrounds⟩
  · have hmessage : "self-edges are not allowed" ≠ cycleIssue.message := by decide
    have hiff := mem_validateWorkflow_edge hnodup index "" hmessage
    rw [String.append_empty] at hiff
    refine hiff.trans ⟨?_, ?_⟩
    · rintro ⟨place, edge, hedge, hmem⟩
      obtain ⟨rfl, hself⟩ := selfEdge_mem_edgeIssues.mp hmem
      exact ⟨edge, hedge, hself⟩
    · rintro ⟨edge, hedge, hself⟩
      exact ⟨index, edge, hedge, selfEdge_mem_edgeIssues.mpr ⟨rfl, hself⟩⟩
  · refine (mem_validateWorkflow_edge hnodup index _
      (unknownMessage_ne node "workflow graph must be acyclic" (by decide))).trans ⟨?_, ?_⟩
    · rintro ⟨place, edge, hedge, hmem⟩
      obtain ⟨rfl, hnode, hunknown⟩ := unknownEnd_mem_edgeIssues.mp hmem
      exact ⟨edge, hedge, hnode, hunknown⟩
    · rintro ⟨edge, hedge, hnode, hunknown⟩
      exact ⟨index, edge, hedge, unknownEnd_mem_edgeIssues.mpr ⟨rfl, hnode, hunknown⟩⟩

/-- An edge without ports between two nodes. -/
def bareEdge (source target : String) : Edge :=
  ⟨⟨source, "", ""⟩, ⟨target, "", ""⟩⟩

/-- A cycle of two nodes, a self-edge and an edge from an unknown node. -/
def loopWorkflow : Workflow where
  id := "loop"
  version := "1.0.0"
  nodes := [{ id := "a", operation := ⟨"", "", ""⟩ }, { id := "b", operation := ⟨"", "", ""⟩ }]
  nonempty := by simp
  edges := [bareEdge "a" "b", bareEdge "b" "a", bareEdge "a" "a", bareEdge "c" "b"]
  inputs := Table.empty
  outputs := Table.empty

theorem cycle_detection_exact_loop : cycleIssue ∈ validateWorkflow loopWorkflow ∧
    selfEdgeIssue 2 ∈ validateWorkflow loopWorkflow ∧
    unknownEndIssue 3 .source "c" ∈ validateWorkflow loopWorkflow ∧
    loopWorkflow.workList 2 = [] := by
  obtain ⟨hcycle, hself, hunknown, hstops⟩ :=
    cycle_detection_exact (show loopWorkflow.nodeIds.Nodup by decide)
  refine ⟨hcycle.mpr ⟨"a", ?_⟩, (hself 2).mpr ⟨_, rfl, rfl⟩,
    (hunknown 3 .source "c").mpr ⟨_, rfl, rfl, by decide⟩, hstops 2 (by decide)⟩
  have hto : loopWorkflow.Precedes "a" "b" :=
    ⟨bareEdge "a" "b", by simp [loopWorkflow], rfl, rfl, by decide, by decide, by decide⟩
  have hback : loopWorkflow.Precedes "b" "a" :=
    ⟨bareEdge "b" "a", by simp [loopWorkflow], rfl, rfl, by decide, by decide, by decide⟩
  exact .tail (.single hto) hback

end QhpcEcosystem
