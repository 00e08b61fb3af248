/-
The topological order of a workflow.  It is the lexicographically smallest of the orders
in which every source stands before its target, so it is a function of the sets of nodes
and of edge ends; and the tasks of every run are numbered by it.
-/
import QhpcEcosystem.RunMeaning
import QhpcEcosystem.WorklistOrder

namespace QhpcEcosystem

/-- An order of all nodes in which the source of every edge stands before its target. -/
structure Workflow.IsOrder (workflow : Workflow) (order : List String) : Prop where
  perm : order.Perm workflow.nodeIds
  before : ∀ edge ∈ workflow.edges,
    order.idxOf edge.source.node < order.idxOf edge.target.node

section Orders

variable {workflow : Workflow} {order : List String}

theorem sortedStrings_pairwise (values : List String) :
    (sortedStrings values).Pairwise (· ≤ ·) :=
  List.pairwise_insertionSort _ values

theorem eq_or_less (first second : String) (h : first ≤ second) :
    first = second ∨ first < second := by
  by_cases hback : second ≤ first
  · exact .inl (String.le_antisymm h hback)
  · exact .inr (String.not_le.mp hback)

theorem Workflow.IsOrder.nodup (h : workflow.IsOrder order) (hwf : workflow.WellFormed) :
    order.Nodup :=
  h.perm.nodup_iff.mpr hwf.nodup

theorem Workflow.IsOrder.topological (h : workflow.IsOrder order) (hwf : workflow.WellFormed) :
    Worklist.Topological workflow.nodeIds workflow.sortedGraph.adjacency order := by
  intro pre node post heq source hsource hadjacent
  obtain ⟨edge, hedge, rfl, rfl⟩ := (mem_sortedGraph hwf source node).mp hadjacent
  have hnodup := h.nodup hwf
  have hfresh : edge.target.node ∉ pre := by
    rw [heq] at hnodup
    exact fun hmem => (List.nodup_append'.mp hnodup).2.2 hmem List.mem_cons_self
  have hbefore := h.before edge hedge
  by_contra hmissing
  rw [heq, List.idxOf_append_of_notMem hmissing, List.idxOf_append_of_notMem hfresh,
    List.idxOf_cons_self] at hbefore
  omega

theorem topologicalNodes_isOrder (hwf : workflow.WellFormed) :
    workflow.IsOrder (topologicalNodes workflow) := by
  refine ⟨topologicalNodes_perm hwf, fun edge hedge => ?_⟩
  exact Worklist.order_rank pushSorted_perm sortedStrings_perm hwf.nodup (sortedGraph_counts hwf)
    (sortedGraph_targets hwf) (topologicalNodes_perm hwf).length_eq (hwf.sources edge hedge)
    ((mem_sortedGraph hwf _ _).mpr ⟨edge, hedge, rfl, rfl⟩)

theorem topologicalNodes_smallest (hwf : workflow.WellFormed) (horder : workflow.IsOrder order) :
    topologicalNodes workflow = order ∨ List.Lex (· < ·) (topologicalNodes workflow) order := by
  have hgreedy := Worklist.order_greedy String.le_refl pushSorted_perm
    (fun ready node => sortedStrings_pairwise (ready ++ [node])) sortedStrings_perm
    sortedStrings_pairwise hwf.nodup (sortedGraph_counts hwf) (sortedGraph_targets hwf)
  have hlength : (topologicalNodes workflow).length ≤ order.length :=
    ((topologicalNodes_perm hwf).trans horder.perm.symm).length_eq.le
  exact hgreedy.smallest eq_or_less hlength (horder.nodup hwf) (fun node => horder.perm.mem_iff.mp)
    (horder.topological hwf)

/-- Workflows with the same nodes and the same ends of edges have the same orders. -/
theorem Workflow.IsOrder.congr {other : Workflow} (hwf : workflow.WellFormed)
    (hother : other.WellFormed)
    (hnodes : ∀ node, node ∈ other.nodeIds ↔ node ∈ workflow.nodeIds)
    (hedges : ∀ ends, ends ∈ other.edges.map Edge.ends ↔ ends ∈ workflow.edges.map Edge.ends)
    (h : workflow.IsOrder order) : other.IsOrder order := by
  have hperm : workflow.nodeIds.Perm other.nodeIds :=
    (List.perm_ext_iff_of_nodup hwf.nodup hother.nodup).mpr fun node => (hnodes node).symm
  refine ⟨h.perm.trans hperm, fun edge hedge => ?_⟩
  obtain ⟨edge', hedge', hends⟩ :=
    List.mem_map.mp ((hedges edge.ends).mp (List.mem_map_of_mem hedge))
  obtain ⟨hsource, htarget⟩ := Prod.mk.inj hends
  rw [← hsource, ← htarget]
  exact h.before edge' hedge'

theorem topologicalNodes_congr {other : Workflow} (hwf : workflow.WellFormed)
    (hother : other.WellFormed)
    (hnodes : ∀ node, node ∈ other.nodeIds ↔ node ∈ workflow.nodeIds)
    (hedges : ∀ ends, ends ∈ other.edges.map Edge.ends ↔ ends ∈ workflow.edges.map Edge.ends) :
    topologicalNodes other = topologicalNodes workflow := by
  have hto := (topologicalNodes_isOrder hwf).congr hwf hother hnodes hedges
  have hback := (topologicalNodes_isOrder hother).congr hother hwf
    (fun node => (hnodes node).symm) fun ends => (hedges ends).symm
  rcases topologicalNodes_smallest hother hto with heq | hless
  · exact heq
  · rcases topologicalNodes_smallest hwf hback with heq | hmore
    · exact heq.symm
    · exact absurd hmore (Std.Asymm.asymm _ _ hless)

end Orders

/-! ## The sequence of the tasks -/

/-- The sequence number of a task is the place of its node in the order. -/
def Db.TaskPlaced (db : Db) (task : Task) : Prop :=
  ∀ run, db.run? task.runId = some run → ∀ row,
    db.workflowVersions.row? (run.workflowId, run.workflowVersion) = some row →
    (topologicalNodes row.definition)[task.sequence]? = some task.nodeId

section Sequence

variable {db db' : Db} {now : Time} {operation : Operation}

theorem Db.TaskPlaced.step (hstep : db.Transition now operation db') (hintegrity : db.Integrity)
    (h : ∀ task ∈ db.tasks.rows, db.TaskPlaced task) :
    ∀ task ∈ db'.tasks.rows, db'.TaskPlaced task := by
  intro task' htask' run' hrun' row hrow
  obtain ⟨task, htask, hsameRun, hsameNode, hchange⟩ | ⟨run, tasks, hadds, hadded⟩ :=
    hstep.taskChanges.new task' htask'
  · obtain ⟨run, hrun⟩ := hintegrity.taskRun task htask
    rw [hsameRun] at hrun'
    rw [hstep.version_of_run hintegrity hrun hrun'] at hrow
    rw [hsameNode, hchange.sequence_eq]
    exact h task htask run hrun row hrow
  · have hnodes := (hstep.submits_of_added hadds hadded hrun' hrow).nodes
    have hplace : (task'.nodeId, task'.sequence) ∈ (topologicalNodes row.definition).zipIdx := by
      rw [← hnodes]
      exact List.mem_map_of_mem hadded
    exact List.mk_mem_zipIdx_iff_getElem?.mp hplace

theorem engine_placed {guard : Db → Operation × Time → Prop} (hreach : engine.Reachable guard db) :
    ∀ task ∈ db.tasks.rows, db.TaskPlaced task := by
  refine @engine_invariant (fun db => ∀ task ∈ db.tasks.rows, db.TaskPlaced task) _ db
    (fun _ htask => (by cases htask)) ?_ hreach
  exact fun _ _ _ _ hreach h _ hstep => Db.TaskPlaced.step hstep (engine_integrity hreach) h

end Sequence

open TransitionSystem in
/-- The topological order of an accepted workflow is the smallest order of its nodes in which
every source stands before its target; it is the same for every accepted workflow with the
same nodes and ends of edges, and every run has one task for each of its places and is
numbered by it, so that the numbers increase along every edge. -/
theorem topological_order_canonical {workflow : Workflow} (h : validateWorkflow workflow = []) :
    workflow.IsOrder (topologicalNodes workflow) ∧
    (∀ order, workflow.IsOrder order → topologicalNodes workflow = order ∨
      List.Lex (· < ·) (topologicalNodes workflow) order) ∧
    (∀ other, validateWorkflow other = [] →
      (∀ node, node ∈ other.nodeIds ↔ node ∈ workflow.nodeIds) →
      (∀ ends, ends ∈ other.edges.map Edge.ends ↔ ends ∈ workflow.edges.map Edge.ends) →
      topologicalNodes other = topologicalNodes workflow) ∧
    ∀ db, engine.Reachable anyStep db → ∀ run ∈ db.runs.rows,
      db.definition? run.id = some workflow →
      (∀ task ∈ db.tasks.rows, task.runId = run.id →
        (topologicalNodes workflow)[task.sequence]? = some task.nodeId) ∧
      (∀ (place : Nat) (nodeId : String), (topologicalNodes workflow)[place]? = some nodeId →
        ∃ task ∈ db.tasks.rows, task.runId = run.id ∧ task.nodeId = nodeId ∧
          task.sequence = place) ∧
      ∀ edge ∈ workflow.edges, ∀ source ∈ db.tasks.rows, ∀ target ∈ db.tasks.rows,
        source.runId = run.id → target.runId = run.id → source.nodeId = edge.source.node →
        target.nodeId = edge.target.node → source.sequence < target.sequence := by
  have hwf := wellFormed_of_validateWorkflow h
  refine ⟨topologicalNodes_isOrder hwf, fun order => topologicalNodes_smallest hwf,
    fun other hother => topologicalNodes_congr hwf (wellFormed_of_validateWorkflow hother),
    fun db hreach run hrun hdefinition => ?_⟩
  have hnodes := (engine_integrity hreach).nodes run hrun workflow hdefinition
  obtain ⟨found, row, hfound, hrow, rfl⟩ := Db.definition?_eq_some.mp hdefinition
  have hplaced : ∀ task ∈ db.tasks.rows, task.runId = run.id →
      (topologicalNodes row.definition)[task.sequence]? = some task.nodeId := by
    intro task htask hrun
    exact engine_placed hreach task htask found (by rw [hrun, hfound]) row hrow
  have hplace : ∀ task ∈ db.tasks.rows, task.runId = run.id →
      (topologicalNodes row.definition).idxOf task.nodeId = task.sequence := by
    intro task htask hrun
    obtain ⟨hlt, heq⟩ := List.getElem?_eq_some_iff.mp (hplaced task htask hrun)
    rw [← heq]
    exact List.Nodup.idxOf_getElem (topologicalNodes_nodup hwf) task.sequence hlt
  refine ⟨hplaced, fun place nodeId hnode => ?_, fun edge hedge source hsource target htarget
    hsourceRun htargetRun hsourceNode htargetNode => ?_⟩
  · have hmem := (topologicalNodes_perm hwf).mem_iff.mp (List.mem_of_getElem? hnode)
    obtain ⟨task, htask⟩ := hnodes nodeId hmem
    obtain ⟨hrows, hkey⟩ := Table.row?_eq_some_iff.mp htask
    obtain ⟨hrunId, hnodeId⟩ := Prod.mk.inj hkey
    obtain ⟨hlt, heq⟩ := List.getElem?_eq_some_iff.mp hnode
    refine ⟨task, hrows, hrunId, hnodeId, ?_⟩
    rw [← hplace task hrows hrunId, hnodeId, ← heq]
    exact List.Nodup.idxOf_getElem (topologicalNodes_nodup hwf) place hlt
  · rw [← hplace source hsource hsourceRun, ← hplace target htarget htargetRun, hsourceNode,
      htargetNode]
    exact (topologicalNodes_isOrder hwf).before edge hedge

open TransitionSystem in
/-- The order of the chain, and the tasks of its run. -/
theorem topological_order_canonical_chain :
    (chainWorkflow.IsOrder (topologicalNodes chainWorkflow) ∧
      topologicalNodes chainWorkflow = ["a", "b"]) ∧
    ∃ db run, engine.Reachable anyStep db ∧ run ∈ db.runs.rows ∧
      (∃ task ∈ db.tasks.rows, task.runId = run.id ∧ task.nodeId = "b" ∧ task.sequence = 1) ∧
      ∀ edge ∈ chainWorkflow.edges, ∀ source ∈ db.tasks.rows, ∀ target ∈ db.tasks.rows,
        source.runId = run.id → target.runId = run.id → source.nodeId = edge.source.node →
        target.nodeId = edge.target.node → source.sequence < target.sequence := by
  have hcanonical := @topological_order_canonical chainWorkflow (by decide)
  refine ⟨⟨hcanonical.1, by decide⟩, ?_⟩
  have hempty : engine.Reachable (fun _ _ => true = true) {} := .initial rfl
  have hreach := (hempty.after chainSubmission).unguarded
  obtain ⟨run, hrun⟩ := Option.isSome_iff_exists.mp (show ((engine.after (fun _ _ => true) {}
    chainSubmission).run? 0).isSome = true by decide)
  have hid : run.id = 0 := Table.key_of_row? hrun
  have hmem := Table.mem_of_row? hrun
  have htasks := hcanonical.2.2.2 _ hreach run hmem (by rw [hid]; rfl)
  exact ⟨_, run, hreach, hmem, htasks.2.1 1 "b" (by decide), htasks.2.2⟩

end QhpcEcosystem
