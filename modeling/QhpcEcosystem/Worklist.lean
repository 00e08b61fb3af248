/-
Kahn's algorithm over an arbitrary node type, with an arbitrary discipline for
the list of ready nodes: a first-in first-out queue and a sorted list are both
instances.  The adjacency and the indegrees are built from a list of edges that
may repeat.
-/
import Mathlib.Data.List.Nodup
import Mathlib.Data.List.Perm.Subperm

namespace QhpcEcosystem

universe u

namespace Worklist

variable {α : Type u} [DecidableEq α]

/-! ## Adjacency and indegrees -/

/-- Successor lists and the number of distinct predecessors. -/
structure Graph (α : Type u) where
  adjacency : α → List α
  indegree : α → Nat

def Graph.empty : Graph α := ⟨fun _ => [], fun _ => 0⟩

/-- Record an edge once: a parallel edge changes nothing. -/
def Graph.addEdge (graph : Graph α) (edge : α × α) : Graph α :=
  if edge.2 ∈ graph.adjacency edge.1 then graph
  else
    { adjacency := fun node =>
        if node = edge.1 then graph.adjacency node ++ [edge.2] else graph.adjacency node
      indegree := fun node =>
        if node = edge.2 then graph.indegree node + 1 else graph.indegree node }

def Graph.ofEdges (edges : List (α × α)) : Graph α :=
  edges.foldl Graph.addEdge Graph.empty

/-- The number of listed nodes that have `target` among their successors. -/
def inDegreeIn (nodes : List α) (adjacency : α → List α) (target : α) : Nat :=
  nodes.countP fun node => decide (target ∈ adjacency node)

/-- What building a graph maintains: successor lists without repetition and
indegrees that count the sources among the known nodes. -/
structure Graph.Counts (graph : Graph α) (nodes : List α) : Prop where
  adjacencyNodup : ∀ node, (graph.adjacency node).Nodup
  indegreeEq : ∀ target, graph.indegree target = inDegreeIn nodes graph.adjacency target

theorem Graph.mem_addEdge (graph : Graph α) (edge : α × α) (source target : α) :
    target ∈ (graph.addEdge edge).adjacency source ↔
      target ∈ graph.adjacency source ∨ (source, target) = edge := by
  obtain ⟨from', to'⟩ := edge
  unfold Graph.addEdge
  split
  · next hmem =>
      constructor
      · exact Or.inl
      · rintro (h | h)
        · exact h
        · cases h
          exact hmem
  · by_cases hsource : source = from'
    · subst hsource
      simp
    · simp [hsource]

theorem countP_insert_of_mem {nodes : List α} (hnodup : nodes.Nodup) {node : α}
    (hmem : node ∈ nodes) (p : α → Bool) (hp : p node = false) :
    nodes.countP (fun other => decide (other = node) || p other) =
      nodes.countP p + 1 := by
  induction nodes with
  | nil => cases hmem
  | cons head tail ih =>
      obtain ⟨hhead, htail⟩ := List.nodup_cons.mp hnodup
      rcases List.mem_cons.mp hmem with rfl | hmemTail
      · have hcongr : tail.countP (fun other => decide (other = node) || p other) =
            tail.countP p := by
          apply List.countP_congr
          intro other hother
          have hne : other ≠ node := fun h => hhead (h ▸ hother)
          simp [hne]
        rw [List.countP_cons, List.countP_cons, hcongr]
        simp [hp]
      · have hne : head ≠ node := fun h => hhead (h ▸ hmemTail)
        simp only [List.countP_cons, ih htail hmemTail, hne, decide_false, Bool.false_or]
        omega

theorem Graph.Counts.addEdge {graph : Graph α} {nodes : List α}
    (hcounts : graph.Counts nodes) (hnodup : nodes.Nodup) {edge : α × α}
    (hsource : edge.1 ∈ nodes) : (graph.addEdge edge).Counts nodes := by
  obtain ⟨source, target⟩ := edge
  unfold Graph.addEdge
  split
  · exact hcounts
  · next hfresh =>
      simp only at hfresh hsource
      constructor
      · intro node
        by_cases hnode : node = source
        · subst hnode
          have hdisjoint : ∀ other ∈ graph.adjacency node, other ≠ target :=
            fun other hother h => hfresh (h ▸ hother)
          simpa [List.nodup_append', hcounts.adjacencyNodup node, List.disjoint_left]
            using hfresh
        · simpa [hnode] using hcounts.adjacencyNodup node
      · intro node
        by_cases hnode : node = target
        · subst hnode
          have hcount := countP_insert_of_mem hnodup hsource
            (fun other => decide (node ∈ graph.adjacency other)) (by simpa using hfresh)
          simp only [if_true, hcounts.indegreeEq, inDegreeIn, ← hcount]
          apply List.countP_congr
          intro other _
          by_cases hother : other = source
          · simp [hother]
          · simp [hother]
        · simp only [hnode, if_false, hcounts.indegreeEq, inDegreeIn]
          apply List.countP_congr
          intro other _
          by_cases hother : other = source
          · simp [hother, hnode]
          · simp [hother]

theorem Graph.Counts.empty (nodes : List α) : (Graph.empty : Graph α).Counts nodes :=
  ⟨fun _ => List.nodup_nil, fun _ => by simp [Graph.empty, inDegreeIn]⟩

theorem Graph.foldl_addEdge {nodes : List α} (hnodup : nodes.Nodup)
    (edges : List (α × α)) (hsources : ∀ edge ∈ edges, edge.1 ∈ nodes) (graph : Graph α)
    (hcounts : graph.Counts nodes) :
    (edges.foldl Graph.addEdge graph).Counts nodes ∧
      ∀ source target, target ∈ (edges.foldl Graph.addEdge graph).adjacency source ↔
        target ∈ graph.adjacency source ∨ (source, target) ∈ edges := by
  induction edges generalizing graph with
  | nil => simpa using hcounts
  | cons edge rest ih =>
      have hstep := hcounts.addEdge hnodup (hsources edge List.mem_cons_self)
      obtain ⟨hfinal, hmem⟩ := ih
        (fun other hother => hsources other (List.mem_cons_of_mem _ hother)) _ hstep
      refine ⟨hfinal, fun source target => ?_⟩
      rw [List.foldl_cons, hmem, Graph.mem_addEdge, List.mem_cons, or_assoc]

theorem Graph.ofEdges_counts {nodes : List α} (hnodup : nodes.Nodup)
    {edges : List (α × α)} (hsources : ∀ edge ∈ edges, edge.1 ∈ nodes) :
    (Graph.ofEdges edges).Counts nodes :=
  (Graph.foldl_addEdge hnodup edges hsources _ (Graph.Counts.empty nodes)).1

theorem Graph.mem_ofEdges {nodes : List α} (hnodup : nodes.Nodup)
    {edges : List (α × α)} (hsources : ∀ edge ∈ edges, edge.1 ∈ nodes)
    (source target : α) :
    target ∈ (Graph.ofEdges edges).adjacency source ↔ (source, target) ∈ edges := by
  rw [Graph.ofEdges,
    (Graph.foldl_addEdge hnodup edges hsources _ (Graph.Counts.empty nodes)).2]
  simp [Graph.empty]

/-! ## The loop -/

/-- The mutable state of the loop. -/
structure State (α : Type u) where
  indegree : α → Nat
  ready : List α
  ordered : List α

/-- `indegree[target] -= 1; if indegree[target] == 0: ready.append(target)`,
with `push` for the append. -/
def release (push : List α → α → List α) (state : State α) (target : α) : State α :=
  let degree := state.indegree target - 1
  { state with
    indegree := fun node => if node = target then degree else state.indegree node
    ready := if degree = 0 then push state.ready target else state.ready }

/-- Take a node out of the ready list and release its successors. -/
def visit (push : List α → α → List α) (adjacency : α → List α) (state : State α)
    (node : α) (rest : List α) : State α :=
  (adjacency node).foldl (release push)
    { state with ready := rest, ordered := state.ordered ++ [node] }

/-- `while ready`, for at most `fuel` rounds. -/
def kahn (push : List α → α → List α) (adjacency : α → List α) :
    Nat → State α → State α
  | 0, state => state
  | fuel + 1, state =>
      match state.ready with
      | [] => state
      | node :: rest => kahn push adjacency fuel (visit push adjacency state node rest)

/-- The loop of a graph, started at the nodes without predecessors. -/
def order (push : List α → α → List α) (sort : List α → List α) (nodes : List α)
    (graph : Graph α) : List α :=
  (kahn push graph.adjacency nodes.length
    { indegree := graph.indegree
      ready := sort (nodes.filter fun node => graph.indegree node = 0)
      ordered := [] }).ordered

/-- A list in which every predecessor of an entry stands before it. -/
def Topological (nodes : List α) (adjacency : α → List α) (ordered : List α) : Prop :=
  ∀ pre node post, ordered = pre ++ node :: post →
    ∀ source ∈ nodes, node ∈ adjacency source → source ∈ pre

/-- Predecessors of `target` that are not in `ordered` yet. -/
def pending (nodes : List α) (adjacency : α → List α) (ordered : List α) (target : α) :
    Nat :=
  nodes.countP fun node => decide (target ∈ adjacency node) && decide (node ∉ ordered)

section Loop

variable {push : List α → α → List α} {adjacency : α → List α} {nodes : List α}

theorem foldl_release_indegree (targets : List α) (hnodup : targets.Nodup)
    (state : State α) (node : α) :
    (targets.foldl (release push) state).indegree node =
      if node ∈ targets then state.indegree node - 1 else state.indegree node := by
  induction targets generalizing state with
  | nil => simp
  | cons target rest ih =>
      obtain ⟨hfresh, hrest⟩ := List.nodup_cons.mp hnodup
      rw [List.foldl_cons, ih hrest]
      by_cases heq : node = target
      · subst heq
        simp [hfresh, release]
      · simp [release, heq]

theorem foldl_release_ordered (targets : List α) (state : State α) :
    (targets.foldl (release push) state).ordered = state.ordered := by
  induction targets generalizing state with
  | nil => rfl
  | cons target rest ih => rw [List.foldl_cons, ih, release]

theorem foldl_release_ready (hpush : ∀ ready node, (push ready node).Perm (node :: ready))
    (targets : List α) (hnodup : targets.Nodup) (state : State α) :
    (targets.foldl (release push) state).ready.Perm
      (targets.filter (fun node => state.indegree node - 1 = 0) ++ state.ready) := by
  induction targets generalizing state with
  | nil => simp
  | cons target rest ih =>
      obtain ⟨hfresh, hrest⟩ := List.nodup_cons.mp hnodup
      have hfilter : rest.filter (fun node =>
            (release push state target).indegree node - 1 = 0) =
          rest.filter (fun node => state.indegree node - 1 = 0) := by
        apply List.filter_congr
        intro node hnode
        have hne : node ≠ target := fun h => hfresh (h ▸ hnode)
        simp [release, hne]
      rw [List.foldl_cons]
      refine (ih hrest _).trans ?_
      rw [hfilter]
      by_cases hzero : state.indegree target - 1 = 0
      · have hready : (release push state target).ready = push state.ready target := by
          simp [release, hzero]
        rw [hready, List.filter_cons_of_pos (by simpa using hzero)]
        exact ((hpush _ _).append_left _).trans List.perm_middle
      · have hready : (release push state target).ready = state.ready := by
          simp [release, hzero]
        rw [hready, List.filter_cons_of_neg (by simpa using hzero)]

/-- What every round of the loop maintains. -/
structure Inv (nodes : List α) (adjacency : α → List α) (state : State α) : Prop where
  subset : ∀ node ∈ state.ordered ++ state.ready, node ∈ nodes
  nodup : (state.ordered ++ state.ready).Nodup
  indegree : ∀ target, state.indegree target =
    pending nodes adjacency state.ordered target
  settled : ∀ node ∈ nodes, node ∈ state.ordered ++ state.ready ↔
    state.indegree node = 0
  topological : Topological nodes adjacency state.ordered

theorem pending_eq_zero_iff {ordered : List α} {target : α} :
    pending nodes adjacency ordered target = 0 ↔
      ∀ source ∈ nodes, target ∈ adjacency source → source ∈ ordered := by
  simp [pending, List.countP_eq_zero]

theorem pending_append {ordered : List α} (hnodup : nodes.Nodup) {node : α}
    (hnode : node ∈ nodes) (hfresh : node ∉ ordered) (target : α) :
    pending nodes adjacency (ordered ++ [node]) target =
      if target ∈ adjacency node then pending nodes adjacency ordered target - 1
      else pending nodes adjacency ordered target := by
  by_cases hmem : target ∈ adjacency node
  · have hcount := countP_insert_of_mem hnodup hnode
      (fun other => decide (target ∈ adjacency other) &&
        decide (other ∉ ordered ++ [node])) (by simp)
    have heq : pending nodes adjacency ordered target =
        pending nodes adjacency (ordered ++ [node]) target + 1 := by
      rw [pending, pending, ← hcount]
      apply List.countP_congr
      intro other _
      by_cases hother : other = node
      · subst hother
        simp [hmem, hfresh]
      · simp [hother]
    simp [hmem, heq]
  · simp only [hmem, if_false, pending]
    apply List.countP_congr
    intro other _
    by_cases hother : other = node
    · subst hother
      simp [hmem]
    · simp [hother]

omit [DecidableEq α] in
/-- What holds of every entry and the entries before it, one entry further. -/
theorem prefixes_snoc {P : List α → α → Prop} {ordered : List α} {node : α}
    (h : ∀ pre other post, ordered = pre ++ other :: post → P pre other)
    (hnode : P ordered node) (pre : List α) (other : α) (post : List α)
    (heq : ordered ++ [node] = pre ++ other :: post) : P pre other := by
  rcases List.eq_nil_or_concat post with rfl | ⟨init, last, rfl⟩
  · obtain ⟨rfl, hlast⟩ := List.append_inj' heq rfl
    cases hlast
    exact hnode
  · have heq' : ordered ++ [node] = (pre ++ other :: init) ++ [last] := by
      simpa using heq
    obtain ⟨rfl, -⟩ := List.append_inj' heq' rfl
    exact h pre other init rfl

omit [DecidableEq α] in
theorem Topological.snoc {ordered : List α} {node : α}
    (htop : Topological nodes adjacency ordered)
    (hnode : ∀ source ∈ nodes, node ∈ adjacency source → source ∈ ordered) :
    Topological nodes adjacency (ordered ++ [node]) :=
  prefixes_snoc htop hnode

/-- A released node was waiting for the visited node alone. -/
theorem Inv.waiting {state : State α} (hinv : Inv nodes adjacency state) {node target : α}
    (hnode : node ∈ nodes) (hfresh : node ∉ state.ordered)
    (htarget : target ∈ adjacency node) : state.indegree target ≠ 0 := by
  rw [hinv.indegree]
  intro hzero
  exact hfresh (pending_eq_zero_iff.mp hzero node hnode htarget)

/-- One round keeps the invariant. -/
theorem Inv.visit {state : State α} (hinv : Inv nodes adjacency state)
    (hnodes : nodes.Nodup) (hpush : ∀ ready node, (push ready node).Perm (node :: ready))
    (hadj : ∀ node, (adjacency node).Nodup)
    (htargets : ∀ node, ∀ target ∈ adjacency node, target ∈ nodes)
    {node : α} {rest : List α} (hready : state.ready = node :: rest) :
    Inv nodes adjacency (Worklist.visit push adjacency state node rest) := by
  have hnode : node ∈ nodes := hinv.subset node (by simp [hready])
  have hsplit := hinv.nodup
  rw [hready] at hsplit
  have hfresh : node ∉ state.ordered := by
    intro hmem
    exact (List.nodup_append'.mp hsplit).2.2 hmem List.mem_cons_self
  let released := (adjacency node).filter fun target => state.indegree target - 1 = 0
  have hmemReleased : ∀ target, target ∈ released ↔
      target ∈ adjacency node ∧ state.indegree target - 1 = 0 := by
    simp [released]
  have hnotSettled : ∀ target ∈ adjacency node, target ∉ state.ordered ++ state.ready := by
    intro target htarget hmem
    exact hinv.waiting hnode hfresh htarget
      ((hinv.settled target (htargets node target htarget)).mp hmem)
  have hordered : (Worklist.visit push adjacency state node rest).ordered =
      state.ordered ++ [node] := foldl_release_ordered _ _
  have hperm : (Worklist.visit push adjacency state node rest).ready.Perm
      (released ++ rest) := foldl_release_ready hpush _ (hadj node) _
  have hindegree : ∀ target, (Worklist.visit push adjacency state node rest).indegree target =
      if target ∈ adjacency node then state.indegree target - 1
      else state.indegree target := fun target =>
    foldl_release_indegree _ (hadj node) _ target
  have hwhole : ((Worklist.visit push adjacency state node rest).ordered ++
      (Worklist.visit push adjacency state node rest).ready).Perm
      (released ++ (state.ordered ++ state.ready)) := by
    rw [hordered, hready]
    refine (hperm.append_left _).trans ?_
    have : state.ordered ++ [node] ++ (released ++ rest) =
        (state.ordered ++ [node]) ++ released ++ rest := by simp
    rw [this]
    refine (List.perm_append_comm.append_right rest).trans ?_
    simp
  constructor
  · intro target hmem
    rw [hwhole.mem_iff, List.mem_append, hmemReleased] at hmem
    rcases hmem with ⟨htarget, -⟩ | hold
    · exact htargets node target htarget
    · exact hinv.subset target hold
  · rw [hwhole.nodup_iff, List.nodup_append']
    refine ⟨(hadj node).filter _, hinv.nodup, ?_⟩
    intro target hreleased hold
    exact hnotSettled target ((hmemReleased target).mp hreleased).1 hold
  · intro target
    rw [hindegree, hordered, pending_append hnodes hnode hfresh, hinv.indegree]
  · intro target htarget
    rw [hwhole.mem_iff, List.mem_append, hmemReleased, hindegree,
      hinv.settled target htarget]
    by_cases hmem : target ∈ adjacency node
    · have hpos := hinv.waiting hnode hfresh hmem
      simp [hmem, hpos]
    · simp [hmem]
  · rw [hordered]
    apply hinv.topological.snoc
    have hzero := (hinv.settled node hnode).mp (by simp [hready])
    rw [hinv.indegree] at hzero
    exact pending_eq_zero_iff.mp hzero

/-- Every round orders one node, so as many rounds as there are nodes empty the
ready list. -/
theorem kahn_spec (hnodes : nodes.Nodup)
    (hpush : ∀ ready node, (push ready node).Perm (node :: ready))
    (hadj : ∀ node, (adjacency node).Nodup)
    (htargets : ∀ node, ∀ target ∈ adjacency node, target ∈ nodes)
    (fuel : Nat) (state : State α) (hinv : Inv nodes adjacency state)
    (hfuel : nodes.length ≤ fuel + state.ordered.length) :
    Inv nodes adjacency (kahn push adjacency fuel state) ∧
      (kahn push adjacency fuel state).ready = [] := by
  induction fuel generalizing state with
  | zero =>
      refine ⟨hinv, ?_⟩
      have hlength := (hinv.nodup.subperm fun node h => hinv.subset node h).length_le
      rw [List.length_append] at hlength
      exact List.length_eq_zero_iff.mp (by simp only [kahn]; omega)
  | succ fuel ih =>
      rw [kahn]
      cases hready : state.ready with
      | nil => exact ⟨hinv, hready⟩
      | cons node rest =>
          apply ih _ (hinv.visit hnodes hpush hadj htargets hready)
          rw [visit, foldl_release_ordered]
          simp only [List.length_append, List.length_singleton]
          omega

end Loop

/-! ## The order of a graph -/

section Order

variable {push : List α → α → List α} {sort : List α → List α}
  {nodes : List α} {graph : Graph α}

theorem Inv.start (hsort : ∀ ready, (sort ready).Perm ready) (hnodes : nodes.Nodup)
    (hcounts : graph.Counts nodes) :
    Inv nodes graph.adjacency
      { indegree := graph.indegree
        ready := sort (nodes.filter fun node => graph.indegree node = 0)
        ordered := [] } := by
  have hperm := hsort (nodes.filter fun node => graph.indegree node = 0)
  constructor
  · intro node hnode
    simp only [List.nil_append, hperm.mem_iff, List.mem_filter] at hnode
    exact hnode.1
  · simpa using hperm.nodup_iff.mpr (hnodes.filter _)
  · intro target
    simp [pending, hcounts.indegreeEq, inDegreeIn]
  · intro node hnode
    simp [hperm.mem_iff, hnode]
  · intro pre node post heq
    simp at heq

variable (hpush : ∀ ready node, (push ready node).Perm (node :: ready))
  (hsort : ∀ ready, (sort ready).Perm ready) (hnodes : nodes.Nodup)
  (hcounts : graph.Counts nodes)
  (htargets : ∀ node, ∀ target ∈ graph.adjacency node, target ∈ nodes)

include hpush hsort hnodes hcounts htargets

theorem order_spec : (order push sort nodes graph).Nodup ∧
    (∀ node ∈ order push sort nodes graph, node ∈ nodes) ∧
    Topological nodes graph.adjacency (order push sort nodes graph) ∧
    ∀ target ∈ nodes, target ∉ order push sort nodes graph →
      ∃ source ∈ nodes, source ∉ order push sort nodes graph ∧
        target ∈ graph.adjacency source := by
  obtain ⟨hinv, hempty⟩ := kahn_spec hnodes hpush hcounts.adjacencyNodup htargets
    nodes.length _ (Inv.start hsort hnodes hcounts) (by simp)
  have hnodup := hinv.nodup
  have hsubset := hinv.subset
  rw [hempty, List.append_nil] at hnodup hsubset
  refine ⟨hnodup, hsubset, hinv.topological, ?_⟩
  intro target htarget hfresh
  by_contra hnone
  push Not at hnone
  have hzero := (hinv.settled target htarget).mpr (by
    rw [hinv.indegree, pending_eq_zero_iff]
    intro source hsource hedge
    by_contra hmissing
    exact hnone source hsource hmissing hedge)
  rw [hempty, List.append_nil] at hzero
  exact hfresh hzero

/-- A rank that increases along every edge makes the order a permutation of
the nodes. -/
theorem order_perm (rank : α → Nat)
    (hrank : ∀ source ∈ nodes, ∀ target ∈ graph.adjacency source, rank source < rank target) :
    (order push sort nodes graph).Perm nodes := by
  obtain ⟨hnodup, hsubset, -, hstuck⟩ := order_spec hpush hsort hnodes hcounts htargets
  have hall : ∀ bound, ∀ target ∈ nodes, rank target < bound →
      target ∈ order push sort nodes graph := by
    intro bound
    induction bound with
    | zero => intro target _ hlt; omega
    | succ bound ih =>
        intro target htarget hlt
        by_contra hfresh
        obtain ⟨source, hsource, hmissing, hedge⟩ := hstuck target htarget hfresh
        have hless := hrank source hsource target hedge
        exact hmissing (ih source hsource (by omega))
  apply (List.perm_ext_iff_of_nodup hnodup hnodes).mpr
  intro node
  exact ⟨hsubset node, fun hnode => hall _ node hnode (Nat.lt_succ_self _)⟩

/-- If as many nodes come out as there are, the position in the order is a
rank that increases along every edge. -/
theorem order_rank (hlength : (order push sort nodes graph).length = nodes.length)
    {source target : α} (hsource : source ∈ nodes)
    (hedge : target ∈ graph.adjacency source) :
    (order push sort nodes graph).idxOf source < (order push sort nodes graph).idxOf target := by
  obtain ⟨hnodup, hsubset, htop, -⟩ := order_spec hpush hsort hnodes hcounts htargets
  have hperm : (order push sort nodes graph).Perm nodes :=
    (hnodup.subperm fun node h => hsubset node h).perm_of_length_le (by omega)
  have htarget := hperm.mem_iff.mpr (htargets source target hedge)
  obtain ⟨pre, post, heq⟩ := List.append_of_mem htarget
  have hbefore := htop pre target post heq source hsource hedge
  have hnotPre : target ∉ pre := by
    rw [heq] at hnodup
    intro hmem
    exact (List.nodup_append'.mp hnodup).2.2 hmem List.mem_cons_self
  rw [heq, List.idxOf_append_of_mem hbefore, List.idxOf_append_of_notMem hnotPre]
  have := List.idxOf_lt_length_of_mem hbefore
  omega

end Order

end Worklist

end QhpcEcosystem
