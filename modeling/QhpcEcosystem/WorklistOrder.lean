/-
When the work-list loop orders every node, and which order it gives: it misses nodes
exactly when the graph has a cycle, and with a sorted ready list its order is the
lexicographically smallest of all topological orders.
-/
import QhpcEcosystem.PathSearch
import QhpcEcosystem.Worklist
import Mathlib.Data.List.Lex

namespace QhpcEcosystem

universe u

namespace Worklist

variable {α : Type u}

/-! ## Cycles -/

theorem rank_lt_of_path {r : α → α → Prop} {rank : α → Nat}
    (hrank : ∀ source target, r source target → rank source < rank target) {a b : α}
    (hpath : Relation.TransGen r a b) : rank a < rank b := by
  induction hpath with
  | single hstep => exact hrank _ _ hstep
  | tail _ hstep ih => exact ih.trans (hrank _ _ hstep)

section Cycles

variable [DecidableEq α] {push : List α → α → List α} {sort : List α → List α}
  {nodes : List α} {graph : Graph α} {edges : List (α × α)}

/-- The loop orders every node exactly when no node is on a cycle. -/
theorem order_length_iff (hpush : ∀ ready node, (push ready node).Perm (node :: ready))
    (hsort : ∀ ready, (sort ready).Perm ready) (hnodes : nodes.Nodup)
    (hcounts : graph.Counts nodes)
    (hedges : ∀ source target, target ∈ graph.adjacency source ↔ (source, target) ∈ edges)
    (hknown : ∀ edge ∈ edges, edge.1 ∈ nodes ∧ edge.2 ∈ nodes) :
    (order push sort nodes graph).length = nodes.length ↔
      ∀ node, ¬ Relation.TransGen (fun source target => (source, target) ∈ edges) node node := by
  have htargets : ∀ node, ∀ target ∈ graph.adjacency node, target ∈ nodes :=
    fun node target htarget => (hknown _ ((hedges node target).mp htarget)).2
  constructor
  · intro hlength node hcycle
    have hrank : ∀ source target, (source, target) ∈ edges →
        (order push sort nodes graph).idxOf source < (order push sort nodes graph).idxOf target :=
      fun source target hstep => order_rank hpush hsort hnodes hcounts htargets hlength
        (hknown _ hstep).1 ((hedges source target).mpr hstep)
    exact lt_irrefl _ (rank_lt_of_path hrank hcycle)
  · intro hacyclic
    obtain ⟨rank, hrank⟩ := PathSearch.exists_rank edges hacyclic
    refine (order_perm hpush hsort hnodes hcounts htargets rank ?_).length_eq
    intro source _ target htarget
    exact hrank _ ((hedges source target).mp htarget)

/-- The loop stops: with at least as many rounds as nodes the ready list is empty. -/
theorem order_stops (hpush : ∀ ready node, (push ready node).Perm (node :: ready))
    (hsort : ∀ ready, (sort ready).Perm ready) (hnodes : nodes.Nodup)
    (hcounts : graph.Counts nodes)
    (htargets : ∀ node, ∀ target ∈ graph.adjacency node, target ∈ nodes) {fuel : Nat}
    (hfuel : nodes.length ≤ fuel) :
    (kahn push graph.adjacency fuel
      { indegree := graph.indegree
        ready := sort (nodes.filter fun node => graph.indegree node = 0)
        ordered := [] }).ready = [] :=
  (kahn_spec hnodes hpush hcounts.adjacencyNodup htargets fuel _
    (Inv.start hsort hnodes hcounts) (by simpa using hfuel)).2

end Cycles

/-! ## The smallest order -/

/-- Every entry is the least of the nodes that could stand in its place. -/
def Greedy (le : α → α → Prop) (nodes : List α) (adjacency : α → List α) (ordered : List α) :
    Prop :=
  ∀ pre node post, ordered = pre ++ node :: post → ∀ other ∈ nodes, other ∉ pre →
    (∀ source ∈ nodes, other ∈ adjacency source → source ∈ pre) → le node other

section Smallest

variable {le lt : α → α → Prop} {push : List α → α → List α} {sort : List α → List α}
  {nodes : List α} {adjacency : α → List α} {graph : Graph α}

/-- A greedy order is the smallest of the topological orders of the same nodes. -/
theorem Greedy.smallest (hlt : ∀ a b, le a b → a = b ∨ lt a b) {ordered other : List α}
    (hgreedy : Greedy le nodes adjacency ordered)
    (hlength : ordered.length ≤ other.length) (hnodup : other.Nodup)
    (hsubset : ∀ node ∈ other, node ∈ nodes) (htop : Topological nodes adjacency other) :
    ordered = other ∨ List.Lex lt ordered other := by
  have hsuffix : ∀ (rest pre rest' : List α), ordered = pre ++ rest → other = pre ++ rest' →
      rest = rest' ∨ List.Lex lt rest rest' := by
    intro rest
    induction rest with
    | nil => exact fun _ rest' _ _ => (List.lex_nil_or_eq_nil rest').symm.imp Eq.symm id
    | cons node rest ih =>
        intro pre rest' hordered hother
        cases rest' with
        | nil =>
            rw [hordered, hother] at hlength
            simp only [List.length_append, List.length_cons, List.length_nil] at hlength
            omega
        | cons node' rest' =>
            have hfresh : node' ∉ pre := by
              rw [hother] at hnodup
              exact fun hmem => (List.nodup_append'.mp hnodup).2.2 hmem List.mem_cons_self
            have hle := hgreedy pre node rest hordered node'
              (hsubset node' (by simp [hother])) hfresh (htop pre node' rest' hother)
            rcases hlt _ _ hle with rfl | hless
            case inr => exact .inr (.rel hless)
            · rcases ih (pre ++ [node]) rest' (by simpa using hordered) (by simpa using hother)
                with rfl | hlex
              · exact .inl rfl
              · exact .inr (.cons hlex)
  exact hsuffix ordered [] other rfl rfl

variable [DecidableEq α]

theorem foldl_release_sorted (hpush : ∀ ready node, (push ready node).Pairwise le)
    (targets : List α) (state : State α) (hready : state.ready.Pairwise le) :
    (targets.foldl (release push) state).ready.Pairwise le := by
  induction targets generalizing state with
  | nil => exact hready
  | cons target rest ih =>
      refine ih _ ?_
      unfold release
      simp only
      split
      · exact hpush state.ready target
      · exact hready

/-- A round that takes the least ready node keeps the order greedy. -/
theorem Greedy.visit (hrefl : ∀ a, le a a) {state : State α} (hinv : Inv nodes adjacency state)
    (hgreedy : Greedy le nodes adjacency state.ordered) (hready : state.ready.Pairwise le)
    {node : α} {rest : List α} (hnode : state.ready = node :: rest) :
    Greedy le nodes adjacency (Worklist.visit push adjacency state node rest).ordered := by
  rw [Worklist.visit, foldl_release_ordered]
  refine prefixes_snoc hgreedy fun other hother hfresh hsources => ?_
  have hzero : state.indegree other = 0 := by
    rw [hinv.indegree]
    exact pending_eq_zero_iff.mpr hsources
  have hmem : other ∈ state.ready :=
    (List.mem_append.mp ((hinv.settled other hother).mpr hzero)).resolve_left hfresh
  rw [hnode] at hmem hready
  rcases List.mem_cons.mp hmem with rfl | hrest
  · exact hrefl _
  · exact List.rel_of_pairwise_cons hready hrest

theorem kahn_greedy (hrefl : ∀ a, le a a) (hnodes : nodes.Nodup)
    (hpush : ∀ ready node, (push ready node).Perm (node :: ready))
    (hsorted : ∀ ready node, (push ready node).Pairwise le)
    (hadj : ∀ node, (adjacency node).Nodup)
    (htargets : ∀ node, ∀ target ∈ adjacency node, target ∈ nodes)
    (fuel : Nat) (state : State α) (hinv : Inv nodes adjacency state)
    (hgreedy : Greedy le nodes adjacency state.ordered) (hready : state.ready.Pairwise le) :
    Greedy le nodes adjacency (kahn push adjacency fuel state).ordered := by
  induction fuel generalizing state with
  | zero => exact hgreedy
  | succ fuel ih =>
      rw [kahn]
      cases hnode : state.ready with
      | nil => exact hgreedy
      | cons node rest =>
          refine ih _ (hinv.visit hnodes hpush hadj htargets hnode)
            (hgreedy.visit hrefl hinv hready hnode) (foldl_release_sorted hsorted _ _ ?_)
          rw [hnode] at hready
          exact hready.of_cons

theorem order_greedy (hrefl : ∀ a, le a a)
    (hpush : ∀ ready node, (push ready node).Perm (node :: ready))
    (hsorted : ∀ ready node, (push ready node).Pairwise le)
    (hsort : ∀ ready, (sort ready).Perm ready)
    (hsortSorted : ∀ ready, (sort ready).Pairwise le) (hnodes : nodes.Nodup)
    (hcounts : graph.Counts nodes)
    (htargets : ∀ node, ∀ target ∈ graph.adjacency node, target ∈ nodes) :
    Greedy le nodes graph.adjacency (order push sort nodes graph) := by
  refine kahn_greedy hrefl hnodes hpush hsorted hcounts.adjacencyNodup htargets _ _
    (Inv.start hsort hnodes hcounts) ?_ (hsortSorted _)
  intro pre node post heq
  simp at heq

end Smallest

end Worklist

end QhpcEcosystem
