/-
Depth-first search for a path in a graph given by the list of its edges.  The pending
nodes are a stack; nodes that are skipped are neither entered nor found.  Every edge is
followed at most once, which bounds the number of rounds.
-/
import Mathlib.Data.List.Basic
import Mathlib.Logic.Relation
import Mathlib.Data.Finset.Card

namespace QhpcEcosystem

namespace PathSearch

universe u

variable {α : Type u} [DecidableEq α] (edges : List (α × α)) (skip : α → Bool)

/-- The targets of the edges of a node, in the order of the edges. -/
def successors (node : α) : List α :=
  (edges.filter fun edge => edge.1 = node).map Prod.snd

/-- The rounds of the search; the stack has its top first. -/
def search (target : α) : Nat → List α → List α → Bool
  | 0, _, _ => false
  | _ + 1, [], _ => false
  | fuel + 1, node :: pending, visited =>
      if skip node ∨ node ∈ visited then search target fuel pending visited
      else if node = target then true
      else search target fuel ((successors edges node).reverse ++ pending) (node :: visited)

def pathExists (start target : α) : Bool :=
  search edges skip target (edges.length + 1) [start] []

/-- An edge to a node that is not skipped. -/
def Step (a b : α) : Prop := (a, b) ∈ edges ∧ skip b = false

/-- The edges whose source has not been visited. -/
def unfollowed (visited : List α) : List (α × α) :=
  edges.filter fun edge => edge.1 ∉ visited

variable {edges skip}

theorem mem_successors {a b : α} : b ∈ successors edges a ↔ (a, b) ∈ edges := by
  simp only [successors, List.mem_map, List.mem_filter, decide_eq_true_eq]
  constructor
  · rintro ⟨⟨source, target⟩, ⟨hedge, rfl⟩, rfl⟩
    exact hedge
  · exact fun hedge => ⟨(a, b), ⟨hedge, rfl⟩, rfl⟩

/-- Visiting a node follows its edges. -/
theorem length_unfollowed {node : α} {visited : List α} (hnode : node ∉ visited) :
    (unfollowed edges visited).length =
      (successors edges node).length + (unfollowed edges (node :: visited)).length := by
  simp only [unfollowed, successors, List.length_map]
  induction edges with
  | nil => rfl
  | cons edge rest ih =>
      by_cases hsource : edge.1 = node
      · simp only [List.filter_cons, hsource, hnode, List.mem_cons, true_or, not_true_eq_false,
          not_false_eq_true, decide_true, decide_false, if_true, Bool.false_eq_true, if_false,
          List.length_cons, ih]
        omega
      · by_cases hvisited : edge.1 ∈ visited
        · simp only [List.filter_cons, hsource, hvisited, List.mem_cons, or_true,
            not_true_eq_false, decide_false, Bool.false_eq_true, if_false, ih]
        · simp only [List.filter_cons, hsource, hvisited, List.mem_cons, or_false,
            not_false_eq_true, decide_true, decide_false, if_true, Bool.false_eq_true, if_false,
            List.length_cons, ih]
          omega

/-- What the search finds is reached from a pending node. -/
theorem search_sound {target : α} {fuel : Nat} {pending visited : List α}
    (h : search edges skip target fuel pending visited = true) :
    ∃ node ∈ pending, skip node = false ∧
      Relation.ReflTransGen (Step edges skip) node target := by
  induction fuel generalizing pending visited with
  | zero => cases h
  | succ fuel ih =>
      cases pending with
      | nil => cases h
      | cons node rest =>
          rw [search] at h
          split at h
          · obtain ⟨found, hfound, hskip, hpath⟩ := ih h
            exact ⟨found, List.mem_cons_of_mem _ hfound, hskip, hpath⟩
          · next hnew =>
              have hskip : skip node = false := by
                simpa using fun hskip : skip node = true => hnew (.inl hskip)
              split at h
              · next heq => exact ⟨node, List.mem_cons_self, hskip, heq ▸ .refl⟩
              · obtain ⟨found, hfound, hskip', hpath⟩ := ih h
                rcases List.mem_append.mp hfound with hnext | hrest
                · rw [List.mem_reverse, mem_successors] at hnext
                  exact ⟨node, List.mem_cons_self, hskip, .head ⟨hnext, hskip'⟩ hpath⟩
                · exact ⟨found, List.mem_cons_of_mem _ hrest, hskip', hpath⟩

/-- A search that ends without its target has closed the pending nodes under the steps. -/
theorem search_complete {target : α} {fuel : Nat} {pending visited : List α}
    (hfuel : pending.length + (unfollowed edges visited).length ≤ fuel)
    (hclosed : ∀ a ∈ visited, ∀ b, Step edges skip a b → b ∈ visited ∨ b ∈ pending)
    (htarget : target ∉ visited)
    (h : search edges skip target fuel pending visited = false) :
    ∃ closed : List α, visited ⊆ closed ∧ (∀ node ∈ pending, skip node = false → node ∈ closed) ∧
      (∀ a ∈ closed, ∀ b, Step edges skip a b → b ∈ closed) ∧ target ∉ closed := by
  induction fuel generalizing pending visited with
  | zero =>
      obtain rfl : pending = [] := List.length_eq_zero_iff.mp (by omega)
      exact ⟨visited, List.Subset.refl _, nofun,
        fun a ha b hab => (hclosed a ha b hab).resolve_right List.not_mem_nil, htarget⟩
  | succ fuel ih =>
      cases pending with
      | nil =>
          exact ⟨visited, List.Subset.refl _, nofun,
            fun a ha b hab => (hclosed a ha b hab).resolve_right List.not_mem_nil, htarget⟩
      | cons node rest =>
          rw [search] at h
          rw [List.length_cons] at hfuel
          split at h
          · next hold =>
              have hrest : ∀ a ∈ visited, ∀ b, Step edges skip a b → b ∈ visited ∨ b ∈ rest := by
                intro a ha b hab
                rcases hclosed a ha b hab with hb | hb
                · exact .inl hb
                · rcases List.mem_cons.mp hb with rfl | hb
                  · rcases hold with hskip | hvisited
                    · rw [hab.2] at hskip
                      cases hskip
                    · exact .inl hvisited
                  · exact .inr hb
              obtain ⟨closed, hsub, hpending, hsteps, hout⟩ := ih (by omega) hrest htarget h
              refine ⟨closed, hsub, fun a ha hskip => ?_, hsteps, hout⟩
              rcases List.mem_cons.mp ha with rfl | ha
              · rcases hold with hskip' | hvisited
                · rw [hskip] at hskip'
                  cases hskip'
                · exact hsub hvisited
              · exact hpending a ha hskip
          · next hnew =>
              obtain ⟨-, hvisited⟩ := not_or.mp hnew
              split at h
              · cases h
              · next hne =>
                  have hlength : (unfollowed edges visited).length =
                      (successors edges node).length +
                        (unfollowed edges (node :: visited)).length := length_unfollowed hvisited
                  have hnext : ∀ a ∈ node :: visited, ∀ b, Step edges skip a b →
                      b ∈ node :: visited ∨ b ∈ (successors edges node).reverse ++ rest := by
                    intro a ha b hab
                    rcases List.mem_cons.mp ha with rfl | ha
                    · refine .inr (List.mem_append_left _ ?_)
                      rw [List.mem_reverse, mem_successors]
                      exact hab.1
                    · rcases hclosed a ha b hab with hb | hb
                      · exact .inl (List.mem_cons_of_mem _ hb)
                      · rcases List.mem_cons.mp hb with rfl | hb
                        · exact .inl List.mem_cons_self
                        · exact .inr (List.mem_append_right _ hb)
                  obtain ⟨closed, hsub, hpending, hsteps, hout⟩ := ih
                    (by rw [List.length_append, List.length_reverse]; omega) hnext
                    (fun hmem => (List.mem_cons.mp hmem).elim (fun heq => hne heq.symm) htarget) h
                  refine ⟨closed, fun a ha => hsub (List.mem_cons_of_mem _ ha),
                    fun a ha hskip => ?_, hsteps, hout⟩
                  rcases List.mem_cons.mp ha with rfl | ha
                  · exact hsub List.mem_cons_self
                  · exact hpending a (List.mem_append_right _ ha) hskip

/-- The search decides whether a path leads from the start to the target. -/
theorem pathExists_iff {start target : α} :
    pathExists edges skip start target = true ↔
      skip start = false ∧ Relation.ReflTransGen (Step edges skip) start target := by
  constructor
  · intro h
    obtain ⟨node, hnode, hskip, hpath⟩ := search_sound h
    obtain rfl := List.mem_singleton.mp hnode
    exact ⟨hskip, hpath⟩
  · rintro ⟨hskip, hpath⟩
    by_contra hnone
    have hfuel : [start].length + (unfollowed edges []).length ≤ edges.length + 1 := by
      have hle := List.length_filter_le (fun edge : α × α => edge.1 ∉ []) edges
      simp only [unfollowed, List.length_singleton]
      omega
    obtain ⟨closed, -, hstart, hsteps, hout⟩ := search_complete hfuel nofun List.not_mem_nil
      (by simpa [pathExists] using hnone)
    have hreached : ∀ node, Relation.ReflTransGen (Step edges skip) start node →
        node ∈ closed := by
      intro node hnode
      induction hnode with
      | refl => exact hstart start (List.mem_singleton_self _) hskip
      | tail _ hstep ih => exact hsteps _ ih _ hstep
    exact hout (hreached target hpath)

/-! ## Cycles -/

omit [DecidableEq α] in
/-- A path meets a node or stays between other nodes. -/
theorem path_meets_or_avoids {R : α → α → Prop} (node : α) {a b : α} (ha : a ≠ node)
    (hpath : Relation.ReflTransGen R a b) :
    Relation.ReflTransGen (fun x y => R x y ∧ y ≠ node) a b ∨
      (Relation.TransGen R a node ∧ Relation.ReflTransGen R node b) := by
  induction hpath with
  | refl => exact .inl .refl
  | @tail x y hpath hstep ih =>
      rcases ih with havoids | ⟨hto, hfrom⟩
      · by_cases hy : y = node
        · subst hy
          exact .inr ⟨.tail' hpath hstep, .refl⟩
        · exact .inl (havoids.tail ⟨hstep, hy⟩)
      · exact .inr ⟨hto, hfrom.tail hstep⟩

omit [DecidableEq α] in
/-- A path to a node can leave out a step from that node. -/
theorem path_without_step {R : α → α → Prop} {a target : α} (b : α)
    (hpath : Relation.ReflTransGen R a target) :
    Relation.ReflTransGen (fun x y => R x y ∧ ¬ (x = target ∧ y = b)) a target := by
  induction hpath using Relation.ReflTransGen.head_induction_on with
  | refl => exact .refl
  | @head x y hstep _ ih =>
      by_cases hx : x = target
      · subst hx
        exact .refl
      · exact ih.head ⟨hstep, fun hsame => hx hsame.1⟩

omit [DecidableEq α] in
/-- The nodes of a finite graph without a cycle are ranked along its edges. -/
theorem exists_rank (edges : List (α × α))
    (hacyclic : ∀ a, ¬ Relation.TransGen (fun x y => (x, y) ∈ edges) a a) :
    ∃ rank : α → Nat, ∀ edge ∈ edges, rank edge.1 < rank edge.2 := by
  classical
  let before (a : α) : Finset α := (edges.map Prod.fst).toFinset.filter fun x =>
    Relation.TransGen (fun x y => (x, y) ∈ edges) x a
  refine ⟨fun a => (before a).card, fun edge hedge => Finset.card_lt_card ?_⟩
  have hstep : Relation.TransGen (fun x y => (x, y) ∈ edges) edge.1 edge.2 := .single hedge
  refine Finset.ssubset_iff_of_subset ?_ |>.mpr ⟨edge.1, ?_, ?_⟩
  · intro x hx
    obtain ⟨hsource, hpath⟩ := Finset.mem_filter.mp hx
    exact Finset.mem_filter.mpr ⟨hsource, hpath.trans hstep⟩
  · exact Finset.mem_filter.mpr ⟨List.mem_toFinset.mpr (List.mem_map_of_mem hedge), hstep⟩
  · exact fun hself => hacyclic edge.1 (Finset.mem_filter.mp hself).2

end PathSearch

end QhpcEcosystem
