/-
Breadth-first orders of a directed graph.  Nodes are discovered together with their distance
from a source; those that have been expanded stand in front of those that wait.  Discovering
one node and leaving one behind keep the order, which covers every smaller distance.
-/
import Mathlib.Data.ENat.Basic
import Mathlib.Data.List.Nodup
import Mathlib.Data.List.Perm.Subperm
import Mathlib.Logic.Relation
import Mathlib.Order.Bounds.Basic

namespace QhpcEcosystem

namespace BreadthFirst

universe u

variable {α : Type u}

/-! ## Distances -/

section Distance

variable (R : α → α → Prop)

/-- A walk of a given number of steps. -/
inductive Walk (a : α) : Nat → α → Prop
  | refl : Walk a 0 a
  | step {n : Nat} {b c : α} : Walk a n b → R b c → Walk a (n + 1) c

/-- The length of the shortest walks. -/
def Distance (a : α) (n : Nat) (b : α) : Prop := IsLeast {m | Walk R a m b} n

variable {R} {a b c : α} {n m : Nat}

theorem Walk.eq_of_zero (h : Walk R a 0 b) : b = a := by
  cases h
  rfl

/-- Walks stay among nodes that every step leads to. -/
theorem Walk.mem {nodes : List α} (h : Walk R a n b) (ha : a ∈ nodes)
    (hnodes : ∀ x y, R x y → y ∈ nodes) : b ∈ nodes := by
  cases h with
  | refl => exact ha
  | step _ hstep => exact hnodes _ _ hstep

theorem exists_walk_iff : (∃ n, Walk R a n b) ↔ Relation.ReflTransGen R a b := by
  constructor
  · rintro ⟨n, hwalk⟩
    induction hwalk with
    | refl => exact .refl
    | step _ hstep ih => exact .tail ih hstep
  · intro h
    induction h with
    | refl => exact ⟨0, .refl⟩
    | tail _ hstep ih =>
        obtain ⟨n, hwalk⟩ := ih
        exact ⟨n + 1, hwalk.step hstep⟩

theorem Distance.unique (h : Distance R a n b) (h' : Distance R a m b) : n = m :=
  IsLeast.unique h h'

theorem Distance.refl : Distance R a 0 a := ⟨.refl, fun _ _ => Nat.zero_le _⟩

theorem Distance.eq_of_zero (h : Distance R a 0 b) : b = a := h.1.eq_of_zero

/-- No walk is shorter than some shortest one. -/
theorem Walk.exists_distance (h : Walk R a n b) : ∃ m ≤ n, Distance R a m b := by
  classical
  have hwalk : ∃ m, Walk R a m b := ⟨n, h⟩
  exact ⟨Nat.find hwalk, Nat.find_min' hwalk h, Nat.find_spec hwalk,
    fun _ hother => Nat.find_min' hwalk hother⟩

/-- A shortest walk is shortest up to its last step. -/
theorem Distance.pred (h : Distance R a (n + 1) c) : ∃ b, Distance R a n b ∧ R b c := by
  obtain ⟨hwalk, hleast⟩ := h
  cases hwalk with
  | @step _ b _ hfront hstep =>
      refine ⟨b, ⟨hfront, ?_⟩, hstep⟩
      intro m hother
      have := hleast (Walk.step hother hstep)
      omega

end Distance

/-! ## Routes -/

section Route

variable (R : α → α → Prop)

/-- A walk as the list of its nodes, the last one first. -/
inductive Route (a : α) : α → Nat → List α → Prop
  | refl : Route a a 0 [a]
  | step {n : Nat} {b c : α} {nodes : List α} :
      Route a b n nodes → R b c → Route a c (n + 1) (c :: nodes)

variable {R} {a b : α} {n : Nat} {nodes : List α}

theorem Route.walk (h : Route R a b n nodes) : Walk R a n b := by
  induction h with
  | refl => exact .refl
  | step _ hstep ih => exact ih.step hstep

theorem Route.length_eq (h : Route R a b n nodes) : nodes.length = n + 1 := by
  induction h with
  | refl => rfl
  | step _ _ ih => rw [List.length_cons, ih]

theorem Route.head?_eq (h : Route R a b n nodes) : nodes.head? = some b := by
  cases h with
  | refl => rfl
  | step _ _ => rfl

theorem Route.getLast?_eq (h : Route R a b n nodes) : nodes.getLast? = some a := by
  induction h with
  | refl => rfl
  | @step n b c nodes hroute _ ih =>
      cases nodes with
      | nil => cases ih
      | cons node rest => rw [List.getLast?_cons_cons, ih]

theorem Route.isChain (h : Route R a b n nodes) : nodes.IsChain fun x y => R y x := by
  induction h with
  | refl => exact .singleton a
  | @step n b c nodes hroute hstep ih =>
      cases nodes with
      | nil => exact .singleton c
      | cons node rest =>
          obtain rfl : node = b := Option.some.inj hroute.head?_eq
          exact .cons_cons hstep ih

theorem Route.exists_walk (h : Route R a b n nodes) :
    ∀ node ∈ nodes, ∃ m ≤ n, Walk R a m node := by
  induction h with
  | refl =>
      intro node hnode
      obtain rfl := List.mem_singleton.mp hnode
      exact ⟨0, Nat.le_refl 0, .refl⟩
  | @step n b c nodes hroute hstep ih =>
      intro node hnode
      rcases List.mem_cons.mp hnode with rfl | hrest
      · exact ⟨n + 1, Nat.le_refl _, hroute.walk.step hstep⟩
      · obtain ⟨m, hle, hwalk⟩ := ih node hrest
        exact ⟨m, hle.trans (Nat.le_succ n), hwalk⟩

theorem Route.subset {all : List α} (h : Route R a b n nodes) (ha : a ∈ all)
    (hnodes : ∀ x y, R x y → y ∈ all) : nodes ⊆ all := by
  intro node hnode
  obtain ⟨m, -, hwalk⟩ := h.exists_walk node hnode
  exact hwalk.mem ha hnodes

/-- A shortest route repeats no node. -/
theorem Route.nodup (h : Route R a b n nodes) (hshortest : Distance R a n b) : nodes.Nodup := by
  induction h with
  | refl => exact List.nodup_singleton a
  | @step n b c nodes hroute hstep ih =>
      apply List.nodup_cons.mpr
      constructor
      · intro hmem
        obtain ⟨m, hle, hwalk⟩ := hroute.exists_walk c hmem
        have := hshortest.2 hwalk
        omega
      · apply ih
        refine ⟨hroute.walk, ?_⟩
        intro m hother
        have := hshortest.2 (Walk.step hother hstep)
        omega

end Route

/-! ## Orders of discovery -/

section Layered

variable (R : α → α → Prop) (depth : ℕ∞) (source : α)

/-- The nodes discovered so far, with their distances: those left behind and those that wait.
A node left behind at less than the depth has all its neighbours discovered. -/
structure Layered (done queue : List (α × Nat)) : Prop where
  start : (source, 0) ∈ done ++ queue
  distance : ∀ item ∈ done ++ queue, Distance R source item.2 item.1
  within : ∀ item ∈ done ++ queue, (item.2 : ℕ∞) ≤ depth
  nodup : ((done ++ queue).map Prod.fst).Nodup
  sorted : (done ++ queue).Pairwise fun first second => first.2 ≤ second.2
  closed : ∀ item ∈ done, (item.2 : ℕ∞) < depth → ∀ next, R item.1 next →
    next ∈ (done ++ queue).map Prod.fst
  spread : ∀ item ∈ queue, ∀ other ∈ done ++ queue, other.2 ≤ item.2 + 1

theorem layered_start : Layered R depth source [] [(source, 0)] where
  start := List.mem_singleton.mpr rfl
  distance := by
    intro item hitem
    obtain rfl := List.mem_singleton.mp hitem
    exact .refl
  within := by
    intro item hitem
    obtain rfl := List.mem_singleton.mp hitem
    exact zero_le
  nodup := List.nodup_singleton source
  sorted := List.pairwise_singleton _ _
  closed := by
    intro item hitem
    exact absurd hitem List.not_mem_nil
  spread := by
    intro item _ other hother
    obtain rfl := List.mem_singleton.mp hother
    exact Nat.zero_le _

namespace Layered

variable {R depth source} {done queue : List (α × Nat)} {x y : α} {d n : Nat}

/-- Below every node that waits, all the nodes have been discovered. -/
theorem covers (h : Layered R depth source done queue) (hdepth : (n : ℕ∞) ≤ depth)
    (hfront : ∀ item ∈ queue, n ≤ item.2) (hy : Distance R source n y) :
    (y, n) ∈ done ++ queue := by
  induction n generalizing y with
  | zero =>
      obtain rfl := hy.eq_of_zero
      exact h.start
  | succ n ih =>
      obtain ⟨x, hx, hstep⟩ := hy.pred
      have hlt : (n : ℕ∞) < depth := lt_of_lt_of_le (Nat.cast_lt.mpr n.lt_succ_self) hdepth
      have hfound := ih hlt.le (fun item hitem => (Nat.le_succ n).trans (hfront item hitem)) hx
      have hdone : (x, n) ∈ done := by
        rcases List.mem_append.mp hfound with hdone | hwaits
        · exact hdone
        · exact absurd (hfront _ hwaits) (Nat.not_succ_le_self n)
      obtain ⟨⟨_, e⟩, hitem, rfl⟩ := List.mem_map.mp (h.closed _ hdone hlt y hstep)
      rw [← (h.distance _ hitem).unique hy]
      exact hitem

/-- When none waits, everything within the depth has been discovered. -/
theorem complete (h : Layered R depth source done []) (hdepth : (n : ℕ∞) ≤ depth)
    (hy : Distance R source n y) : (y, n) ∈ done ++ [] :=
  h.covers hdepth (fun _ hitem => absurd hitem List.not_mem_nil) hy

/-- The first node that waits is nearest. -/
theorem head_le (h : Layered R depth source done ((x, d) :: queue)) :
    ∀ item ∈ (x, d) :: queue, d ≤ item.2 := by
  intro item hitem
  rcases List.mem_cons.mp hitem with rfl | hrest
  · exact Nat.le_refl _
  · have hwaiting := (List.pairwise_append.mp h.sorted).2.1
    exact (List.pairwise_cons.mp hwaiting).1 item hrest

/-- What is nearer than a discovered node has been discovered. -/
theorem nearer (h : Layered R depth source done queue) (hx : (x, d) ∈ done ++ queue)
    (hlt : n < d) (hy : Distance R source n y) : (y, n) ∈ done ++ queue := by
  have hdepth : (n : ℕ∞) ≤ depth := (Nat.cast_le.mpr hlt.le).trans (h.within _ hx)
  apply h.covers hdepth ?_ hy
  intro item hitem
  have := h.spread item hitem _ hx
  omega

/-- A neighbour of the first node that waits comes one step later. -/
theorem distance_new (h : Layered R depth source done ((x, d) :: queue)) (hstep : R x y)
    (hnew : y ∉ (done ++ (x, d) :: queue).map Prod.fst) : Distance R source (d + 1) y := by
  have hx : (x, d) ∈ done ++ (x, d) :: queue := List.mem_append_right _ List.mem_cons_self
  have hwalk : Walk R source d x := (h.distance _ hx).1
  refine ⟨hwalk.step hstep, ?_⟩
  intro m hother
  by_contra hshort
  obtain ⟨n, hle, hy⟩ := Walk.exists_distance hother
  have hn : n ≤ d := by omega
  have hdepth : (n : ℕ∞) ≤ depth := (Nat.cast_le.mpr hn).trans (h.within _ hx)
  have hfound := h.covers hdepth (fun item hitem => hn.trans (h.head_le item hitem)) hy
  exact hnew (List.mem_map.mpr ⟨_, hfound, rfl⟩)

/-- A new neighbour of the first node that waits is put at the end. -/
theorem discover (h : Layered R depth source done ((x, d) :: queue))
    (hopen : (d : ℕ∞) < depth) (hstep : R x y)
    (hnew : y ∉ (done ++ (x, d) :: queue).map Prod.fst) :
    Layered R depth source done ((x, d) :: queue ++ [(y, d + 1)]) := by
  have hmem : ∀ item, item ∈ done ++ ((x, d) :: queue ++ [(y, d + 1)]) ↔
      item ∈ done ++ (x, d) :: queue ∨ item = (y, d + 1) := by
    intro item
    rw [← List.append_assoc, List.mem_append, List.mem_singleton]
  have hle : ∀ item ∈ done ++ (x, d) :: queue, item.2 ≤ d + 1 :=
    h.spread (x, d) List.mem_cons_self
  constructor
  · exact (hmem _).mpr (.inl h.start)
  · intro item hitem
    rcases (hmem item).mp hitem with hold | rfl
    · exact h.distance item hold
    · exact h.distance_new hstep hnew
  · intro item hitem
    rcases (hmem item).mp hitem with hold | rfl
    · exact h.within item hold
    · exact_mod_cast Order.add_one_le_of_lt hopen
  · rw [← List.append_assoc, List.map_append, List.nodup_append']
    refine ⟨h.nodup, List.nodup_singleton _, ?_⟩
    rw [List.map_singleton, List.disjoint_singleton]
    exact hnew
  · rw [← List.append_assoc, List.pairwise_append]
    refine ⟨h.sorted, List.pairwise_singleton _ _, ?_⟩
    intro item hitem other hother
    obtain rfl := List.mem_singleton.mp hother
    exact hle item hitem
  · intro item hitem hlt next hnext
    rw [← List.append_assoc, List.map_append]
    exact List.mem_append_left _ (h.closed item hitem hlt next hnext)
  · intro item hitem other hother
    have hitem' : d ≤ item.2 := by
      rcases List.mem_append.mp hitem with hold | hnew
      · exact h.head_le item hold
      · obtain rfl := List.mem_singleton.mp hnew
        exact Nat.le_succ d
    rcases (hmem other).mp hother with hold | rfl
    · exact (hle other hold).trans (Nat.succ_le_succ hitem')
    · exact Nat.succ_le_succ hitem'

/-- A node is left behind when its neighbours have been discovered, or at the depth. -/
theorem leave (h : Layered R depth source done ((x, d) :: queue))
    (hclosed : (d : ℕ∞) < depth → ∀ next, R x next →
      next ∈ (done ++ (x, d) :: queue).map Prod.fst) :
    Layered R depth source (done ++ [(x, d)]) queue := by
  have hsame : done ++ [(x, d)] ++ queue = done ++ (x, d) :: queue := by
    rw [List.append_assoc, List.singleton_append]
  constructor
  · exact hsame ▸ h.start
  · exact hsame ▸ h.distance
  · exact hsame ▸ h.within
  · exact hsame ▸ h.nodup
  · exact hsame ▸ h.sorted
  · intro item hitem hlt
    rw [hsame]
    rcases List.mem_append.mp hitem with hold | hlast
    · exact h.closed item hold hlt
    · obtain rfl := List.mem_singleton.mp hlast
      exact hclosed hlt
  · intro item hitem
    rw [hsame]
    exact h.spread item (List.mem_cons_of_mem _ hitem)

/-- There are no more discovered nodes than there are nodes. -/
theorem length_le (h : Layered R depth source done queue) {nodes : List α}
    (hsource : source ∈ nodes) (hnodes : ∀ a b, R a b → b ∈ nodes) :
    done.length + queue.length ≤ nodes.length := by
  have hsub : (done ++ queue).map Prod.fst ⊆ nodes := by
    intro node hnode
    obtain ⟨item, hitem, rfl⟩ := List.mem_map.mp hnode
    have hwalk : Walk R source item.2 item.1 := (h.distance item hitem).1
    exact hwalk.mem hsource hnodes
  have hlength := (List.subperm_of_subset h.nodup hsub).length_le
  rwa [List.length_map, List.length_append] at hlength

end Layered

end Layered

end BreadthFirst

end QhpcEcosystem
