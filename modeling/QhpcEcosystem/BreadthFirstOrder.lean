/-
The order in which breadth-first search discovers nodes.  When the neighbours of a node are
tried by an ascending key, the nodes of one distance come in the order of their least routes,
compared key by key from the source on.
-/
import QhpcEcosystem.BreadthFirst
import Mathlib.Data.List.Lex

namespace QhpcEcosystem

namespace BreadthFirst

universe u v

variable {α : Type u} {κ : Type v}

/-! ## Addresses -/

section Address

variable (key : α → κ)

/-- The keys along a route, from the source on. -/
def address (nodes : List α) : List κ := (nodes.map key).reverse

variable {key}

theorem address_cons (node : α) (nodes : List α) :
    address key (node :: nodes) = address key nodes ++ [key node] := by
  rw [address, List.map_cons, List.reverse_cons]
  rfl

theorem address_injective (hkey : Function.Injective key) : Function.Injective (address key) :=
  fun _ _ h => List.map_injective_iff.mpr hkey (List.reverse_injective h)

theorem length_address {R : α → α → Prop} {source node : α} {n : Nat} {nodes : List α}
    (h : Route R source node n nodes) : (address key nodes).length = n + 1 := by
  rw [address, List.length_reverse, List.length_map, h.length_eq]

variable [LinearOrder κ]

/-- Lists of one length are compared before what follows them. -/
theorem append_lt_append_of_lt {first second : List κ} (hlength : first.length = second.length)
    (h : first < second) (more more' : List κ) : first ++ more < second ++ more' := by
  induction first generalizing second with
  | nil =>
      obtain rfl := List.length_eq_zero_iff.mp hlength.symm
      exact absurd h (lt_irrefl _)
  | cons a first ih =>
      cases second with
      | nil => cases hlength
      | cons b second =>
          rw [List.cons_lt_cons_iff] at h
          rw [List.cons_append, List.cons_append, List.cons_lt_cons_iff]
          rcases h with hhead | ⟨rfl, htail⟩
          · exact .inl hhead
          · exact .inr ⟨rfl, ih (Nat.succ.inj hlength) htail⟩

theorem append_le_append_of_le {first second : List κ} (hlength : first.length = second.length)
    (h : first ≤ second) (more : List κ) : first ++ more ≤ second ++ more := by
  rcases h.lt_or_eq with hlt | rfl
  · exact (append_lt_append_of_lt hlength hlt more more).le
  · exact le_rfl

end Address

/-! ## Least routes -/

section Order

variable [LinearOrder κ] (R : α → α → Prop) (key : α → κ) (source : α)

/-- A route with the least address among those of its length to its end. -/
def LeastRoute (b : α) (n : Nat) (nodes : List α) : Prop :=
  Route R source b n nodes ∧
    ∀ other, Route R source b n other → address key nodes ≤ address key other

/-- The first node is nearer, or as near with a route in front of all routes to the second. -/
def Before (first second : α × Nat) : Prop :=
  first.2 < second.2 ∨ first.2 = second.2 ∧ ∃ nodes, Route R source first.1 first.2 nodes ∧
    ∀ other, Route R source second.1 second.2 other → address key nodes < address key other

variable {R key source} {x y u : α} {d n : Nat}

theorem LeastRoute.unique (hkey : Function.Injective key) {nodes nodes' : List α}
    (h : LeastRoute R key source y n nodes) (h' : LeastRoute R key source y n nodes') :
    nodes = nodes' :=
  address_injective hkey ((h.2 _ h'.1).antisymm (h'.2 _ h.1))

theorem Before.asymm {first second : α × Nat} (h : Before R key source first second) :
    ¬Before R key source second first := by
  rcases h with hlt | ⟨heq, nodes, hroute, hfirst⟩
  · rintro (hlt' | ⟨heq', -⟩) <;> omega
  · rintro (hlt' | ⟨-, nodes', hroute', hsecond⟩)
    · omega
    · exact lt_asymm (hfirst _ hroute') (hsecond _ hroute)

/-- The last step of a shortest route comes from a node that is one step nearer. -/
theorem Route.exists_last {nodes : List α} (h : Route R source y (n + 1) nodes)
    (hdistance : Distance R source (n + 1) y) :
    ∃ u rest, nodes = y :: rest ∧ Route R source u n rest ∧ Distance R source n u ∧ R u y := by
  cases h with
  | @step _ u _ rest hrest hstep =>
      refine ⟨u, rest, rfl, hrest, ⟨hrest.walk, ?_⟩, hstep⟩
      intro m hother
      have := hdistance.2 (Walk.step hother hstep)
      omega

/-! ## Ordered discovery -/

variable (R key source) in
/-- The discovered nodes stand in order, in front of all that have not been discovered. -/
structure Ordered (done queue : List (α × Nat)) : Prop where
  least : ∀ item ∈ done ++ queue, ∃ nodes, LeastRoute R key source item.1 item.2 nodes
  sorted : (done ++ queue).Pairwise (Before R key source)
  ahead : ∀ item ∈ done ++ queue, ∀ node n, node ∉ (done ++ queue).map Prod.fst →
    Distance R source n node → Before R key source item (node, n)

theorem ordered_start : Ordered R key source [] [(source, 0)] where
  least item hitem := by
    obtain rfl := List.mem_singleton.mp hitem
    refine ⟨[source], .refl, fun other hother => ?_⟩
    cases hother
    exact le_rfl
  sorted := List.pairwise_singleton _ _
  ahead item hitem node n hnew hdistance := by
    obtain rfl := List.mem_singleton.mp hitem
    cases n with
    | zero => exact absurd (List.mem_singleton.mpr hdistance.eq_of_zero) hnew
    | succ n => exact .inl n.succ_pos

namespace Ordered

variable {depth : ℕ∞} {done queue : List (α × Nat)}

/-- Of the nodes that lead to a new one, the first that waits comes first. -/
theorem eq_or_before (h : Ordered R key source done ((x, d) :: queue))
    (hlayered : Layered R depth source done ((x, d) :: queue)) (hopen : (d : ℕ∞) < depth)
    (hnew : y ∉ (done ++ (x, d) :: queue).map Prod.fst) (hu : Distance R source d u)
    (hstep : R u y) : u = x ∨ Before R key source (x, d) (u, d) := by
  have hfound := hlayered.covers hopen.le (fun item hitem => hlayered.head_le item hitem) hu
  rcases List.mem_append.mp hfound with hdone | hwaits
  · exact absurd (hlayered.closed _ hdone hopen y hstep) hnew
  · rcases List.mem_cons.mp hwaits with heq | hqueue
    · exact .inl (Prod.mk.inj heq).1
    · have hwaiting := (List.pairwise_append.mp h.sorted).2.1
      exact .inr ((List.pairwise_cons.mp hwaiting).1 _ hqueue)

/-- Every route to a new node comes, before its last step, no earlier than the least route to
the first node that waits. -/
theorem exists_last_le (h : Ordered R key source done ((x, d) :: queue))
    (hlayered : Layered R depth source done ((x, d) :: queue)) (hopen : (d : ℕ∞) < depth)
    (hnew : y ∉ (done ++ (x, d) :: queue).map Prod.fst)
    (hdistance : Distance R source (d + 1) y) {nodes other : List α}
    (hleast : LeastRoute R key source x d nodes) (hother : Route R source y (d + 1) other) :
    ∃ u rest, other = y :: rest ∧ Route R source u d rest ∧
      (address key nodes < address key rest ∨
        u = x ∧ R x y ∧ address key nodes ≤ address key rest) := by
  obtain ⟨u, rest, rfl, hrest, hu, hstep⟩ := hother.exists_last hdistance
  refine ⟨u, rest, rfl, hrest, ?_⟩
  rcases h.eq_or_before hlayered hopen hnew hu hstep with rfl | hbefore
  · exact .inr ⟨rfl, hstep, hleast.2 rest hrest⟩
  · rcases hbefore with hlt | ⟨-, earlier, hearlier, hall⟩
    · exact absurd hlt (lt_irrefl d)
    · exact .inl ((hleast.2 earlier hearlier).trans_lt (hall rest hrest))

/-- The least route to a new neighbour goes through the first node that waits. -/
theorem least_new (h : Ordered R key source done ((x, d) :: queue))
    (hlayered : Layered R depth source done ((x, d) :: queue)) (hopen : (d : ℕ∞) < depth)
    (hstep : R x y) (hnew : y ∉ (done ++ (x, d) :: queue).map Prod.fst) {nodes : List α}
    (hleast : LeastRoute R key source x d nodes) :
    LeastRoute R key source y (d + 1) (y :: nodes) := by
  refine ⟨hleast.1.step hstep, fun other hother => ?_⟩
  obtain ⟨u, rest, rfl, hrest, horder⟩ := h.exists_last_le hlayered hopen hnew
    (hlayered.distance_new hstep hnew) hleast hother
  have hlength : (address key nodes).length = (address key rest).length := by
    rw [length_address hleast.1, length_address hrest]
  rw [address_cons, address_cons]
  apply append_le_append_of_le hlength
  rcases horder with hlt | ⟨-, -, hle⟩
  · exact hlt.le
  · exact hle

/-- The new neighbour with the least key is put at the end. -/
theorem discover (h : Ordered R key source done ((x, d) :: queue))
    (hlayered : Layered R depth source done ((x, d) :: queue)) (hopen : (d : ℕ∞) < depth)
    (hkey : Function.Injective key) (hstep : R x y)
    (hnew : y ∉ (done ++ (x, d) :: queue).map Prod.fst)
    (hfirst : ∀ z, R x z → z ∉ (done ++ (x, d) :: queue).map Prod.fst → key y ≤ key z) :
    Ordered R key source done ((x, d) :: queue ++ [(y, d + 1)]) := by
  have hx : (x, d) ∈ done ++ (x, d) :: queue := List.mem_append_right _ List.mem_cons_self
  have hdistance := hlayered.distance_new hstep hnew
  obtain ⟨nodes, hleast⟩ := h.least _ hx
  have hroute := h.least_new hlayered hopen hstep hnew hleast
  have hmem : ∀ item, item ∈ done ++ ((x, d) :: queue ++ [(y, d + 1)]) ↔
      item ∈ done ++ (x, d) :: queue ∨ item = (y, d + 1) := by
    intro item
    rw [← List.append_assoc, List.mem_append, List.mem_singleton]
  constructor
  · intro item hitem
    rcases (hmem item).mp hitem with hold | rfl
    · exact h.least item hold
    · exact ⟨_, hroute⟩
  · rw [← List.append_assoc, List.pairwise_append]
    refine ⟨h.sorted, List.pairwise_singleton _ _, ?_⟩
    intro item hitem other hother
    obtain rfl := List.mem_singleton.mp hother
    exact h.ahead item hitem y (d + 1) hnew hdistance
  · intro item hitem z n hz hzdistance
    rw [← List.append_assoc, List.map_append, List.mem_append, List.map_singleton,
      List.mem_singleton, not_or] at hz
    obtain ⟨hz, hne⟩ := hz
    rcases (hmem item).mp hitem with hold | rfl
    · exact h.ahead item hold z n hz hzdistance
    · -- a node that is still missing is not nearer than the new one
      have hfar : d < n := by
        by_contra hnear
        have hle : n ≤ d := Nat.le_of_not_lt hnear
        have hfound := hlayered.covers ((Nat.cast_le.mpr hle).trans hopen.le)
          (fun item hitem => hle.trans (hlayered.head_le item hitem)) hzdistance
        exact hz (List.mem_map.mpr ⟨_, hfound, rfl⟩)
      rcases Nat.lt_or_eq_of_le (Nat.succ_le_of_lt hfar) with hlt | rfl
      · exact .inl hlt
      · refine .inr ⟨rfl, y :: nodes, hroute.1, fun other hother => ?_⟩
        obtain ⟨u, rest, rfl, hrest, horder⟩ :=
          h.exists_last_le hlayered hopen hz hzdistance hleast hother
        have hlength : (address key nodes).length = (address key rest).length := by
          rw [length_address hleast.1, length_address hrest]
        rw [address_cons, address_cons]
        rcases horder with hlt | ⟨-, hzstep, hle⟩
        · exact append_lt_append_of_lt hlength hlt _ _
        · have hless : key y < key z :=
            lt_of_le_of_ne (hfirst z hzstep hz) fun heq => hne (hkey heq).symm
          rcases hle.lt_or_eq with hlt | heq
          · exact append_lt_append_of_lt hlength hlt _ _
          · rw [heq]
            exact List.append_left_lt (List.cons_lt_cons_iff.mpr (.inl hless))

theorem leave (h : Ordered R key source done ((x, d) :: queue)) :
    Ordered R key source (done ++ [(x, d)]) queue := by
  have hsame : done ++ [(x, d)] ++ queue = done ++ (x, d) :: queue := by
    rw [List.append_assoc, List.singleton_append]
  exact ⟨hsame ▸ h.least, hsame ▸ h.sorted, hsame ▸ h.ahead⟩

end Ordered

end Order

end BreadthFirst

end QhpcEcosystem
