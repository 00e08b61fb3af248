/-
The set that `retry_task` resets.  Its loop adds the target of every edge that
leaves the set until a pass changes nothing; what comes out is the set of nodes
that the given node reaches along the edges.
-/
import QhpcEcosystem.RunOperations
import Mathlib.Logic.Relation

namespace QhpcEcosystem

/-- The workflow has an edge from one node to the other. -/
def Workflow.Feeds (workflow : Workflow) (source target : String) : Prop :=
  ∃ edge ∈ workflow.edges, edge.source.node = source ∧ edge.target.node = target

/-! ## One pass -/

/-- The edges whose target is not in the set. -/
def missing (edges : List Edge) (found : List String) : List Edge :=
  edges.filter fun edge => edge.target.node ∉ found

section Pass

variable {edges : List Edge} {found : List String}

theorem addDescendants_extends (edges : List Edge) (found : List String) :
    found <+: addDescendants edges found := by
  induction edges generalizing found with
  | nil => exact List.prefix_rfl
  | cons edge rest ih =>
      simp only [addDescendants, List.foldl_cons]
      split
      · exact (List.prefix_append found [edge.target.node]).trans (ih _)
      · exact ih found

/-- A set that the edges do not leave contains what a pass adds. -/
theorem addDescendants_subset {P : String → Prop} (hfound : ∀ node ∈ found, P node)
    (hedges : ∀ edge ∈ edges, P edge.source.node → P edge.target.node) :
    ∀ node ∈ addDescendants edges found, P node := by
  induction edges generalizing found with
  | nil => exact hfound
  | cons edge rest ih =>
      have hrest : ∀ edge ∈ rest, P edge.source.node → P edge.target.node :=
        fun other hother => hedges other (List.mem_cons_of_mem _ hother)
      simp only [addDescendants, List.foldl_cons]
      split
      · next hadded =>
          refine ih (fun node hnode => ?_) hrest
          rcases List.mem_append.mp hnode with hnode | hnode
          · exact hfound node hnode
          · rw [List.mem_singleton.mp hnode]
            exact hedges edge List.mem_cons_self (hfound _ hadded.1)
      · exact ih hfound hrest

/-- A pass that changes nothing finds no edge that leaves the set. -/
theorem addDescendants_closed (h : addDescendants edges found = found) :
    ∀ edge ∈ edges, edge.source.node ∈ found → edge.target.node ∈ found := by
  induction edges with
  | nil => simp
  | cons edge rest ih =>
      simp only [addDescendants, List.foldl_cons] at h
      split at h
      · have hlength := (addDescendants_extends rest (found ++ [edge.target.node])).length_le
        simp only [addDescendants] at hlength
        rw [h, List.length_append, List.length_singleton] at hlength
        omega
      · next hkept =>
          intro other hother hsource
          rcases List.mem_cons.mp hother with rfl | hother
          · by_contra htarget
            exact hkept ⟨hsource, htarget⟩
          · exact ih h other hother hsource

/-- A pass that changes the set adds the target of an edge. -/
theorem addDescendants_progress (h : addDescendants edges found ≠ found) :
    ∃ edge ∈ edges, edge.target.node ∉ found ∧
      edge.target.node ∈ addDescendants edges found := by
  induction edges with
  | nil => exact absurd rfl h
  | cons edge rest ih =>
      simp only [addDescendants, List.foldl_cons] at h ⊢
      split at h
      · next hadded =>
          refine ⟨edge, List.mem_cons_self, hadded.2, ?_⟩
          rw [if_pos hadded]
          exact (addDescendants_extends rest _).subset
            (List.mem_append_right _ (List.mem_singleton_self _))
      · next hkept =>
          obtain ⟨other, hother, hfresh, htarget⟩ := ih h
          refine ⟨other, List.mem_cons_of_mem _ hother, hfresh, ?_⟩
          rw [if_neg hkept]
          exact htarget

theorem missing_addDescendants (h : addDescendants edges found ≠ found) :
    (missing edges (addDescendants edges found)).length < (missing edges found).length := by
  obtain ⟨edge, hedge, hfresh, htarget⟩ := addDescendants_progress h
  have hsubset := (addDescendants_extends edges found).subset
  have hsublist : (missing edges (addDescendants edges found)).Sublist (missing edges found) :=
    List.monotone_filter_right edges fun other hother => by
      simp only [decide_eq_true_eq] at hother ⊢
      exact fun hmem => hother (hsubset hmem)
  refine lt_of_le_of_ne hsublist.length_le fun hlength => ?_
  have hmem : edge ∈ missing edges found := by simp [missing, hedge, hfresh]
  rw [← hsublist.eq_of_length hlength] at hmem
  simp [missing, htarget] at hmem

end Pass

/-! ## The loop -/

section Loop

variable {edges : List Edge} {fuel : Nat} {found : List String}

theorem closeDescendants_subset {P : String → Prop} (hfound : ∀ node ∈ found, P node)
    (hedges : ∀ edge ∈ edges, P edge.source.node → P edge.target.node) :
    ∀ node ∈ closeDescendants edges fuel found, P node := by
  induction fuel generalizing found with
  | zero => exact hfound
  | succ fuel ih =>
      simp only [closeDescendants]
      split
      · exact hfound
      · exact ih (addDescendants_subset hfound hedges)

theorem mem_closeDescendants {node : String} (h : node ∈ found) :
    node ∈ closeDescendants edges fuel found := by
  induction fuel generalizing found with
  | zero => exact h
  | succ fuel ih =>
      simp only [closeDescendants]
      split
      · exact h
      · exact ih ((addDescendants_extends edges found).subset h)

/-- More passes than edges that lead out of the set reach its closure. -/
theorem closeDescendants_closed (h : (missing edges found).length < fuel) :
    ∀ edge ∈ edges, edge.source.node ∈ closeDescendants edges fuel found →
      edge.target.node ∈ closeDescendants edges fuel found := by
  induction fuel generalizing found with
  | zero => omega
  | succ fuel ih =>
      simp only [closeDescendants]
      split
      · next hfixed => exact addDescendants_closed hfixed
      · next hchanged =>
          have := missing_addDescendants hchanged
          exact ih (by omega)

end Loop

/-- `retry_task` resets the nodes that the given one reaches. -/
theorem mem_descendants {definition : Workflow} {source target : String} :
    target ∈ descendants definition source ↔
      Relation.ReflTransGen definition.Feeds source target := by
  constructor
  · intro h
    refine closeDescendants_subset (P := Relation.ReflTransGen definition.Feeds source)
      (fun node hnode => ?_) (fun edge hedge hsource => ?_) target h
    · rw [List.mem_singleton.mp hnode]
    · exact hsource.tail ⟨edge, hedge, rfl, rfl⟩
  · intro h
    have hfuel : (missing definition.edges [source]).length < definition.edges.length + 1 :=
      Nat.lt_succ_of_le (List.length_filter_le _ _)
    induction h with
    | refl => exact mem_closeDescendants (List.mem_singleton_self source)
    | @tail middle target _ hfeeds ih =>
        obtain ⟨edge, hedge, rfl, rfl⟩ := hfeeds
        exact closeDescendants_closed hfuel edge hedge ih

/-- Along the edges the rank of a node does not decrease. -/
theorem rank_le_of_mem_descendants {definition : Workflow} {rank : String → Nat}
    (hrank : ∀ edge ∈ definition.edges, rank edge.source.node < rank edge.target.node)
    {source target : String} (h : target ∈ descendants definition source) :
    source = target ∨ rank source < rank target := by
  rw [mem_descendants] at h
  induction h with
  | refl => exact .inl rfl
  | tail _ hfeeds ih =>
      obtain ⟨edge, hedge, rfl, rfl⟩ := hfeeds
      have hless := hrank edge hedge
      rcases ih with rfl | hle
      · exact .inr hless
      · exact .inr (hle.trans hless)

end QhpcEcosystem
