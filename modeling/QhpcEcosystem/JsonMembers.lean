/-
The members of a JSON object: looking one up, taking one out, and what sorting changes.
-/
import QhpcEcosystem.JsonReading
import QhpcEcosystem.KeyedTable
import Mathlib.Algebra.Ring.Nat

namespace QhpcEcosystem

universe u

section Members

variable {F : Type u}

def member? (members : List (JsonText × Json F)) (name : JsonText) : Option (Json F) :=
  (members.find? fun member => member.1 = name).map Prod.snd

/-- The members without the one that `pop` takes. -/
def popMember (members : List (JsonText × Json F)) (name : JsonText) :
    List (JsonText × Json F) :=
  members.filter fun member => member.1 ≠ name

def Json.isText (text : JsonText) : Json F → Bool
  | .str other => other = text
  | _ => false

variable {members : List (JsonText × Json F)} {name : JsonText} {value : Json F}

theorem member?_of_mem (hnodup : (members.map Prod.fst).Nodup) (hmem : (name, value) ∈ members) :
    member? members name = some value := by
  rw [member?, find?_eq_some_of_unique hmem (by simp)]
  · rfl
  · intro other hother hkey
    exact List.inj_on_of_nodup_map hnodup hother hmem (by simpa using hkey)

theorem mem_of_member? (h : member? members name = some value) : (name, value) ∈ members := by
  obtain ⟨⟨other, found⟩, hfound, rfl⟩ := Option.map_eq_some_iff.mp h
  obtain rfl : other = name := by simpa using List.find?_some hfound
  exact List.mem_of_find?_eq_some hfound

/-- A dictionary is what is left without a member, and the member. -/
theorem perm_popMember (hnodup : (members.map Prod.fst).Nodup)
    (hmem : (name, value) ∈ members) :
    members.Perm (popMember members name ++ [(name, value)]) := by
  have hrest : (popMember members name ++ [(name, value)]).Nodup := by
    refine List.nodup_append.mpr ⟨hnodup.of_map.filter _, List.nodup_singleton _, ?_⟩
    intro other hother same hsame heq
    obtain rfl := List.mem_singleton.mp hsame
    rw [popMember, List.mem_filter, heq] at hother
    simp at hother
  refine (List.perm_ext_iff_of_nodup hnodup.of_map hrest).mpr fun member => ?_
  rw [List.mem_append, List.mem_singleton, popMember, List.mem_filter, decide_eq_true_eq]
  constructor
  · intro hmember
    by_cases hkey : member.1 = name
    · exact .inr (List.inj_on_of_nodup_map hnodup hmember hmem hkey)
    · exact .inl ⟨hmember, hkey⟩
  · rintro (⟨hmember, -⟩ | rfl)
    · exact hmember
    · exact hmem

theorem popMember_distinct (h : DistinctObject members) :
    DistinctObject (popMember members name) :=
  ⟨h.1.sublist (List.filter_sublist.map Prod.fst), fun member hmember =>
    h.2 member (List.mem_of_mem_filter hmember)⟩

theorem Json.sortedMembers_append (members more : List (JsonText × Json F)) :
    Json.sortedMembers (members ++ more) =
      Json.sortedMembers members ++ Json.sortedMembers more := by
  rw [Json.sortedMembers_eq, Json.sortedMembers_eq, Json.sortedMembers_eq, List.map_append]

theorem Json.sorted_sortedMembers (members : List (JsonText × Json F)) :
    (Json.obj (Json.sortedMembers members)).sorted = (Json.obj members).sorted := by
  rw [Json.sorted, Json.sorted]
  congr 2
  rw [Json.sortedMembers_eq, Json.sortedMembers_eq, List.map_map]
  exact List.map_congr_left fun member _ => Prod.ext rfl (Json.sorted_sorted member.2)

theorem member?_eq_none : member? members name = none ↔ name ∉ members.map Prod.fst := by
  rw [member?, Option.map_eq_none_iff, List.find?_eq_none, List.mem_map]
  constructor
  · rintro h ⟨member, hmember, rfl⟩
    exact h member hmember (decide_eq_true rfl)
  · intro h member hmember hkey
    exact h ⟨member, hmember, of_decide_eq_true hkey⟩

theorem member?_perm {others : List (JsonText × Json F)} (hnodup : (members.map Prod.fst).Nodup)
    (hperm : members.Perm others) : member? others name = member? members name := by
  cases hmember : member? members name with
  | none =>
      rw [member?_eq_none] at hmember ⊢
      exact fun hmem => hmember ((hperm.map Prod.fst).mem_iff.mpr hmem)
  | some value =>
      exact member?_of_mem ((hperm.map Prod.fst).nodup_iff.mp hnodup)
        (hperm.mem_iff.mp (mem_of_member? hmember))

/-- The members of an object in the order in which they are written. -/
def sortedObject (members : List (JsonText × Json F)) : List (JsonText × Json F) :=
  (Json.sortedMembers members).insertionSort fun a b => memberLe a b = true

theorem Json.sorted_obj (members : List (JsonText × Json F)) :
    (Json.obj members).sorted = .obj (sortedObject members) := rfl

theorem Json.dumps_obj_head (format : FloatFormat F) (style : JsonStyle)
    (members : List (JsonText × Json F)) :
    ∃ tail, (Json.obj members).dumps format style = '{' :: tail := by
  rw [Json.dumps, Json.sorted]
  cases (Json.sortedMembers members).insertionSort fun a b => memberLe a b = true with
  | nil => exact ⟨_, rfl⟩
  | cons member members => exact ⟨_, rfl⟩

theorem sortedObject_perm (members : List (JsonText × Json F)) :
    (sortedObject members).Perm (members.map fun member => (member.1, member.2.sorted)) := by
  rw [sortedObject, Json.sortedMembers_eq]
  exact List.perm_insertionSort _ _

theorem sortedObject_names (members : List (JsonText × Json F)) :
    ((sortedObject members).map Prod.fst).Perm (members.map Prod.fst) := by
  have hperm := (sortedObject_perm members).map Prod.fst
  rwa [List.map_map] at hperm

/-- Sorting an object does not change what a name finds, up to the order inside. -/
theorem member?_sortedObject (h : (members.map Prod.fst).Nodup) (name : JsonText) :
    member? (sortedObject members) name = (member? members name).map Json.sorted := by
  have hnodup : ((members.map fun member => (member.1, member.2.sorted)).map Prod.fst).Nodup := by
    rwa [List.map_map]
  rw [member?_perm hnodup (sortedObject_perm members).symm, member?, member?, List.find?_map,
    Option.map_map, Option.map_map]
  rfl

end Members

/-! ## The length of an object -/

section Lengths

variable {F : Type u} (format : FloatFormat F) (style : JsonStyle)

/-- The length of the written form. -/
def Json.size (value : Json F) : Nat := (value.dumps format style).length

/-- What a member adds to the length of its object. -/
def memberSize (member : JsonText × Json F) : Nat :=
  1 + style.gap.length + (writeName style member.1).length + member.2.size format style

theorem length_writeMembers (members : List (JsonText × Json F)) :
    (Json.writeMembers format style members).length =
      (members.map fun member => 1 + style.gap.length + (writeName style member.1).length +
        (member.2.write format style).length).sum + 1 := by
  induction members with
  | nil => rfl
  | cons member members ih =>
      obtain ⟨name, value⟩ := member
      simp only [Json.writeMembers, List.length_cons, List.length_append, ih, List.map_cons,
        List.sum_cons]
      omega

/-- The length of an object is that of its members, whatever their order. -/
theorem Json.size_obj {members : List (JsonText × Json F)} (h : members ≠ []) :
    (Json.obj members).size format style + style.gap.length =
      (members.map (memberSize format style)).sum + 1 := by
  have hperm := (sortedObject_perm members).map fun member => 1 + style.gap.length +
    (writeName style member.1).length + (member.2.write format style).length
  have hsum : ((sortedObject members).map fun member => 1 + style.gap.length +
      (writeName style member.1).length + (member.2.write format style).length).sum =
      (members.map (memberSize format style)).sum := by
    rw [hperm.sum_nat, List.map_map]
    rfl
  rw [← hsum, Json.size, Json.dumps, Json.sorted_obj]
  cases hsorted : sortedObject members with
  | nil =>
      have hlength := (sortedObject_perm members).length_eq
      rw [hsorted, List.length_map, List.length_nil] at hlength
      exact absurd (List.length_eq_zero_iff.mp hlength.symm) h
  | cons member others =>
      obtain ⟨name, value⟩ := member
      simp only [Json.write, List.length_cons, List.length_append, length_writeMembers,
        List.map_cons, List.sum_cons]
      omega

end Lengths

end QhpcEcosystem
