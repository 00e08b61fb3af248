/-
Objects of JavaScript as dictionaries.  Assignment to a property keeps the place of a
property that is there and appends a new one, but names that are array indices stand
first, in numerical order, and an assignment to `__proto__` makes no property.
-/
import QhpcEcosystem.KeyedTable
import Mathlib.Data.List.Dedup
import Mathlib.Data.List.Perm.Subperm

namespace QhpcEcosystem

universe u v w

namespace Table

variable {ρ : Type u} {κ : Type v} [Keyed ρ κ] [DecidableEq κ]

/-- Store a row under its key: in place when the key is present, behind the first rows
that satisfy `p` otherwise. -/
def setAfter (T : Table ρ) (row : ρ) (p : ρ → Bool) : Table ρ where
  rows := if Keyed.key row ∈ T.rows.map (Keyed.key : ρ → κ) then (T.set row).rows
    else T.rows.takeWhile p ++ row :: T.rows.dropWhile p
  nodup := by
    split
    · exact (T.set row).nodup
    · next hfresh =>
        have hperm : (T.rows.takeWhile p ++ row :: T.rows.dropWhile p).Perm (row :: T.rows) := by
          refine List.perm_middle.trans ?_
          rw [List.takeWhile_append_dropWhile]
        rw [(hperm.map Keyed.key).nodup_iff]
        exact List.nodup_cons.mpr ⟨hfresh, T.nodup⟩

/-- A lookup depends on the rows only, not on their order. -/
theorem row?_congr {T T' : Table ρ} (h : ∀ row, row ∈ T.rows ↔ row ∈ T'.rows) (k : κ) :
    T.row? k = T'.row? k := by
  cases hfound : T'.row? k with
  | none =>
      rw [row?_eq_none_iff] at hfound ⊢
      exact fun row hrow => hfound row ((h row).mp hrow)
  | some row =>
      obtain ⟨hrow, hkey⟩ := row?_eq_some_iff.mp hfound
      exact row?_eq_some_iff.mpr ⟨(h row).mpr hrow, hkey⟩

theorem row?_setAfter (T : Table ρ) (row : ρ) (p : ρ → Bool) (k : κ) :
    (T.setAfter row p).row? k = if Keyed.key row = k then some row else T.row? k := by
  rw [← row?_set]
  refine row?_congr (fun other => ?_) k
  simp only [setAfter]
  split
  · exact Iff.rfl
  · next hfresh =>
      have hset : (T.set row).rows = T.rows ++ [row] := if_neg hfresh
      have hsplit := congrArg (other ∈ ·) (T.rows.takeWhile_append_dropWhile (p := p))
      rw [hset]
      simp only [List.mem_append, List.mem_cons, List.not_mem_nil, or_false, eq_iff_iff] at hsplit ⊢
      tauto

end Table

/-- The array index that a property name is, if it is one. -/
def arrayIndex? (name : String) : Option Nat :=
  let digits := name.toList
  if digits = [] ∨ (digits.head? = some '0' ∧ digits.length ≠ 1) ∨
      digits.any (fun c => !c.isDigit) then none
  else
    let index := Nat.ofDigitChars 10 digits 0
    if index < 4294967295 then some index else none

/-- A name whose property has no place of its own. -/
def OrdinaryName (name : String) : Prop :=
  name ≠ "__proto__" ∧ arrayIndex? name = none

instance (name : String) : Decidable (OrdinaryName name) :=
  inferInstanceAs (Decidable (_ ∧ _))

section Assignment

variable {α : Type u}

/-- `object[name] = value`, for a value that is an object. -/
def assignProperty (object : Dict String α) (name : String) (value : α) : Dict String α :=
  if name = "__proto__" then object
  else match arrayIndex? name with
    | none => object.set (name, value)
    | some index => object.setAfter (name, value) fun row => (arrayIndex? row.1).any (· < index)

theorem row?_assignProperty (object : Dict String α) (name : String) (value : α)
    (k : String) : (assignProperty object name value).row? k =
      if name = k ∧ name ≠ "__proto__" then some (name, value) else object.row? k := by
  unfold assignProperty
  by_cases hproto : name = "__proto__"
  · simp [hproto]
  · rw [if_neg hproto]
    cases arrayIndex? name with
    | none =>
        rw [Table.row?_set]
        simp [Keyed.key, hproto]
    | some index =>
        simp only
        rw [Table.row?_setAfter]
        simp [Keyed.key, hproto]

/-- Properties assigned one after the other. -/
def assignAll (object : Dict String α) (items : List (String × α)) : Dict String α :=
  items.foldl (fun object item => assignProperty object item.1 item.2) object

/-- A property holds the last value that was assigned to it. -/
theorem row?_assignAll (object : Dict String α) (items : List (String × α)) (k : String) :
    (assignAll object items).row? k =
      if k = "__proto__" then object.row? k
      else (items.reverse.find? fun item => item.1 = k).or (object.row? k) := by
  induction items generalizing object with
  | nil => simp [assignAll]
  | cons item rest ih =>
      have hcons : assignAll object (item :: rest) =
          assignAll (assignProperty object item.1 item.2) rest := rfl
      rw [hcons, ih, row?_assignProperty]
      by_cases hproto : k = "__proto__"
      · subst hproto
        simp
      · rw [if_neg hproto, if_neg hproto, List.reverse_cons, List.find?_append, Option.or_assoc]
        by_cases hname : item.1 = k
        · subst hname
          simp [hproto]
        · simp [hname]

/-- Properties that are assigned once each hold what was assigned. -/
theorem perm_assignAll {items : List (String × α)} (hnodup : (items.map Prod.fst).Nodup)
    (hproto : "__proto__" ∉ items.map Prod.fst) :
    (assignAll Table.empty items).rows.Perm items := by
  refine (List.perm_ext_iff_of_nodup (List.Nodup.of_map _ (assignAll Table.empty items).nodup)
    (List.Nodup.of_map _ hnodup)).mpr fun row => ?_
  have hlookup := row?_assignAll Table.empty items row.1
  rw [Table.row?_empty, Option.or_none] at hlookup
  constructor
  · intro hrow
    rw [show (assignAll Table.empty items).row? row.1 = some row from Table.row?_of_mem hrow]
      at hlookup
    split at hlookup
    · cases hlookup
    · exact List.mem_reverse.mp (List.mem_of_find?_eq_some hlookup.symm)
  · intro hrow
    have hne : row.1 ≠ "__proto__" := fun heq => hproto (heq ▸ List.mem_map_of_mem hrow)
    rw [if_neg hne, find?_eq_some_of_unique (List.mem_reverse.mpr hrow) (decide_eq_true rfl)
      fun other hother hname => List.inj_on_of_nodup_map hnodup (List.mem_reverse.mp hother) hrow
        (of_decide_eq_true hname)] at hlookup
    exact Table.mem_of_row? hlookup

/-- Properties are lost when a name is assigned twice or is `__proto__`. -/
theorem nodup_of_length_assignAll {items : List (String × α)}
    (h : (assignAll Table.empty items).rows.length = items.length) :
    (items.map Prod.fst).Nodup ∧ "__proto__" ∉ items.map Prod.fst := by
  let names := (items.map Prod.fst).filter (· ≠ "__proto__")
  have hsubset : (assignAll Table.empty items).rows.map Prod.fst ⊆ names.dedup := by
    intro name hname
    obtain ⟨row, hrow, rfl⟩ := List.mem_map.mp hname
    have hlookup := row?_assignAll Table.empty items row.1
    rw [show (assignAll Table.empty items).row? row.1 = some row from Table.row?_of_mem hrow,
      Table.row?_empty, Option.or_none] at hlookup
    split at hlookup
    · cases hlookup
    · next hne =>
        rw [List.mem_dedup, List.mem_filter]
        exact ⟨List.mem_map_of_mem (List.mem_reverse.mp (List.mem_of_find?_eq_some hlookup.symm)),
          decide_eq_true hne⟩
  have hlength := (List.Nodup.subperm (assignAll Table.empty items).nodup hsubset).length_le
  have hdedup : names.dedup.length ≤ names.length := (List.dedup_sublist names).length_le
  have hfilter : names.length ≤ (items.map Prod.fst).length := List.filter_sublist.length_le
  rw [List.length_map] at hlength hfilter
  have hall : names = items.map Prod.fst :=
    List.filter_sublist.eq_of_length (show names.length = _ by rw [List.length_map]; omega)
  have hnames : names.dedup = names :=
    (List.dedup_sublist names).eq_of_length (by omega)
  constructor
  · rw [← hall, ← hnames]
    exact List.nodup_dedup names
  · intro hmem
    rw [← hall] at hmem
    exact of_decide_eq_true (List.mem_filter.mp hmem).2 rfl

/-- Ordinary names keep the order in which they were assigned. -/
theorem rows_assignAll (object : Dict String α) (items : List (String × α))
    (hnodup : ((object.rows ++ items).map Prod.fst).Nodup)
    (hordinary : ∀ item ∈ items, OrdinaryName item.1) :
    (assignAll object items).rows = object.rows ++ items := by
  induction items generalizing object with
  | nil => simp [assignAll]
  | cons item rest ih =>
      obtain ⟨hproto, hindex⟩ := hordinary item List.mem_cons_self
      have hfresh : item.1 ∉ object.rows.map Prod.fst := by
        rw [List.map_append, List.map_cons] at hnodup
        exact fun hmem => (List.nodup_append'.mp hnodup).2.2 hmem List.mem_cons_self
      have hset : assignProperty object item.1 item.2 = object.set item := by
        simp only [assignProperty, if_neg hproto, hindex]
      have hrows : (object.set item).rows = object.rows ++ [item] := if_neg hfresh
      have hcons : assignAll object (item :: rest) = assignAll (object.set item) rest := by
        rw [← hset]
        rfl
      rw [hcons, ih (object.set item) ?_ fun other hother => hordinary other
        (List.mem_cons_of_mem _ hother), hrows, List.append_assoc, List.singleton_append]
      rwa [hrows, List.append_assoc, List.singleton_append]

end Assignment

section FreshNames

/-- The first of `base`, `base` with suffix 2, with suffix 3 and so on that is not
taken. -/
def freshName (base separator : String) (taken : List String) : String :=
  if base ∉ taken then base
  else (((List.range (taken.length + 1)).map fun n => base ++ separator ++ toString (n + 2)).find?
    fun name => name ∉ taken).getD base

/-- The decimal text of a number determines it. -/
theorem toString_nat_injective : Function.Injective fun n : Nat => toString n := by
  intro m n hmn
  have hdigits : Nat.toDigits 10 m = Nat.toDigits 10 n := by
    rw [← Nat.toList_repr, ← Nat.toList_repr]
    exact congrArg String.toList hmn
  rw [← Nat.ofDigitChars_toDigits (b := 10) (n := m) (by omega) (by omega), hdigits,
    Nat.ofDigitChars_toDigits (by omega) (by omega)]

/-- Among more names than are taken there is a free one. -/
theorem freshName_not_mem (base separator : String) (taken : List String) :
    freshName base separator taken ∉ taken := by
  unfold freshName
  split
  · assumption
  · have hinj : Function.Injective fun n : Nat => base ++ separator ++ toString (n + 2) := by
      intro m n hmn
      have hsuffix : toString (m + 2) = toString (n + 2) := by
        have hlists := congrArg String.toList hmn
        simp only [String.toList_append] at hlists
        exact String.toList_injective (List.append_cancel_left hlists)
      have hnumbers := toString_nat_injective hsuffix
      omega
    have hfree : ∃ name ∈ (List.range (taken.length + 1)).map
        fun n => base ++ separator ++ toString (n + 2), name ∉ taken := by
      by_contra hnone
      have hsubset : ((List.range (taken.length + 1)).map
          fun n => base ++ separator ++ toString (n + 2)) ⊆ taken := fun name hname => by
        by_contra hout
        exact hnone ⟨name, hname, hout⟩
      have hlength := (List.Nodup.subperm (List.nodup_range.map hinj) hsubset).length_le
      rw [List.length_map, List.length_range] at hlength
      omega
    obtain ⟨name, hname, hout⟩ := hfree
    cases hfound : ((List.range (taken.length + 1)).map
        fun n => base ++ separator ++ toString (n + 2)).find? fun name => name ∉ taken with
    | none => exact absurd hout (by simpa using List.find?_eq_none.mp hfound name hname)
    | some found => simpa using List.find?_some hfound

end FreshNames

/-- What stands before the first separator determines the split. -/
theorem append_separator_inj {α : Type u} {separator : α} {left left' right right' : List α}
    (hleft : separator ∉ left) (hleft' : separator ∉ left')
    (h : left ++ separator :: right = left' ++ separator :: right') :
    left = left' ∧ right = right' := by
  induction left generalizing left' with
  | nil =>
      cases left' with
      | nil => exact ⟨rfl, (List.cons.inj h).2⟩
      | cons c rest => exact absurd ((List.cons.inj h).1 ▸ List.mem_cons_self) hleft'
  | cons c rest ih =>
      cases left' with
      | nil => exact absurd ((List.cons.inj h).1 ▸ List.mem_cons_self) hleft
      | cons c' rest' =>
          obtain ⟨rfl, htail⟩ := List.cons.inj h
          obtain ⟨rfl, rfl⟩ := ih (fun hmem => hleft (List.mem_cons_of_mem _ hmem))
            (fun hmem => hleft' (List.mem_cons_of_mem _ hmem)) htail
          exact ⟨rfl, rfl⟩

end QhpcEcosystem
