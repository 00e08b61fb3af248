/-
A table is a list of rows in insertion order together with the proof that no
two rows carry the same primary key.  Updates are row functions that keep the
key, so the uniqueness proof travels with every statement that rewrites rows
and a lookup by key commutes with the rewrite.
-/
import Mathlib.Algebra.Ring.Nat
import Mathlib.Data.List.Nodup
import Mathlib.Data.List.Basic
import Mathlib.Data.List.Sort

namespace QhpcEcosystem

universe u v w

/-- The only element that satisfies a predicate is the first. -/
theorem find?_eq_some_of_unique {α : Type*} {p : α → Bool} {items : List α} {item : α}
    (hmem : item ∈ items) (hp : p item = true)
    (hunique : ∀ other ∈ items, p other = true → other = item) : items.find? p = some item := by
  cases hfound : items.find? p with
  | none => exact absurd hp (List.find?_eq_none.mp hfound item hmem)
  | some other =>
      rw [hunique other (List.mem_of_find?_eq_some hfound) (List.find?_some hfound)]

/-- The primary key of a row. -/
class Keyed (ρ : Type u) (κ : outParam (Type v)) where
  key : ρ → κ

/-- Sample keys are the two elements of `Fin 2`. -/
instance twoKeys : NeZero 2 := ⟨by decide⟩

instance keyedPair {κ : Type v} {α : Type u} : Keyed (κ × α) κ := ⟨Prod.fst⟩

/-- Rows in insertion order, no two of them under one key. -/
structure Table (ρ : Type u) {κ : Type v} [Keyed ρ κ] where
  rows : List ρ
  nodup : (rows.map Keyed.key).Nodup
deriving DecidableEq

/-- A dictionary is a table of pairs keyed by their first component. -/
abbrev Dict (κ : Type v) (α : Type u) := Table (κ × α)

/-- A row function that keeps the primary key. -/
structure RowUpdate (ρ : Type u) {κ : Type v} [Keyed ρ κ] where
  apply : ρ → ρ
  key_apply : ∀ row, Keyed.key (apply row) = (Keyed.key row : κ) := by intro; rfl

namespace RowUpdate

variable {ρ : Type u} {κ : Type v} [Keyed ρ κ]

/-- Keep every row. -/
def keep : RowUpdate ρ where
  apply row := row

/-- Rewrite the rows that satisfy `p`. -/
def onlyIf (p : ρ → Bool) (f : RowUpdate ρ) : RowUpdate ρ where
  apply row := if p row then f.apply row else row
  key_apply row := by
    split
    · exact f.key_apply row
    · rfl

/-- Rewrite the row under one key. -/
def forKey [DecidableEq κ] (k : κ) (f : RowUpdate ρ) : RowUpdate ρ :=
  onlyIf (fun row => decide (Keyed.key row = k)) f

/-- One update after another. -/
def andThen (f g : RowUpdate ρ) : RowUpdate ρ where
  apply row := g.apply (f.apply row)
  key_apply row := (g.key_apply _).trans (f.key_apply row)

@[simp] theorem andThen_apply (f g : RowUpdate ρ) (row : ρ) :
    (f.andThen g).apply row = g.apply (f.apply row) := rfl

@[simp] theorem keep_apply (row : ρ) : (keep : RowUpdate ρ).apply row = row := rfl

theorem onlyIf_apply (p : ρ → Bool) (f : RowUpdate ρ) (row : ρ) :
    (onlyIf p f).apply row = if p row then f.apply row else row := rfl

theorem forKey_apply [DecidableEq κ] (k : κ) (f : RowUpdate ρ) (row : ρ) :
    (RowUpdate.forKey k f).apply row = if Keyed.key row = k then f.apply row else row := by
  simp [RowUpdate.forKey, onlyIf_apply]

end RowUpdate

namespace Table

variable {ρ : Type u} {κ : Type v} [Keyed ρ κ] {row other : ρ} {k : κ}

def empty : Table ρ := ⟨[], List.nodup_nil⟩

instance : Inhabited (Table ρ) := ⟨empty⟩

@[simp] theorem rows_empty : (empty : Table ρ).rows = [] := rfl

theorem eq_of_key_eq (T : Table ρ) (hrow : row ∈ T.rows) (hother : other ∈ T.rows)
    (hkey : Keyed.key row = (Keyed.key other : κ)) : row = other :=
  (List.inj_on_of_nodup_map T.nodup) hrow hother hkey

/-- Rewrite every row that satisfies `p`. -/
def updateWhere (T : Table ρ) (p : ρ → Bool) (f : RowUpdate ρ) : Table ρ where
  rows := T.rows.map fun row => if p row then f.apply row else row
  nodup := by
    have hkeys : (fun row => Keyed.key (if p row then f.apply row else row)) =
        (Keyed.key : ρ → κ) := by
      funext row
      by_cases hp : p row
      · simp [hp, f.key_apply]
      · simp [hp]
    simpa [List.map_map, Function.comp_def, hkeys] using T.nodup

theorem rows_updateWhere (T : Table ρ) (p : ρ → Bool) (f : RowUpdate ρ) :
    (T.updateWhere p f).rows = T.rows.map (RowUpdate.onlyIf p f).apply := rfl

/-- The rows in the order of their keys. -/
def sorted [LE κ] [DecidableLE κ] (T : Table ρ) : Table ρ where
  rows := T.rows.insertionSort fun row other => (Keyed.key row : κ) ≤ Keyed.key other
  nodup := ((List.perm_insertionSort _ T.rows).map Keyed.key).nodup_iff.mpr T.nodup

theorem rows_sorted_perm [LE κ] [DecidableLE κ] (T : Table ρ) : T.sorted.rows.Perm T.rows :=
  List.perm_insertionSort _ T.rows

@[simp] theorem mem_rows_sorted [LE κ] [DecidableLE κ] {T : Table ρ} :
    row ∈ T.sorted.rows ↔ row ∈ T.rows :=
  T.rows_sorted_perm.mem_iff

/-- Items drawn from rows keep the order of the rows. -/
theorem sublist_map_filterMap {ι : Type w} (rows : List ρ) (draw : ρ → Option ι)
    (key : ι → κ) (hkey : ∀ row ∈ rows, ∀ item, draw row = some item →
      key item = Keyed.key row) :
    ((rows.filterMap draw).map key).Sublist (rows.map Keyed.key) := by
  induction rows with
  | nil => simp
  | cons row rest ih =>
      have hrest := ih fun other hother => hkey other (List.mem_cons_of_mem _ hother)
      cases hdraw : draw row with
      | none =>
          rw [List.filterMap_cons_none hdraw, List.map_cons]
          exact hrest.cons _
      | some item =>
          rw [List.filterMap_cons_some hdraw, List.map_cons, List.map_cons,
            hkey row List.mem_cons_self item hdraw]
          exact hrest.cons_cons _

variable [DecidableEq κ]

/-- The row stored under a key. -/
def row? (T : Table ρ) (k : κ) : Option ρ :=
  T.rows.find? fun row => decide (Keyed.key row = k)

@[simp] theorem row?_empty (k : κ) : (empty : Table ρ).row? k = none := rfl

theorem key_of_row? {T : Table ρ} (h : T.row? k = some row) : Keyed.key row = k := by
  have := List.find?_some h
  simpa using this

theorem mem_of_row? {T : Table ρ} (h : T.row? k = some row) : row ∈ T.rows :=
  List.mem_of_find?_eq_some h

theorem row?_of_mem {T : Table ρ} (h : row ∈ T.rows) :
    T.row? (Keyed.key row) = some row := by
  cases hfound : T.row? (Keyed.key row) with
  | none =>
      have := List.find?_eq_none.mp hfound row h
      simp at this
  | some found =>
      rw [T.eq_of_key_eq (mem_of_row? hfound) h (key_of_row? hfound)]

theorem mem_rows_iff {T : Table ρ} : row ∈ T.rows ↔ T.row? (Keyed.key row) = some row :=
  ⟨row?_of_mem, mem_of_row?⟩

theorem row?_eq_some_iff {T : Table ρ} :
    T.row? k = some row ↔ row ∈ T.rows ∧ Keyed.key row = k := by
  constructor
  · exact fun h => ⟨mem_of_row? h, key_of_row? h⟩
  · rintro ⟨hmem, rfl⟩
    exact row?_of_mem hmem

theorem row?_eq_none_iff {T : Table ρ} :
    T.row? k = none ↔ ∀ row ∈ T.rows, Keyed.key row ≠ k := by
  simp [row?, List.find?_eq_none]

/-- Looking a key up after an update rewrites the row found before it. -/
@[simp] theorem row?_sorted [LE κ] [DecidableLE κ] (T : Table ρ) (k : κ) :
    T.sorted.row? k = T.row? k :=
  Option.ext fun row => by rw [row?_eq_some_iff, row?_eq_some_iff, mem_rows_sorted]

@[simp] theorem row?_updateWhere (T : Table ρ) (p : ρ → Bool) (f : RowUpdate ρ) (k : κ) :
    (T.updateWhere p f).row? k =
      (T.row? k).map fun row => if p row then f.apply row else row := by
  simp only [row?, rows_updateWhere, List.find?_map]
  congr 2
  funext row
  simp [RowUpdate.key_apply]

/-- Rewrite the row stored under one key. -/
def update (T : Table ρ) (k : κ) (f : RowUpdate ρ) : Table ρ :=
  T.updateWhere (fun row => decide (Keyed.key row = k)) f

theorem rows_update (T : Table ρ) (k : κ) (f : RowUpdate ρ) :
    (T.update k f).rows = T.rows.map (RowUpdate.forKey k f).apply := rfl

/-- The rows of a table after an update, followed by new rows. -/
theorem row?_of_rows {T T' : Table ρ} {f : RowUpdate ρ} {added : List ρ}
    (h : T'.rows = T.rows.map f.apply ++ added) (k : κ) :
    T'.row? k = ((T.row? k).map f.apply).or
      (added.find? fun row => decide (Keyed.key row = k)) := by
  rw [row?, h, List.find?_append, List.find?_map]
  congr 2
  simp only [row?]
  congr 1
  funext row
  simp [f.key_apply]

/-- An item drawn from the rows is found under the key of its row. -/
theorem find?_filterMap {ι : Type w} (T : Table ρ) (draw : ρ → Option ι) (key : ι → κ)
    (hkey : ∀ row ∈ T.rows, ∀ item, draw row = some item → key item = Keyed.key row)
    (hrow : row ∈ T.rows) :
    (T.rows.filterMap draw).find? (fun item => decide (key item = Keyed.key row)) =
      draw row := by
  cases hfound : (T.rows.filterMap draw).find? fun item => decide (key item =
      (Keyed.key row : κ)) with
  | none =>
      cases hdraw : draw row with
      | none => rfl
      | some item =>
          have := List.find?_eq_none.mp hfound item
            (List.mem_filterMap.mpr ⟨row, hrow, hdraw⟩)
          simp [hkey row hrow item hdraw] at this
  | some item =>
      obtain ⟨source, hsource, hdraw⟩ :=
        List.mem_filterMap.mp (List.mem_of_find?_eq_some hfound)
      have heq : key item = Keyed.key row := by simpa using List.find?_some hfound
      have hsame : source = row := T.eq_of_key_eq hsource hrow
        ((hkey source hsource item hdraw).symm.trans heq)
      rw [← hsame, hdraw]

/-- Updates under distinct keys, one after the other, act as one update of all
rows. -/
theorem rows_foldl_update {ι : Type w} (items : List ι) (key : ι → κ)
    (f : ι → RowUpdate ρ) (hnodup : (items.map key).Nodup) (T : Table ρ) :
    (items.foldl (fun T item => T.update (key item) (f item)) T).rows =
      T.rows.map fun row =>
        match items.find? fun item => decide (key item = Keyed.key row) with
        | some item => (f item).apply row
        | none => row := by
  induction items generalizing T with
  | nil => simp
  | cons item rest ih =>
      obtain ⟨hfresh, hrest⟩ := List.nodup_cons.mp hnodup
      rw [List.foldl_cons, ih hrest, update, rows_updateWhere, List.map_map]
      apply List.map_congr_left
      intro row _
      by_cases hkey : key item = Keyed.key row
      · have hnone : rest.find? (fun other => decide (key other =
            (Keyed.key row : κ))) = none := by
          rw [List.find?_eq_none]
          intro other hother heq
          apply hfresh
          rw [hkey, ← of_decide_eq_true heq]
          exact List.mem_map_of_mem hother
        simp [RowUpdate.onlyIf_apply, hkey, (f item).key_apply, hnone]
      · have hkey' : ¬ Keyed.key row = key item := fun h => hkey h.symm
        simp [RowUpdate.onlyIf_apply, hkey, hkey']

/-- Rewriting the selected rows one by one rewrites every selected row. -/
theorem rows_foldl_update_filter (T : Table ρ) (p : ρ → Bool) (f : RowUpdate ρ) :
    ((T.rows.filter p).foldl (fun T row => T.update (Keyed.key row) f) T).rows =
      T.rows.map (RowUpdate.onlyIf p f).apply := by
  rw [rows_foldl_update (T.rows.filter p) Keyed.key (fun _ => f)
    ((List.filter_sublist.map Keyed.key).nodup T.nodup)]
  apply List.map_congr_left
  intro row hrow
  by_cases hp : p row
  · have hfound : (T.rows.filter p).find? (fun item => decide (Keyed.key item =
        (Keyed.key row : κ))) ≠ none := by
      rw [Ne, List.find?_eq_none]
      intro h
      exact h row (List.mem_filter.mpr ⟨hrow, hp⟩) (by simp)
    obtain ⟨item, hitem⟩ := Option.ne_none_iff_exists'.mp hfound
    simp [hitem, RowUpdate.onlyIf_apply, hp]
  · have hnone : (T.rows.filter p).find? (fun item => decide (Keyed.key item =
        (Keyed.key row : κ))) = none := by
      rw [List.find?_eq_none]
      intro item hitem heq
      obtain ⟨hmem, hsat⟩ := List.mem_filter.mp hitem
      rw [T.eq_of_key_eq hmem hrow (of_decide_eq_true heq)] at hsat
      exact hp hsat
    simp [hnone, RowUpdate.onlyIf_apply, hp]

theorem row?_update (T : Table ρ) (k k' : κ) (f : RowUpdate ρ) :
    (T.update k f).row? k' =
      if k' = k then (T.row? k').map f.apply else T.row? k' := by
  rw [update, row?_updateWhere]
  cases hfound : T.row? k' with
  | none => simp
  | some row =>
      have hkey := key_of_row? hfound
      by_cases heq : k' = k
      · simp [hkey, heq]
      · simp [hkey, heq]

@[simp] theorem row?_update_self (T : Table ρ) (k : κ) (f : RowUpdate ρ) :
    (T.update k f).row? k = (T.row? k).map f.apply := by
  simp [row?_update]

theorem row?_update_of_ne (T : Table ρ) {k k' : κ} (f : RowUpdate ρ) (hne : k' ≠ k) :
    (T.update k f).row? k' = T.row? k' := by
  simp [row?_update, hne]

/-- An update of one row adds or removes at most that row from a count. -/
theorem countP_update (T : Table ρ) (hrow : row ∈ T.rows) (f : RowUpdate ρ) (p : ρ → Bool) :
    (T.update (Keyed.key row) f).rows.countP p + (if p row then 1 else 0) =
      T.rows.countP p + if p (f.apply row) then 1 else 0 := by
  obtain ⟨before, after, hsplit⟩ := List.append_of_mem hrow
  have hnodup := T.nodup
  rw [hsplit, List.map_append, List.map_cons] at hnodup
  obtain ⟨-, hcons, hdisjoint⟩ := List.nodup_append'.mp hnodup
  have hother : ∀ rows : List ρ, (∀ other ∈ rows, (Keyed.key other : κ) ≠ Keyed.key row) →
      rows.map (RowUpdate.forKey (Keyed.key row) f).apply = rows := by
    intro rows hrows
    refine (List.map_congr_left fun other hmem => ?_).trans (List.map_id rows)
    rw [RowUpdate.forKey_apply]
    exact if_neg (hrows other hmem)
  have hbefore := hother before fun other hmem hkey =>
    hdisjoint (List.mem_map_of_mem hmem) (by rw [hkey]; exact List.mem_cons_self)
  have hafter := hother after fun other hmem hkey =>
    (List.nodup_cons.mp hcons).1 (by rw [← hkey]; exact List.mem_map_of_mem hmem)
  have hself : (RowUpdate.forKey (Keyed.key row) f).apply row = f.apply row := by
    rw [RowUpdate.forKey_apply]
    exact if_pos rfl
  rw [rows_update, hsplit, List.map_append, List.map_cons, hbefore, hafter, hself,
    List.countP_append, List.countP_append, List.countP_cons, List.countP_cons]
  omega

/-- Append a row; a row under an existing key is refused, as a primary key
constraint does. -/
def insert? (T : Table ρ) (row : ρ) : Option (Table ρ) :=
  if h : Keyed.key row ∈ T.rows.map (Keyed.key : ρ → κ) then none
  else some ⟨T.rows ++ [row], by
    rw [List.map_append, List.nodup_append']
    refine ⟨T.nodup, by simp, ?_⟩
    simpa [List.disjoint_left] using h⟩

theorem insert?_rows {T T' : Table ρ} (h : T.insert? row = some T') :
    T'.rows = T.rows ++ [row] := by
  unfold insert? at h
  split at h
  · cases h
  · cases h
    rfl

theorem row?_key_of_insert? {T T' : Table ρ} (h : T.insert? row = some T') :
    T.row? (Keyed.key row) = none := by
  unfold insert? at h
  split at h
  · cases h
  · next hfresh =>
      rw [row?_eq_none_iff]
      intro old hold heq
      exact hfresh (List.mem_map.mpr ⟨old, hold, heq⟩)

theorem row?_insert? {T T' : Table ρ} (h : T.insert? row = some T') (k : κ) :
    T'.row? k = if Keyed.key row = k then some row else T.row? k := by
  have hfresh := row?_key_of_insert? h
  rw [row?, insert?_rows h, List.find?_append]
  by_cases heq : Keyed.key row = k
  · subst heq
    rw [row?] at hfresh
    simp [hfresh]
  · simp [heq, row?]

theorem insert?_isSome {T : Table ρ} (h : T.row? (Keyed.key row) = none) :
    ∃ T', T.insert? row = some T' := by
  unfold insert?
  split
  · next hmem =>
      obtain ⟨old, hold, heq⟩ := List.mem_map.mp hmem
      exact absurd heq (row?_eq_none_iff.mp h old hold)
  · exact ⟨_, rfl⟩

theorem row?_of_insert?_eq_none {T : Table ρ} (h : T.insert? row = none) :
    ∃ found, T.row? (Keyed.key row) = some found := by
  by_contra hnone
  obtain ⟨T', hinsert⟩ := insert?_isSome (Option.eq_none_iff_forall_ne_some.mpr
    fun found hfound => hnone ⟨found, hfound⟩)
  rw [h] at hinsert
  cases hinsert

/-- Store a row under its key: in place when the key is present, at the end
otherwise.  On pairs this is item assignment of a dictionary. -/
def set (T : Table ρ) (row : ρ) : Table ρ where
  rows := if Keyed.key row ∈ T.rows.map (Keyed.key : ρ → κ) then
      T.rows.map fun old => if Keyed.key old = (Keyed.key row : κ) then row else old
    else T.rows ++ [row]
  nodup := by
    split
    · have hkeys : (fun old => Keyed.key (if Keyed.key old = (Keyed.key row : κ)
          then row else old)) = (Keyed.key : ρ → κ) := by
        funext old
        by_cases heq : Keyed.key old = (Keyed.key row : κ)
        · simp [heq]
        · simp [heq]
      simpa [List.map_map, Function.comp_def, hkeys] using T.nodup
    · next hfresh =>
        rw [List.map_append, List.nodup_append']
        refine ⟨T.nodup, by simp, ?_⟩
        simpa [List.disjoint_left] using hfresh

theorem row?_set (T : Table ρ) (row : ρ) (k : κ) :
    (T.set row).row? k = if Keyed.key row = k then some row else T.row? k := by
  simp only [row?, set]
  split
  · next hmem =>
      rw [List.find?_map]
      by_cases heq : Keyed.key row = k
      · obtain ⟨old, hold, hkey⟩ := List.mem_map.mp hmem
        have hfound : T.row? k = some old :=
          row?_eq_some_iff.mpr ⟨hold, hkey.trans heq⟩
        have hpred : ((fun old => decide (Keyed.key old = k)) ∘
            fun old => if Keyed.key old = (Keyed.key row : κ) then row else old) =
            fun old => decide (Keyed.key old = k) := by
          funext old
          by_cases hold : Keyed.key old = (Keyed.key row : κ)
          · simp [hold]
          · simp [hold]
        rw [hpred, ← row?, hfound]
        simp [heq, hkey]
      · have hpred : ((fun old => decide (Keyed.key old = k)) ∘
            fun old => if Keyed.key old = (Keyed.key row : κ) then row else old) =
            fun old => decide (Keyed.key old = k) := by
          funext old
          by_cases hold : Keyed.key old = (Keyed.key row : κ)
          · simp [hold]
          · simp [hold]
        rw [hpred, ← row?, if_neg heq]
        cases hfound : T.row? k with
        | none => rfl
        | some found =>
            have hkey := key_of_row? hfound
            have hne : ¬ Keyed.key found = (Keyed.key row : κ) := by
              rw [hkey]
              exact fun h => heq h.symm
            simp [hne]
  · next hfresh =>
      rw [List.find?_append]
      by_cases heq : Keyed.key row = k
      · have hnone : T.rows.find? (fun old => decide (Keyed.key old = k)) = none := by
          rw [List.find?_eq_none]
          intro old hold hkey
          exact hfresh (List.mem_map.mpr ⟨old, hold, by
            rw [heq]
            simpa using hkey⟩)
        simp [heq, hnone]
      · simp [heq]

/-- Remove the row under a key. -/
def remove (T : Table ρ) (k : κ) : Table ρ where
  rows := T.rows.filter fun row => decide (Keyed.key row ≠ k)
  nodup := T.nodup.sublist (List.filter_sublist.map Keyed.key)

theorem row?_remove (T : Table ρ) (k k' : κ) :
    (T.remove k).row? k' = if k' = k then none else T.row? k' := by
  simp only [row?, remove, List.find?_filter]
  split
  · next heq =>
      rw [List.find?_eq_none]
      intro row _ hrow
      simp [heq] at hrow
  · next hne =>
      congr 1
      funext row
      by_cases heq : Keyed.key row = k'
      · simp [heq, hne]
      · simp [heq]

/-- Rows stored one after the other under different keys. -/
theorem row?_foldl_set (rows : List ρ) (hnodup : (rows.map (Keyed.key : ρ → κ)).Nodup)
    (T : Table ρ) (k : κ) : (rows.foldl set T).row? k =
      (rows.find? fun row => decide (Keyed.key row = k)).or (T.row? k) := by
  induction rows generalizing T with
  | nil => simp
  | cons head rest ih =>
      obtain ⟨hfresh, hrest⟩ := List.nodup_cons.mp hnodup
      rw [List.foldl_cons, ih hrest, row?_set]
      by_cases heq : Keyed.key head = k
      · have hnone : rest.find? (fun row => decide (Keyed.key row = k)) = none := by
          rw [List.find?_eq_none]
          intro row hrow hkey
          exact hfresh (List.mem_map.mpr ⟨row, hrow, (of_decide_eq_true hkey).trans heq.symm⟩)
        simp [heq, hnone]
      · simp [heq]

end Table

end QhpcEcosystem
