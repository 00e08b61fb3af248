/-
Stable sorting by a key.  Items of one key keep their order, so the sorted list depends on
the order of the items exactly where two of them share a key.  A key may also fail, and then
sorting and the choice of a greatest item fail with it.
-/
import Mathlib.Data.List.Sort
import Mathlib.Data.List.MinMax
import Mathlib.Data.List.Pairwise

namespace QhpcEcosystem

section KeySorting

universe u v

variable {α : Type u} {κ : Type v} [LinearOrder κ] (key : α → κ)

def sortByKey (items : List α) : List α :=
  items.insertionSort fun first second => key first ≤ key second

instance keyTotal : Std.Total fun first second => key first ≤ key second :=
  ⟨fun first second => le_total (key first) (key second)⟩

instance keyTrans : IsTrans α fun first second => key first ≤ key second :=
  ⟨fun _ _ _ hfirst hsecond => le_trans hfirst hsecond⟩

theorem sortByKey_perm (items : List α) : (sortByKey key items).Perm items :=
  List.perm_insertionSort _ items

theorem pairwise_sortByKey (items : List α) :
    (sortByKey key items).Pairwise fun first second => key first ≤ key second :=
  List.pairwise_insertionSort _ items

/-- Two items in either order, the relation going up with the key. -/
def RelatedUpward (R : α → α → Prop) (first second : α) : Prop :=
  (key first ≤ key second ∧ R first second) ∨ (key second ≤ key first ∧ R second first)

instance relatedUpwardSymm (R : α → α → Prop) : Std.Symm (RelatedUpward key R) :=
  ⟨fun _ _ h => h.symm⟩

/-- A relation between items of one key holds along the sorted list exactly when it holds from
every smaller key to every greater one. -/
theorem pairwise_sortByKey_iff {items : List α} {R : α → α → Prop}
    (hties : ∀ first ∈ items, ∀ second ∈ items, key first = key second → R first second) :
    (sortByKey key items).Pairwise R ↔
      ∀ first ∈ items, ∀ second ∈ items, key first < key second → R first second := by
  have hmem : ∀ item, item ∈ sortByKey key items ↔ item ∈ items :=
    fun item => (sortByKey_perm key items).mem_iff
  constructor
  · intro h first hfirst second hsecond hlt
    have hupward : (sortByKey key items).Pairwise (RelatedUpward key R) :=
      ((pairwise_sortByKey key items).and h).imp fun hboth => Or.inl hboth
    have hself : ∀ item ∈ sortByKey key items, RelatedUpward key R item item := by
      intro item hitem
      have hitem := (hmem item).mp hitem
      exact Or.inl ⟨le_rfl, hties item hitem item hitem rfl⟩
    cases hupward.forall_of_forall hself ((hmem first).mpr hfirst) ((hmem second).mpr hsecond) with
    | inl hbefore => exact hbefore.2
    | inr hbehind => exact absurd hbehind.1 (not_le_of_gt hlt)
  · intro h
    apply (pairwise_sortByKey key items).imp_of_mem
    intro first second hfirst hsecond hle
    have hfirst := (hmem first).mp hfirst
    have hsecond := (hmem second).mp hsecond
    cases lt_or_eq_of_le hle with
    | inl hlt => exact h first hfirst second hsecond hlt
    | inr heq => exact hties first hfirst second hsecond heq

/-- Where the key separates the items, the order they come in does not matter. -/
theorem sortByKey_eq_of_perm {items items' : List α} (h : items.Perm items')
    (hkey : ∀ first ∈ items, ∀ second ∈ items, key first = key second → first = second) :
    sortByKey key items = sortByKey key items' := by
  have hperm : (sortByKey key items).Perm (sortByKey key items') :=
    (sortByKey_perm key items).trans (h.trans (sortByKey_perm key items').symm)
  apply hperm.eq_of_pairwise ?_ (pairwise_sortByKey key items) (pairwise_sortByKey key items')
  intro first second hfirst hsecond hle hge
  have hfirst := (sortByKey_perm key items).mem_iff.mp hfirst
  have hsecond := h.mem_iff.mpr ((sortByKey_perm key items').mem_iff.mp hsecond)
  exact hkey first hfirst second hsecond (le_antisymm hle hge)

/-- The items of one key keep their order. -/
theorem filter_sortByKey (items : List α) (value : κ) :
    (sortByKey key items).filter (key · = value) = items.filter (key · = value) := by
  -- an item is inserted in front of its equals
  have hinsert : ∀ (item : α) (sorted : List α),
      (sorted.orderedInsert (fun first second => key first ≤ key second) item).filter
        (key · = value) = (item :: sorted).filter (key · = value) := by
    intro item sorted
    induction sorted with
    | nil => rfl
    | cons next rest ih =>
        by_cases hle : key item ≤ key next
        · rw [List.orderedInsert_cons, if_pos hle]
        · rw [List.orderedInsert_cons, if_neg hle, List.filter_cons, ih]
          by_cases hitem : key item = value
          · have hnext : key next ≠ value := by
              intro hnext
              exact hle (le_of_eq (hitem.trans hnext.symm))
            simp [hitem, hnext]
          · simp [hitem, List.filter_cons]
  induction items with
  | nil => rfl
  | cons item rest ih =>
      rw [sortByKey, List.insertionSort_cons, hinsert, List.filter_cons, List.filter_cons]
      rw [sortByKey] at ih
      rw [ih]

/-- Two different items of one key are told apart by the order they come in. -/
theorem sortByKey_swap_ne {first second : α} (hkey : key first = key second)
    (hne : first ≠ second) (rest : List α) :
    sortByKey key (first :: second :: rest) ≠ sortByKey key (second :: first :: rest) := by
  intro heq
  have hfilter := congrArg (List.filter (key · = key first)) heq
  rw [filter_sortByKey, filter_sortByKey] at hfilter
  simp only [List.filter_cons, hkey, decide_true, if_true, List.cons.injEq] at hfilter
  exact hne hfilter.1

end KeySorting

/-! ## Keys that may fail -/

section FallibleKeys

universe u v w

variable {ε : Type w} {α : Type u} {κ : Type u} {keyOf : α → Except ε κ}

/-- The items with their keys, which are all computed first. -/
def withKeys (keyOf : α → Except ε κ) (items : List α) : Except ε (List (κ × α)) :=
  items.mapM fun item => (keyOf item).map fun key => (key, item)

theorem withKeys_of_forall {key : α → κ} {items : List α}
    (h : ∀ item ∈ items, keyOf item = .ok (key item)) :
    withKeys keyOf items = .ok (items.map fun item => (key item, item)) := by
  induction items with
  | nil => rfl
  | cons item rest ih =>
      rw [List.forall_mem_cons] at h
      have hrest := ih h.2
      unfold withKeys at hrest ⊢
      rw [List.mapM_cons, h.1, hrest]
      rfl

theorem exists_key_of_withKeys {items : List α} {keyed : List (κ × α)}
    (h : withKeys keyOf items = .ok keyed) : ∀ item ∈ items, ∃ key, keyOf item = .ok key := by
  induction items generalizing keyed with
  | nil => simp
  | cons item rest ih =>
      unfold withKeys at h ih
      rw [List.mapM_cons] at h
      cases hkey : keyOf item with
      | error raised =>
          rw [hkey] at h
          contradiction
      | ok key =>
          rw [hkey] at h
          cases hrest : rest.mapM fun item => (keyOf item).map fun key => (key, item) with
          | error raised =>
              rw [hrest] at h
              contradiction
          | ok others => exact List.forall_mem_cons.mpr ⟨⟨key, hkey⟩, ih hrest⟩

variable [LinearOrder κ]

def sortByKeyOf (keyOf : α → Except ε κ) (items : List α) : Except ε (List α) :=
  (withKeys keyOf items).map fun keyed => (sortByKey Prod.fst keyed).map Prod.snd

/-- The first of the items with the greatest key. -/
def maxByKeyOf (keyOf : α → Except ε κ) (items : List α) : Except ε (Option α) :=
  (withKeys keyOf items).map fun keyed => (keyed.argmax Prod.fst).map Prod.snd

theorem sortByKeyOf_of_forall {key : α → κ} {items : List α}
    (h : ∀ item ∈ items, keyOf item = .ok (key item)) :
    sortByKeyOf keyOf items = .ok (sortByKey key items) := by
  have hsorted : sortByKey Prod.fst (items.map fun item => (key item, item)) =
      (sortByKey key items).map fun item => (key item, item) :=
    (List.map_insertionSort (fun first second : α => key first ≤ key second)
      (fun first second : κ × α => first.1 ≤ second.1) (fun item => (key item, item)) items
      fun _ _ _ _ => Iff.rfl).symm
  rw [sortByKeyOf, withKeys_of_forall h]
  simp [Except.map, hsorted, Function.comp_def]

theorem argmax_map_keys (key : α → κ) (items : List α) :
    ((items.map fun item => (key item, item)).argmax Prod.fst).map Prod.snd =
      items.argmax key := by
  induction items with
  | nil => rfl
  | cons item rest ih =>
      rw [List.map_cons, List.argmax_cons, List.argmax_cons, ← ih]
      cases hgreatest : (rest.map fun item => (key item, item)).argmax Prod.fst with
      | none => rfl
      | some pair =>
          have hpair : pair.1 = key pair.2 := by
            obtain ⟨other, -, rfl⟩ := List.mem_map.mp (List.argmax_mem hgreatest)
            rfl
          simp only [Option.map_some, hpair]
          split <;> rfl

theorem maxByKeyOf_of_forall {key : α → κ} {items : List α}
    (h : ∀ item ∈ items, keyOf item = .ok (key item)) :
    maxByKeyOf keyOf items = .ok (items.argmax key) := by
  rw [maxByKeyOf, withKeys_of_forall h, ← argmax_map_keys key items]
  rfl

/-- Of items with the same key the first one is taken, once its key is there. -/
theorem maxByKeyOf_of_same (result : Except ε κ) {items : List α}
    (h : ∀ item ∈ items, keyOf item = result) :
    maxByKeyOf keyOf items =
      match items.head? with
      | none => .ok none
      | some item => result.map fun _ => some item := by
  cases items with
  | nil => rfl
  | cons item rest =>
      cases result with
      | error raised =>
          rw [List.forall_mem_cons] at h
          simp [maxByKeyOf, withKeys, h.1, Except.map, bind, Except.bind]
      | ok key =>
          have hgreatest : maxByKeyOf keyOf (item :: rest) =
              .ok ((item :: rest).argmax fun _ => key) := maxByKeyOf_of_forall h
          rw [hgreatest, List.argmax_cons]
          cases rest.argmax fun _ => key with
          | none => rfl
          | some other => simp [Except.map]

theorem exists_key_of_sortByKeyOf {items sorted : List α}
    (h : sortByKeyOf keyOf items = .ok sorted) : ∀ item ∈ items, ∃ key, keyOf item = .ok key := by
  unfold sortByKeyOf at h
  cases hkeyed : withKeys keyOf items with
  | error raised =>
      rw [hkeyed] at h
      contradiction
  | ok keyed => exact exists_key_of_withKeys hkeyed

theorem exists_key_of_maxByKeyOf {items : List α} {greatest : Option α}
    (h : maxByKeyOf keyOf items = .ok greatest) : ∀ item ∈ items, ∃ key, keyOf item = .ok key := by
  unfold maxByKeyOf at h
  cases hkeyed : withKeys keyOf items with
  | error raised =>
      rw [hkeyed] at h
      contradiction
  | ok keyed => exact exists_key_of_withKeys hkeyed

end FallibleKeys

end QhpcEcosystem
