/-
The lookup of a capability in a registry.  It takes the greatest version by a key whose
numbers are read by `int`, and `int` refuses a text of more decimal digits than its limit:
a version with such a number has no key, and every lookup that meets it raises.
-/
import QhpcEcosystem.Contract
import QhpcEcosystem.SemanticVersions
import QhpcEcosystem.KeySorting

namespace QhpcEcosystem

open SemanticVersion

/-! ## Keys of versions -/

/-- `sys.int_info.default_max_str_digits` -/
def intDigitLimit : ℕ := 4300

/-- `int` on a text of decimal digits. -/
def intOfDigits (digits : List Char) : Except Exn ℕ :=
  if digits.length ≤ intDigitLimit then .ok (decimalValue digits)
  else .error ⟨.valueError, "Exceeds the limit (" ++ toString intDigitLimit ++
    " digits) for integer string conversion: value has " ++ toString digits.length ++
    " digits; use sys.set_int_max_str_digits() to increase the limit", []⟩

/-- `_version_key` -/
def versionKey (value : String) : Except Exn TextualKey :=
  match parse? value.toList with
  | none => .ok (toLex (0, toLex (0, toLex (0, toLex (0, value)))))
  | some version =>
      -- the three numbers are read one after the other
      (((numbersPart value.toList).splitOn '.').mapM intOfDigits).map fun _ => version.textualKey

/-- The numbers in front of a pre-release and a build part are texts that `int` reads. -/
def numbersReadable (text : List Char) : Bool :=
  ((numbersPart text).splitOn '.').all (·.length ≤ intDigitLimit)

/-- A version of the grammar with a number that `int` refuses. -/
def OverlongVersion (text : String) : Prop :=
  (parse? text.toList).isSome ∧ numbersReadable text.toList = false

instance (text : String) : Decidable (OverlongVersion text) :=
  inferInstanceAs (Decidable ((parse? text.toList).isSome = true ∧
    numbersReadable text.toList = false))

theorem mapM_intOfDigits (numbers : List (List Char)) :
    (numbers.all (·.length ≤ intDigitLimit) = true ∧
      numbers.mapM intOfDigits = .ok (numbers.map decimalValue)) ∨
    (numbers.all (·.length ≤ intDigitLimit) = false ∧
      ∃ error, numbers.mapM intOfDigits = .error error ∧ error.cls = .valueError) := by
  induction numbers with
  | nil => exact Or.inl ⟨rfl, rfl⟩
  | cons digits rest ih =>
      rw [List.all_cons, List.mapM_cons]
      by_cases hlength : digits.length ≤ intDigitLimit
      · rw [intOfDigits, if_pos hlength, decide_eq_true hlength, Bool.true_and]
        rcases ih with ⟨hall, hread⟩ | ⟨hall, error, hread, hcls⟩
        · exact Or.inl ⟨hall, by rw [hread]; rfl⟩
        · exact Or.inr ⟨hall, error, by rw [hread]; rfl, hcls⟩
      · rw [intOfDigits, if_neg hlength, decide_eq_false hlength, Bool.false_and]
        exact Or.inr ⟨rfl, _, rfl, rfl⟩

/-- A version has no key exactly when `int` refuses one of its numbers. -/
theorem versionKey_cases (value : String) :
    (¬ OverlongVersion value ∧ versionKey value =
      .ok ((parse? value.toList).getD ⟨0, 0, 0, some value⟩).textualKey) ∨
    (OverlongVersion value ∧
      ∃ error, versionKey value = .error error ∧ error.cls = .valueError) := by
  unfold versionKey OverlongVersion numbersReadable
  cases parse? value.toList with
  | none => exact Or.inl ⟨by simp, rfl⟩
  | some version =>
      rcases mapM_intOfDigits ((numbersPart value.toList).splitOn '.') with
        ⟨hall, hread⟩ | ⟨hall, error, hread, hcls⟩
      · exact Or.inl ⟨by simp [hall], by simp only [hread]; rfl⟩
      · exact Or.inr ⟨⟨rfl, hall⟩, error, by simp only [hread]; rfl, hcls⟩

theorem versionKey_of_not_overlong {value : String} (h : ¬ OverlongVersion value) :
    versionKey value =
      .ok ((parse? value.toList).getD ⟨0, 0, 0, some value⟩).textualKey := by
  rcases versionKey_cases value with ⟨-, hkey⟩ | ⟨hlong, -⟩
  · exact hkey
  · exact absurd hlong h

theorem not_overlong_of_versionKey {value : String} {key : TextualKey}
    (h : versionKey value = .ok key) : ¬ OverlongVersion value := by
  rcases versionKey_cases value with ⟨hnot, -⟩ | ⟨-, error, hraised, -⟩
  · exact hnot
  · rw [h] at hraised
    contradiction

/-! ## The lookup -/

/-- `RegistryError` -/
def registryError (message : String) (issues : List ContractIssue) : Exn :=
  ⟨.other "RegistryError", message, issues⟩

/-- `find_registry_entry` -/
def findRegistryEntry (registry : Registry) (capabilityId : String) (version : Option String) :
    Except Exn RegistryEntry := do
  let found := registry.entries.filter fun entry =>
    entry.capability.id = capabilityId ∧
      (version = none ∨ some entry.capability.version = version)
  match ← maxByKeyOf (fun entry : RegistryEntry => versionKey entry.capability.version) found with
  | some entry => .ok entry
  | none =>
      let suffix := if version.getD "" = "" then "" else " version " ++ version.getD ""
      .error (registryError ("capability not found: " ++ capabilityId ++ suffix) [])

/-- The first entry of a capability with a version. -/
def Registry.entryAt (registry : Registry) (capabilityId version : String) :
    Option RegistryEntry :=
  registry.entries.find? fun entry =>
    entry.capability.id = capabilityId ∧ entry.capability.version = version

/-- All entries that match a version have its key, so the greatest is the first of them. -/
theorem findRegistryEntry_version (registry : Registry) (capabilityId version : String) :
    findRegistryEntry registry capabilityId (some version) =
      match registry.entryAt capabilityId version with
      | none => .error (registryError ("capability not found: " ++ capabilityId ++
          if version = "" then "" else " version " ++ version) [])
      | some entry => (versionKey version).map fun _ => entry := by
  unfold findRegistryEntry Registry.entryAt
  simp only [reduceCtorEq, false_or, Option.some.injEq, Option.getD_some]
  rw [← List.head?_filter]
  have hsame : ∀ entry ∈ registry.entries.filter (fun entry =>
      decide (entry.capability.id = capabilityId ∧ entry.capability.version = version)),
      versionKey entry.capability.version = versionKey version := by
    intro entry hentry
    rw [(of_decide_eq_true (List.mem_filter.mp hentry).2).2]
  rw [maxByKeyOf_of_same _ hsame]
  cases (registry.entries.filter fun entry =>
      decide (entry.capability.id = capabilityId ∧ entry.capability.version = version)).head? with
  | none => rfl
  | some entry => cases versionKey version <;> rfl

section Lookup

variable {registry : Registry} {capabilityId version : String}

theorem findRegistryEntry_ok {entry : RegistryEntry}
    (h : findRegistryEntry registry capabilityId (some version) = .ok entry) :
    registry.entryAt capabilityId version = some entry ∧ ¬ OverlongVersion version := by
  rw [findRegistryEntry_version] at h
  split at h
  · contradiction
  · next found hfound =>
      cases hkey : versionKey version with
      | error error =>
          rw [hkey] at h
          contradiction
      | ok key =>
          rw [hkey] at h
          rw [← Except.ok.inj h]
          exact ⟨hfound, not_overlong_of_versionKey hkey⟩

/-- A lookup that raises found nothing, or a version without a key. -/
theorem findRegistryEntry_error {error : Exn}
    (h : findRegistryEntry registry capabilityId (some version) = .error error) :
    (registry.entryAt capabilityId version = none ∧ error.cls = .other "RegistryError") ∨
    ((registry.entryAt capabilityId version).isSome ∧ OverlongVersion version ∧
      error.cls = .valueError) := by
  rw [findRegistryEntry_version] at h
  split at h
  · next hnone => exact Or.inl ⟨hnone, by rw [← Except.error.inj h]; rfl⟩
  · next found hfound =>
      rcases versionKey_cases version with ⟨-, hkey⟩ | ⟨hlong, raised, hkey, hcls⟩
      · rw [hkey] at h
        contradiction
      · rw [hkey] at h
        rw [← Except.error.inj h]
        exact Or.inr ⟨by rw [hfound]; rfl, hlong, hcls⟩

end Lookup

end QhpcEcosystem
