/-
The lookup of a capability without a version.  It takes the greatest version by a key that
compares the pre-release parts as texts, and a version with a final newline as a pre-release of
0.0.0; precedence compares the pre-release parts field by field.  Every version of the capability
must have a key.
-/
import QhpcEcosystem.RegistryDeterminism
import Mathlib.Data.List.MinMax

namespace QhpcEcosystem

open SemanticVersion

/-! ## The lookup -/

/-- The versions of a capability. -/
def versionsOf (registry : Registry) (capabilityId : String) : List String :=
  (registry.entries.filter (·.capability.id = capabilityId)).map (·.capability.version)

/-! ## Precedence among the versions of a capability -/

/-- An admitted version, without the newline that may stand behind it. -/
def versionOf (text : String) : SemanticVersion :=
  (parse? (withoutNewline text)).getD ⟨0, 0, 0, some text⟩

def NewestVersion (versions : List String) (version : String) : Prop :=
  version ∈ versions ∧
    ∀ other ∈ versions, (versionOf other).precedence ≤ (versionOf version).precedence

/-- A version stands above another one for the lookup, whatever their precedence: both are
pre-releases of the same numbers and its text is the greater one, or the other one ends in a
newline and it is no pre-release of 0.0.0. -/
def Overshadows (other version : String) : Prop :=
  ((takenVersion other).numbers = (takenVersion version).numbers ∧
    ∃ text ∈ (takenVersion version).prerelease, ∃ text' ∈ (takenVersion other).prerelease,
      text < text') ∨
  (endsInNewline version ∧
    ¬ ((takenVersion other).numbers = (0, 0, 0) ∧ (takenVersion other).prerelease.isSome))

theorem versionOf_of_not {text : String} (h : endsInNewline text = false) :
    versionOf text = takenVersion text := by
  simp [versionOf, takenVersion, withoutNewline_of_not h, h]

theorem takenVersion_of_newline {text : String} (h : endsInNewline text = true) :
    takenVersion text = ⟨0, 0, 0, some text⟩ := by
  rw [takenVersion, if_pos h]

/-- A pre-release of 0.0.0 stands below every other version but the pre-releases of 0.0.0 with a
smaller text. -/
theorem textualKey_zero_le {text : String} {version : SemanticVersion}
    (h : version.numbers = (0, 0, 0) → ∀ text' ∈ version.prerelease, text ≤ text') :
    textualKey ⟨0, 0, 0, some text⟩ ≤ version.textualKey := by
  obtain ⟨major, minor, patch, prerelease⟩ := version
  simp only [textualKey, Prod.Lex.toLex_le_toLex]
  by_cases hnumbers : major = 0 ∧ minor = 0 ∧ patch = 0
  · obtain ⟨rfl, rfl, rfl⟩ := hnumbers
    refine Or.inr ⟨rfl, Or.inr ⟨rfl, Or.inr ⟨rfl, ?_⟩⟩⟩
    cases prerelease with
    | none => simp
    | some text' => simpa using h rfl text' rfl
  · by_cases hmajor : major = 0
    · refine Or.inr ⟨hmajor.symm, ?_⟩
      by_cases hminor : minor = 0
      · refine Or.inr ⟨hminor.symm, Or.inl ?_⟩
        omega
      · exact Or.inl (Nat.pos_of_ne_zero hminor)
    · exact Or.inl (Nat.pos_of_ne_zero hmajor)

theorem eq_of_numbers_zero {version : SemanticVersion} {text : String}
    (hnumbers : version.numbers = (0, 0, 0)) (htext : version.prerelease = some text) :
    version = ⟨0, 0, 0, some text⟩ := by
  obtain ⟨major, minor, patch, prerelease⟩ := version
  simp only [numbers, Prod.mk.injEq] at hnumbers
  simp only at htext
  rw [hnumbers.1, hnumbers.2.1, hnumbers.2.2, htext]

/-- A version of no greater precedence that does not overshadow has no greater key. -/
theorem textualKey_le_of_not_overshadows {other version : String}
    (h : (versionOf other).precedence ≤ (versionOf version).precedence)
    (hclear : ¬ Overshadows other version) :
    (takenVersion other).textualKey ≤ (takenVersion version).textualKey := by
  rw [Overshadows, not_or] at hclear
  have htexts : (takenVersion other).numbers = (takenVersion version).numbers →
      ∀ text' ∈ (takenVersion other).prerelease, ∀ text ∈ (takenVersion version).prerelease,
        text' ≤ text := by
    intro hnumbers text' htext' text htext
    by_contra hlt
    exact hclear.1 ⟨hnumbers, text, htext, text', htext', lt_of_not_ge hlt⟩
  by_cases hnewline : endsInNewline version = true
  · -- the other version is a pre-release of 0.0.0 too
    have hzero := not_not.mp (not_and.mp hclear.2 hnewline)
    have hversion := takenVersion_of_newline hnewline
    obtain ⟨text', htext'⟩ := Option.isSome_iff_exists.mp hzero.2
    have hle := htexts (by rw [hzero.1, hversion]; rfl) text' htext' version (by rw [hversion]; rfl)
    rw [eq_of_numbers_zero hzero.1 htext', hversion]
    apply textualKey_zero_le
    intro _ text htext
    rw [← Option.mem_some.mp htext]
    exact hle
  · rw [Bool.not_eq_true] at hnewline
    by_cases hnewline' : endsInNewline other = true
    · have hother := takenVersion_of_newline hnewline'
      rw [hother] at htexts ⊢
      apply textualKey_zero_le
      intro hnumbers text htext
      exact htexts (by rw [hnumbers]; rfl) other rfl text htext
    · rw [Bool.not_eq_true] at hnewline'
      rw [versionOf_of_not hnewline, versionOf_of_not hnewline'] at h
      exact textualKey_le_of_precedence_le h htexts

/-- A version that overshadows has the greater key. -/
theorem textualKey_lt_of_overshadows {other version : String} (h : Overshadows other version) :
    (takenVersion version).textualKey < (takenVersion other).textualKey := by
  rcases h with ⟨hnumbers, text, htext, text', htext', hlt⟩ | ⟨hnewline, hzero⟩
  · rw [Option.mem_def] at htext htext'
    simp only [numbers, Prod.mk.injEq] at hnumbers
    simp only [textualKey, htext, htext', hnumbers.1, hnumbers.2.1, hnumbers.2.2,
      Prod.Lex.toLex_lt_toLex]
    simpa using hlt
  · have hle : (⟨0, 0, 0, some version⟩ : SemanticVersion).textualKey ≤
        (takenVersion other).textualKey := by
      apply textualKey_zero_le
      intro hnumbers text htext
      exact absurd ⟨hnumbers, Option.isSome_iff_exists.mpr ⟨text, htext⟩⟩ hzero
    rw [takenVersion_of_newline hnewline]
    apply lt_of_le_of_ne hle
    intro heq
    apply hzero
    rw [← textualKey_inj.mp heq]
    exact ⟨rfl, rfl⟩

/-! ## The newest version -/

section Lookup

variable {δ ν : Type}

theorem mem_versionsOf {registry : Registry} {capabilityId version : String} :
    version ∈ versionsOf registry capabilityId ↔
      ∃ entry ∈ registry.entries, entry.capability.id = capabilityId ∧
        entry.capability.version = version := by
  simp [versionsOf, and_assoc]

/-- The lookup without a version needs the keys of all versions of the capability. -/
theorem keyed_of_findRegistryEntry {registry : Registry} {capabilityId : String}
    {entry : RegistryEntry} (h : findRegistryEntry registry capabilityId none = .ok entry) :
    ∀ version ∈ versionsOf registry capabilityId, ¬ OverlongVersion version := by
  intro version hversion
  obtain ⟨other, hother, hid, rfl⟩ := mem_versionsOf.mp hversion
  simp only [findRegistryEntry, true_or, and_true] at h
  cases hgreatest : maxByKeyOf (fun entry : RegistryEntry => versionKey entry.capability.version)
      (registry.entries.filter fun entry => decide (entry.capability.id = capabilityId)) with
  | error error =>
      rw [hgreatest] at h
      contradiction
  | ok greatest =>
      obtain ⟨key, hkey⟩ := exists_key_of_maxByKeyOf hgreatest other
        (List.mem_filter.mpr ⟨hother, decide_eq_true hid⟩)
      exact not_overlong_of_versionKey hkey

theorem findRegistryEntry_none {registry : Registry} {capabilityId : String}
    (hkeyed : ∀ version ∈ versionsOf registry capabilityId, ¬ OverlongVersion version) :
    findRegistryEntry registry capabilityId none =
      match (registry.entries.filter fun entry =>
          decide (entry.capability.id = capabilityId)).argmax
            fun entry => (takenVersion entry.capability.version).textualKey with
      | some entry => .ok entry
      | none => .error (registryError ("capability not found: " ++ capabilityId ++ "") []) := by
  have hkeys : ∀ entry ∈ registry.entries.filter
      (fun entry => decide (entry.capability.id = capabilityId)),
      versionKey entry.capability.version =
        .ok (takenVersion entry.capability.version).textualKey := by
    intro entry hentry
    obtain ⟨hmem, hid⟩ := List.mem_filter.mp hentry
    exact versionKey_taken
      (hkeyed _ (mem_versionsOf.mpr ⟨entry, hmem, of_decide_eq_true hid, rfl⟩))
  simp only [findRegistryEntry, true_or, and_true, maxByKeyOf_of_forall hkeys]
  rfl

/-- The lookup returns an entry of the capability whose version has the greatest key. -/
theorem findRegistryEntry_greatest {registry : Registry} {capabilityId : String}
    {entry : RegistryEntry} (h : findRegistryEntry registry capabilityId none = .ok entry) :
    (entry ∈ registry.entries ∧ entry.capability.id = capabilityId) ∧
      ∀ version ∈ versionsOf registry capabilityId,
        (takenVersion version).textualKey ≤
          (takenVersion entry.capability.version).textualKey := by
  rw [findRegistryEntry_none (keyed_of_findRegistryEntry h)] at h
  split at h
  · rename_i found hfound
    rw [← Except.ok.inj h]
    have hmem := List.mem_filter.mp (List.argmax_mem hfound)
    refine ⟨⟨hmem.1, of_decide_eq_true hmem.2⟩, ?_⟩
    intro version hversion
    obtain ⟨other, hother, hid, rfl⟩ := mem_versionsOf.mp hversion
    have hfiltered : other ∈ registry.entries.filter
        (fun entry => decide (entry.capability.id = capabilityId)) :=
      List.mem_filter.mpr ⟨hother, decide_eq_true hid⟩
    exact List.le_of_mem_argmax (f := fun entry : RegistryEntry =>
      (takenVersion entry.capability.version).textualKey) hfiltered hfound
  · contradiction

theorem findRegistryEntry_of_mem {registry : Registry} {capabilityId version : String}
    (hkeyed : ∀ version ∈ versionsOf registry capabilityId, ¬ OverlongVersion version)
    (h : version ∈ versionsOf registry capabilityId) :
    ∃ entry, findRegistryEntry registry capabilityId none = .ok entry := by
  obtain ⟨entry, hentry, hid, -⟩ := mem_versionsOf.mp h
  rw [findRegistryEntry_none hkeyed]
  split
  · exact ⟨_, rfl⟩
  · rename_i hnone
    rw [List.argmax_eq_none] at hnone
    have hfiltered : entry ∈ registry.entries.filter
        (fun entry => decide (entry.capability.id = capabilityId)) :=
      List.mem_filter.mpr ⟨hentry, decide_eq_true hid⟩
    rw [hnone] at hfiltered
    contradiction

/-- The lookup without a version returns a newest version of the capability exactly when all its
versions have keys and a newest one is not overshadowed by another one. -/
theorem findEntry_newest_exactly (schema : CapabilitySchema δ) (registrySchema : RegistrySchema δ ν)
    (registry : RegistryDocument δ ν) (capabilityId : String)
    (hvalid : validateRegistryContract schema.toCapabilityContract registrySchema registry =
      .ok ()) :
    (∃ entry ∈ (registry.view schema.toCapabilityContract).entries,
      findRegistryEntry (registry.view schema.toCapabilityContract) capabilityId none =
          .ok entry ∧
        entry.capability.id = capabilityId ∧
        NewestVersion (versionsOf (registry.view schema.toCapabilityContract) capabilityId)
          entry.capability.version) ↔
    (∀ version ∈ versionsOf (registry.view schema.toCapabilityContract) capabilityId,
      ¬ OverlongVersion version) ∧
    ∃ version,
      NewestVersion (versionsOf (registry.view schema.toCapabilityContract) capabilityId) version ∧
        ∀ other ∈ versionsOf (registry.view schema.toCapabilityContract) capabilityId,
          ¬ Overshadows other version := by
  have hadmitted : ∀ version ∈
      versionsOf (registry.view schema.toCapabilityContract) capabilityId,
        AdmittedVersion version := by
    intro version hversion
    obtain ⟨entry, hentry, -, rfl⟩ := mem_versionsOf.mp hversion
    obtain ⟨document, hdocument, rfl⟩ := List.mem_map.mp hentry
    have hconsistent := (validateRegistryContract_ok.mp hvalid).2
    exact schema.version_of_valid _ (hconsistent.entries document hdocument).capability
  constructor
  · rintro ⟨entry, hentry, hfound, hid, hnewest⟩
    refine ⟨keyed_of_findRegistryEntry hfound, entry.capability.version, hnewest, ?_⟩
    intro other hother hshadow
    have hle := (findRegistryEntry_greatest hfound).2 other hother
    exact not_le_of_gt (textualKey_lt_of_overshadows hshadow) hle
  · rintro ⟨hkeyed, version, hnewest, hclear⟩
    obtain ⟨entry, hfound⟩ := findRegistryEntry_of_mem hkeyed hnewest.1
    obtain ⟨⟨hentry, hid⟩, hgreatest⟩ := findRegistryEntry_greatest hfound
    have hmem : entry.capability.version ∈
        versionsOf (registry.view schema.toCapabilityContract) capabilityId :=
      mem_versionsOf.mpr ⟨entry, hentry, hid, rfl⟩
    -- the newest version has the greatest key as well, so the lookup found its equal
    have hle := hgreatest version hnewest.1
    have hge := textualKey_le_of_not_overshadows (hnewest.2 _ hmem) (hclear _ hmem)
    have htaken := textualKey_inj.mp (le_antisymm hle hge)
    have hsame : versionOf version = versionOf entry.capability.version := by
      cases eq_or_plain_of_takenVersion_eq (hadmitted version hnewest.1) (hadmitted _ hmem)
        htaken with
      | inl heq => rw [heq]
      | inr hplain => rw [versionOf_of_not hplain.1, versionOf_of_not hplain.2, htaken]
    refine ⟨entry, hentry, hfound, hid, hmem, ?_⟩
    intro other hother
    rw [← hsame]
    exact hnewest.2 other hother

end Lookup

/-! ### Releases and candidates -/

/-- The registry of some sample releases. -/
def sampleReleases (releases : List SampleRelease) :
    RegistryDocument SampleRelease EntryValidation :=
  arrangedRegistry sampleReleaseSchema sampleCatalog (fun _ => sampleOwner) releases

theorem sampleReleases_valid {releases : List SampleRelease}
    (h : Publishable sampleReleaseSchema sampleEntrySchema sampleCatalog releases) :
    validateRegistryContract sampleReleaseSchema.toCapabilityContract sampleEntrySchema
      (sampleReleases releases) = .ok () := by
  have howner : registeredOwner sampleReleaseSchema sampleCatalog = fun _ => sampleOwner := by
    funext release
    rw [registeredOwner, ownerOf_sampleRelease]
  rw [sampleReleases, ← howner]
  exact (arrangedRegistry_valid_iff
    (fun release _ => ⟨rfl, sampleOwner, ownerOf_sampleRelease release⟩)
    fun release _ => sampleRelease_keyed release).mpr h

theorem findEntry_newest_release :
    ∃ entry, findRegistryEntry ((sampleReleases [.older, .tenthCandidate, .buildA]).view
        sampleReleaseSchema.toCapabilityContract) "openqevo-registry-test" none = .ok entry ∧
      (versionOf "1.0.0-rc.10").precedence ≤ (versionOf entry.capability.version).precedence := by
  have hvalid : validateRegistryContract sampleReleaseSchema.toCapabilityContract
      sampleEntrySchema (sampleReleases [.older, .tenthCandidate, .buildA]) = .ok () :=
    sampleReleases_valid (sampleReleases_publishable (by decide) (by decide) (by decide))
  have hversions : versionsOf ((sampleReleases [.older, .tenthCandidate, .buildA]).view
      sampleReleaseSchema.toCapabilityContract) "openqevo-registry-test" =
        ["0.5.0", "1.0.0-rc.10", "1.0.0+a"] := by decide
  have hnewest : NewestVersion ["0.5.0", "1.0.0-rc.10", "1.0.0+a"] "1.0.0+a" :=
    ⟨by decide, by decide⟩
  have hclear : ∀ other, ¬ Overshadows other "1.0.0+a" := by
    have hrelease : (takenVersion "1.0.0+a").prerelease = none := by decide
    have hplain : endsInNewline "1.0.0+a" = false := by decide
    intro other hshadow
    simp [Overshadows, hrelease, hplain] at hshadow
  obtain ⟨entry, -, hfound, -, hentry⟩ := (findEntry_newest_exactly sampleReleaseSchema
    sampleEntrySchema _ "openqevo-registry-test" hvalid).mpr
      ⟨by rw [hversions]; decide, "1.0.0+a", by rw [hversions]; exact hnewest,
        fun other _ => hclear other⟩
  rw [hversions] at hentry
  exact ⟨entry, hfound, hentry.2 "1.0.0-rc.10" (by decide)⟩

/-- The tenth candidate is the newer one, and the lookup returns the second. -/
theorem findEntry_older_candidate :
    validateRegistryContract sampleReleaseSchema.toCapabilityContract sampleEntrySchema
        (sampleReleases [.secondCandidate, .tenthCandidate]) = .ok () ∧
    (∃ entry, findRegistryEntry ((sampleReleases [.secondCandidate, .tenthCandidate]).view
        sampleReleaseSchema.toCapabilityContract) "openqevo-registry-test" none = .ok entry ∧
      entry.capability.version = "1.0.0-rc.2") ∧
    "1.0.0-rc.10" ∈ versionsOf ((sampleReleases [.secondCandidate, .tenthCandidate]).view
      sampleReleaseSchema.toCapabilityContract) "openqevo-registry-test" ∧
    (versionOf "1.0.0-rc.2").precedence < (versionOf "1.0.0-rc.10").precedence := by
  refine ⟨?_, ⟨_, rfl, by decide⟩, by decide, by decide⟩
  exact sampleReleases_valid (sampleReleases_publishable (by decide) (by decide) (by decide))

end QhpcEcosystem
