/-
The builder and the validator of the registry parse a version in different ways.  On the
grammar of versions the two ways give the same key.  The pattern of the schema also admits a
final newline, which the builder does not match: it takes such a version as a pre-release of
0.0.0, while the validator reads its numbers.
-/
import QhpcEcosystem.RegistryBuild
import Mathlib.Data.List.TakeWhile

namespace QhpcEcosystem

open SemanticVersion

/-! ## What the two sides make of a version -/

/-- The version that the builder sorts by. -/
def takenVersion (text : String) : SemanticVersion :=
  if endsInNewline text then ⟨0, 0, 0, some text⟩
  else (parse? text.toList).getD ⟨0, 0, 0, some text⟩

/-- The version that the validator sorts by: a newline goes with the part in front of the
build part, and vanishes behind a number.  A version with a number that `int` refuses is taken
as a pre-release of 0.0.0. -/
def readVersion (text : String) : SemanticVersion :=
  if numbersReadable (withoutNewline text) then
    let version := (parse? (withoutNewline text)).getD ⟨0, 0, 0, some text⟩
    if endsInNewline text ∧ buildPart (withoutNewline text) = [] then
      { version with prerelease := version.prerelease.map (· ++ "\n") }
    else version
  else ⟨0, 0, 0, some text⟩

/-- Two versions, one with a final newline at least, that the two sides order differently. -/
def NewlineMisplaced (first second : String) : Prop :=
  (endsInNewline first ∨ endsInNewline second) ∧
    (takenVersion first).textualKey < (takenVersion second).textualKey ∧
    (readVersion second).textualKey < (readVersion first).textualKey

theorem withoutNewline_of_not {text : String} (h : endsInNewline text = false) :
    withoutNewline text = text.toList := by
  rw [withoutNewline, h]
  rfl

theorem toList_of_endsInNewline {text : String} (h : endsInNewline text = true) :
    text.toList = withoutNewline text ++ ['\n'] := by
  rw [withoutNewline, if_pos h]
  rw [endsInNewline, decide_eq_true_iff] at h
  exact (List.dropLast_append_getLast? '\n' h).symm

theorem not_newline_of_parse? {text : List Char} {version : SemanticVersion}
    (h : parse? text = some version) : '\n' ∉ text := by
  intro hmem
  have hchar := char_of_parse? h hmem
  revert hchar
  decide

theorem parse?_of_endsInNewline {text : String} (h : endsInNewline text = true) :
    parse? text.toList = none := by
  by_contra hsome
  obtain ⟨version, hversion⟩ := Option.ne_none_iff_exists'.mp hsome
  apply not_newline_of_parse? hversion
  rw [toList_of_endsInNewline h]
  simp

theorem takenVersion_eq (text : String) :
    takenVersion text = (parse? text.toList).getD ⟨0, 0, 0, some text⟩ := by
  unfold takenVersion
  by_cases hnewline : endsInNewline text = true
  · rw [if_pos hnewline, parse?_of_endsInNewline hnewline]
    rfl
  · rw [if_neg hnewline]

/-- The builder sorts by the version that it takes, where it has a key. -/
theorem versionKey_taken {text : String} (h : ¬ OverlongVersion text) :
    versionKey text = .ok (takenVersion text).textualKey := by
  rw [versionKey_of_not_overlong h, takenVersion_eq]

theorem readVersion_of_not {text : String} (h : endsInNewline text = false)
    (hshort : ¬ OverlongVersion text) : readVersion text = takenVersion text := by
  rw [readVersion, withoutNewline_of_not h, takenVersion_eq]
  by_cases hreadable : numbersReadable text.toList = true
  · simp [hreadable, h]
  · rw [Bool.not_eq_true] at hreadable
    have hnone : parse? text.toList = none := by
      by_contra hsome
      exact hshort ⟨Option.isSome_iff_ne_none.mpr hsome, hreadable⟩
    simp [hreadable, hnone]

/-! ## The parts of a text with something behind it -/

theorem takeWhile_append_of_mem {sign : Char} {text : List Char}
    (h : text.dropWhile (· ≠ sign) ≠ []) (rest : List Char) :
    (text ++ rest).takeWhile (· ≠ sign) = text.takeWhile (· ≠ sign) := by
  induction text with
  | nil => exact absurd rfl h
  | cons c text ih =>
      by_cases hc : c = sign
      · simp [hc]
      · rw [List.dropWhile_cons_of_pos (by simpa using hc)] at h
        rw [List.cons_append, List.takeWhile_cons_of_pos (by simpa using hc),
          List.takeWhile_cons_of_pos (by simpa using hc), ih h]

theorem dropWhile_append_of_mem {sign : Char} {text : List Char}
    (h : text.dropWhile (· ≠ sign) ≠ []) (rest : List Char) :
    (text ++ rest).dropWhile (· ≠ sign) = text.dropWhile (· ≠ sign) ++ rest := by
  rw [List.dropWhile_append, if_neg (by simpa using h)]

theorem ne_of_dropWhile_eq_nil {sign : Char} {text : List Char}
    (h : text.dropWhile (· ≠ sign) = []) : ∀ c ∈ text, (decide (c ≠ sign)) = true :=
  fun c hc => List.dropWhile_eq_nil_iff.mp h c hc

theorem numbersPart_append_of_build {text : List Char} (h : buildPart text ≠ [])
    (rest : List Char) :
    numbersPart (text ++ rest) = numbersPart text ∧
      prereleasePart (text ++ rest) = prereleasePart text := by
  simp only [numbersPart, prereleasePart, takeWhile_append_of_mem h, and_self]

theorem takeWhile_of_no_build {text : List Char} (h : buildPart text = []) :
    text.takeWhile (· ≠ '+') = text ∧
      (text ++ ['\n']).takeWhile (· ≠ '+') = text ++ ['\n'] := by
  have hall := ne_of_dropWhile_eq_nil h
  constructor
  · exact List.takeWhile_eq_self_iff.mpr hall
  · rw [List.takeWhile_append_of_pos hall]
    rfl

theorem parts_newline_of_prerelease {text : List Char} (hbuild : buildPart text = [])
    (h : prereleasePart text ≠ []) :
    numbersPart (text ++ ['\n']) = numbersPart text ∧
      prereleasePart (text ++ ['\n']) = prereleasePart text ++ ['\n'] := by
  obtain ⟨htake, htake'⟩ := takeWhile_of_no_build hbuild
  simp only [prereleasePart, htake] at h
  simp only [numbersPart, prereleasePart, htake, htake']
  exact ⟨takeWhile_append_of_mem h _, dropWhile_append_of_mem h _⟩

theorem parts_newline_of_release {text : List Char} (hbuild : buildPart text = [])
    (h : prereleasePart text = []) :
    numbersPart (text ++ ['\n']) = numbersPart text ++ ['\n'] ∧
      prereleasePart (text ++ ['\n']) = [] := by
  obtain ⟨htake, htake'⟩ := takeWhile_of_no_build hbuild
  simp only [prereleasePart, htake] at h
  have hall := ne_of_dropWhile_eq_nil h
  simp only [numbersPart, prereleasePart, htake, htake', List.takeWhile_eq_self_iff.mpr hall]
  exact ⟨List.takeWhile_append_of_pos hall, List.dropWhile_append_of_pos hall⟩

/-! ## The key of the validator -/

theorem not_whitespace_of_isDigit {c : Char} (h : c.isDigit = true) :
    c.isWhitespace = false := by
  by_contra hspace
  simp only [Char.isWhitespace, Bool.not_eq_false, Bool.or_eq_true, decide_eq_true_iff] at hspace
  rcases hspace with ((rfl | rfl) | rfl) | rfl <;> revert h <;> decide

/-- `int` of a number of the grammar, with white space behind it or without. -/
theorem decimal?_of_isNumber {digits : List Char} (h : isNumber digits = true)
    {space : List Char} (hspace : ∀ c ∈ space, c.isWhitespace = true) :
    decimal? (digits ++ space) =
      if digits.length ≤ intDigitLimit then some (decimalValue digits) else none := by
  obtain ⟨hne, hdigits⟩ := digits_of_isNumber h
  have hword : ∀ c ∈ digits, c.isWhitespace = false := fun c hc =>
    not_whitespace_of_isDigit (List.all_eq_true.mp hdigits c hc)
  have hstripped : trimmed Char.isWhitespace (digits ++ space) = digits := by
    rw [trimmed_append hne hword, List.rdropWhile_eq_nil_iff.mpr hspace, List.append_nil]
  simp only [decimal?, hstripped, hne, hdigits, ne_eq, not_false_eq_true, and_self, if_true,
    intOfDigits]
  split <;> rfl

/-- The last at sign separates the identifier from the version, whose parts make the rest of
the key, unless `int` refuses one of the numbers. -/
theorem registryKey_of_numbers {capabilityId version : String} {text : List Char}
    (htext : version.toList = text) (hat : '@' ∉ text) {major minor patch space : List Char}
    (hparts : (numbersPart text).splitOn '.' = [major, minor, patch ++ space])
    (hmajor : isNumber major = true) (hminor : isNumber minor = true)
    (hpatch : isNumber patch = true) (hspace : ∀ c ∈ space, c.isWhitespace = true)
    {prerelease : Option String}
    (hprerelease : prerelease = if prereleasePart text = [] then none
      else some (String.ofList ((prereleasePart text).drop 1))) :
    registryKey (capabilityId ++ "@" ++ version) = toLex (capabilityId, textualKey
      (if [major, minor, patch].all (·.length ≤ intDigitLimit) then
        ⟨decimalValue major, decimalValue minor, decimalValue patch, prerelease⟩
      else ⟨0, 0, 0, some version⟩)) := by
  have hreversed : (capabilityId ++ "@" ++ version).toList.reverse =
      text.reverse ++ '@' :: capabilityId.toList.reverse := by
    simp [String.toList_append, htext]
  have hall : ∀ c ∈ text.reverse, (decide (c ≠ '@')) = true := by
    intro c hc
    rw [decide_eq_true_iff]
    rintro rfl
    exact hat (List.mem_reverse.mp hc)
  have htake : (text.reverse ++ '@' :: capabilityId.toList.reverse).takeWhile
      (· ≠ '@') = text.reverse := by
    rw [List.takeWhile_append_of_pos hall]
    simp
  have hdrop : (text.reverse ++ '@' :: capabilityId.toList.reverse).dropWhile
      (· ≠ '@') = '@' :: capabilityId.toList.reverse := by
    rw [List.dropWhile_append_of_pos hall]
    simp
  have hversion : String.ofList text = version := by rw [← htext, String.ofList_toList]
  have hseparated : (text.takeWhile (· ≠ '+')).dropWhile (· ≠ '-') = prereleasePart text := rfl
  have hfirst : decimal? major =
      if major.length ≤ intDigitLimit then some (decimalValue major) else none := by
    simpa using decimal?_of_isNumber hmajor (List.forall_mem_nil _)
  have hsecond : decimal? minor =
      if minor.length ≤ intDigitLimit then some (decimalValue minor) else none := by
    simpa using decimal?_of_isNumber hminor (List.forall_mem_nil _)
  rw [numbersPart] at hparts
  simp only [registryKey, hreversed, htake, hdrop, List.reverse_reverse, List.drop_succ_cons,
    List.drop_zero, String.ofList_toList, hversion, hparts, hfirst, hsecond,
    decimal?_of_isNumber hpatch hspace, hseparated, List.all_cons, List.all_nil, Bool.and_true]
  by_cases hlong : major.length ≤ intDigitLimit
  · by_cases hlong' : minor.length ≤ intDigitLimit
    · by_cases hlong'' : patch.length ≤ intDigitLimit
      · by_cases hpart : prereleasePart text = []
        · simp [hlong, hlong', hlong'', textualKey, hprerelease, hpart]
        · simp [hlong, hlong', hlong'', textualKey, hprerelease, hpart]
      · simp [hlong, hlong', hlong'', textualKey]
    · simp [hlong, hlong', textualKey]
  · simp [hlong, textualKey]

/-- A newline behind three numbers goes with the last one. -/
theorem splitOn_newline {text major minor patch : List Char} (hmajor : isNumber major = true)
    (hminor : isNumber minor = true) (hpatch : isNumber patch = true)
    (hparts : text.splitOn '.' = [major, minor, patch]) :
    (text ++ ['\n']).splitOn '.' = [major, minor, patch ++ ['\n']] := by
  have hdot : ∀ digits, isNumber digits = true → '.' ∉ digits := by
    intro digits hdigits hmem
    have hall := List.all_eq_true.mp (digits_of_isNumber hdigits).2 '.' hmem
    revert hall
    decide
  have hjoined : ['.'].intercalate (text.splitOn '.') = text := List.intercalate_splitOn '.'
  rw [hparts] at hjoined
  have htext : text ++ ['\n'] = ['.'].intercalate [major, minor, patch ++ ['\n']] := by
    rw [← hjoined]
    simp [List.intercalate]
  rw [htext]
  refine List.splitOn_intercalate '.' ?_ (List.cons_ne_nil _ _)
  intro part hpart
  simp only [List.mem_cons, List.not_mem_nil, or_false] at hpart
  rcases hpart with rfl | rfl | rfl
  · exact hdot _ hmajor
  · exact hdot _ hminor
  · simpa using hdot _ hpatch

/-- The validator sorts an admitted version by its reading. -/
theorem registryKey_of_admitted (capabilityId : String) {version : String}
    (h : AdmittedVersion version) :
    registryKey (capabilityId ++ "@" ++ version) =
      toLex (capabilityId, (readVersion version).textualKey) := by
  obtain ⟨parsed, hparsed⟩ := Option.isSome_iff_exists.mp h
  have hat : '@' ∉ withoutNewline version := by
    intro hmem
    have hchar := char_of_parse? hparsed hmem
    revert hchar
    decide
  obtain ⟨major, minor, patch, hparts, hmajor, hminor, hpatch, -, -, hversion⟩ :=
    parse?_eq_some.mp hparsed
  have hreadable : numbersReadable (withoutNewline version) =
      [major, minor, patch].all (·.length ≤ intDigitLimit) := by
    rw [numbersReadable, hparts]
  by_cases hnewline : endsInNewline version = true
  · have htext := toList_of_endsInNewline hnewline
    have hat' : '@' ∉ withoutNewline version ++ ['\n'] := by simpa using hat
    rw [readVersion, hparsed, hnewline, hreadable]
    simp only [true_and, Option.getD_some]
    by_cases hbuild : buildPart (withoutNewline version) = []
    · rw [if_pos hbuild]
      by_cases hprerelease : prereleasePart (withoutNewline version) = []
      · -- the newline stands behind the last number, where `int` strips it
        obtain ⟨hnumbers, hpart⟩ := parts_newline_of_release hbuild hprerelease
        rw [registryKey_of_numbers htext hat'
          (hnumbers ▸ splitOn_newline hmajor hminor hpatch hparts) hmajor hminor hpatch (by simp)
          (if_pos hpart).symm]
        simp [hversion, hprerelease]
      · obtain ⟨hnumbers, hpart⟩ := parts_newline_of_prerelease hbuild hprerelease
        have hlength := List.length_pos_iff.mpr hprerelease
        rw [registryKey_of_numbers htext hat' (by rw [hnumbers, hparts, List.append_nil]) hmajor
          hminor hpatch (List.forall_mem_nil _) rfl]
        simp [hversion, hprerelease, hpart, List.drop_append_of_le_length hlength]
    · rw [if_neg hbuild]
      obtain ⟨hnumbers, hpart⟩ := numbersPart_append_of_build hbuild ['\n']
      rw [registryKey_of_numbers htext hat' (by rw [hnumbers, hparts, List.append_nil]) hmajor
        hminor hpatch (List.forall_mem_nil _) rfl, hversion, hpart]
  · rw [Bool.not_eq_true] at hnewline
    have htext := withoutNewline_of_not hnewline
    rw [htext] at hat hparsed hparts hversion hreadable
    rw [registryKey_of_numbers rfl hat (by rw [hparts, List.append_nil]) hmajor hminor hpatch
      (List.forall_mem_nil _) rfl]
    simp [readVersion, htext, hparsed, hnewline, hversion, hreadable]

/-! ## The generated order -/

section GeneratedOrder

variable {δ : Type} (schema : CapabilitySchema δ)

/-- The entries of some documents, each in its repository, in the order of the builder. -/
def generatedEntries (owner : δ → CatalogRepository) (documents : List δ) :
    List (RegistryDocumentEntry δ EntryValidation) :=
  documents.map fun document => publishedEntry schema (owner document) document

def registryKeys (registry : RegistryDocument δ EntryValidation) : List String :=
  registry.entries.map fun entry => (entry.published schema.toCapabilityContract).key

/-- The issue of the last check of `_validate_registry`. -/
def unsortedIssue : ContractIssue :=
  ⟨"/spec/entries", "entries must be sorted by capability ID and version"⟩

variable {schema}

theorem publishedEntry_valid {document : δ} (h : schema.issues document = [])
    (repository : CatalogRepository) :
    (publishedEntry schema repository document).Valid schema.toCapabilityContract :=
  ⟨h, rfl⟩

/-- A text with a newline is no pre-release part of the grammar. -/
theorem takenVersion_ne_of_newline {plain broken : String} (hplain : AdmittedVersion plain)
    (hnot : endsInNewline plain = false) (hnewline : endsInNewline broken = true) :
    takenVersion plain ≠ takenVersion broken := by
  intro heq
  rw [AdmittedVersion, withoutNewline_of_not hnot, Option.isSome_iff_exists] at hplain
  obtain ⟨version, hversion⟩ := hplain
  rw [takenVersion, takenVersion, if_pos hnewline, hnot, hversion] at heq
  obtain ⟨major, minor, patch, -, -, -, -, -, -, hparsed⟩ := parse?_eq_some.mp hversion
  simp only [Bool.false_eq_true, if_false, Option.getD_some, hparsed, mk.injEq] at heq
  obtain ⟨-, -, -, hprerelease⟩ := heq
  have hmem : '\n' ∈ broken.toList := by
    rw [toList_of_endsInNewline hnewline]
    simp
  split at hprerelease
  · contradiction
  · rw [← Option.some.inj hprerelease, String.toList_ofList] at hmem
    apply not_newline_of_parse? hversion
    rw [← parts_append plain.toList]
    simp [List.mem_of_mem_drop hmem]

/-- Versions that the builder does not tell apart are the same, or of the grammar both. -/
theorem eq_or_plain_of_takenVersion_eq {first second : String} (hfirst : AdmittedVersion first)
    (hsecond : AdmittedVersion second) (h : takenVersion first = takenVersion second) :
    first = second ∨ (endsInNewline first = false ∧ endsInNewline second = false) := by
  by_cases hnewline : endsInNewline first = true
  · by_cases hnewline' : endsInNewline second = true
    · left
      simp only [takenVersion, hnewline, hnewline', if_true, mk.injEq, Option.some.injEq,
        true_and] at h
      exact h
    · rw [Bool.not_eq_true] at hnewline'
      exact absurd h.symm (takenVersion_ne_of_newline hsecond hnewline' hnewline)
  · rw [Bool.not_eq_true] at hnewline
    by_cases hnewline' : endsInNewline second = true
    · exact absurd h (takenVersion_ne_of_newline hfirst hnewline hnewline')
    · rw [Bool.not_eq_true] at hnewline'
      exact Or.inr ⟨hnewline, hnewline'⟩

/-- The key that the builder sorts an entry by, where the version has one. -/
def takenKey (contract : CapabilityContract δ) (entry : RegistryDocumentEntry δ EntryValidation) :
    RegistryKey :=
  toLex ((entry.published contract).id,
    (takenVersion (entry.published contract).version).textualKey)

theorem takenKey_publishedEntry (repository : CatalogRepository) (document : δ) :
    takenKey schema.toCapabilityContract (publishedEntry schema repository document) =
      toLex ((schema.read document).id,
        (takenVersion (schema.read document).version).textualKey) := rfl

theorem entryKey_taken {contract : CapabilityContract δ}
    {entry : RegistryDocumentEntry δ EntryValidation}
    (h : ¬ OverlongVersion (entry.published contract).version) :
    entryKey contract entry = .ok (takenKey contract entry) := by
  rw [entryKey, versionKey_taken h]
  rfl

/-- The sort raises exactly when some version has no key. -/
theorem sortEntries_eq_ok {contract : CapabilityContract δ}
    {entries sorted : List (RegistryDocumentEntry δ EntryValidation)} :
    sortEntries contract entries = .ok sorted ↔
      (∀ entry ∈ entries, ¬ OverlongVersion (entry.published contract).version) ∧
        sorted = sortByKey (takenKey contract) entries := by
  have hkeys : (∀ entry ∈ entries, ¬ OverlongVersion (entry.published contract).version) →
      sortEntries contract entries = .ok (sortByKey (takenKey contract) entries) := fun hshort =>
    sortByKeyOf_of_forall fun entry hentry => entryKey_taken (hshort entry hentry)
  constructor
  · intro h
    have hshort : ∀ entry ∈ entries, ¬ OverlongVersion (entry.published contract).version := by
      intro entry hentry
      obtain ⟨key, hkey⟩ := exists_key_of_sortByKeyOf h entry hentry
      cases hversion : versionKey (entry.published contract).version with
      | error error =>
          rw [entryKey, hversion] at hkey
          contradiction
      | ok value => exact not_overlong_of_versionKey hversion
    rw [hkeys hshort] at h
    exact ⟨hshort, (Except.ok.inj h).symm⟩
  · rintro ⟨hshort, rfl⟩
    exact hkeys hshort

/-- The generated order is the order of the validator unless a newline misplaces a version. -/
theorem pairwise_takenKey_iff {entries : List (RegistryDocumentEntry δ EntryValidation)}
    (hadmitted : ∀ entry ∈ entries,
      AdmittedVersion (entry.published schema.toCapabilityContract).version)
    (hshort : ∀ entry ∈ entries,
      ¬ OverlongVersion (entry.published schema.toCapabilityContract).version) :
    (sortByKey (takenKey schema.toCapabilityContract) entries).Pairwise (fun first second =>
        registryKey (first.published schema.toCapabilityContract).key ≤
          registryKey (second.published schema.toCapabilityContract).key) ↔
      ∀ first ∈ entries, ∀ second ∈ entries,
        (first.published schema.toCapabilityContract).id =
          (second.published schema.toCapabilityContract).id →
        ¬ NewlineMisplaced (first.published schema.toCapabilityContract).version
          (second.published schema.toCapabilityContract).version := by
  have hkey : ∀ entry ∈ entries, registryKey (entry.published schema.toCapabilityContract).key =
      toLex ((entry.published schema.toCapabilityContract).id,
        (readVersion (entry.published schema.toCapabilityContract).version).textualKey) :=
    fun entry hentry => registryKey_of_admitted _ (hadmitted entry hentry)
  rw [pairwise_sortByKey_iff]
  · constructor
    · intro h first hfirst second hsecond hid hmisplaced
      obtain ⟨-, htaken, hread⟩ := hmisplaced
      have hle := h first hfirst second hsecond (by
        rw [takenKey, takenKey, Prod.Lex.toLex_lt_toLex]
        exact Or.inr ⟨hid, htaken⟩)
      rw [hkey first hfirst, hkey second hsecond, hid, Prod.Lex.toLex_le_toLex] at hle
      cases hle with
      | inl hlt => exact lt_irrefl _ hlt
      | inr hle => exact not_le_of_gt hread hle.2
    · intro h first hfirst second hsecond hlt
      rw [takenKey, takenKey, Prod.Lex.toLex_lt_toLex] at hlt
      rw [hkey first hfirst, hkey second hsecond, Prod.Lex.toLex_le_toLex]
      cases hlt with
      | inl hid => exact Or.inl hid
      | inr htaken =>
          refine Or.inr ⟨htaken.1, ?_⟩
          by_contra hread
          have hread := lt_of_not_ge hread
          apply h first hfirst second hsecond htaken.1
          refine ⟨?_, htaken.2, hread⟩
          -- without a newline both sides take the versions alike
          by_contra hnewline
          simp only [not_or, Bool.not_eq_true] at hnewline
          rw [readVersion_of_not hnewline.1 (hshort first hfirst),
            readVersion_of_not hnewline.2 (hshort second hsecond)] at hread
          exact lt_asymm htaken.2 hread
  · intro first hfirst second hsecond heq
    rw [takenKey, takenKey, toLex_inj, Prod.mk.injEq] at heq
    obtain ⟨hid, htaken⟩ := heq
    have htaken := textualKey_inj.mp htaken
    rw [hkey first hfirst, hkey second hsecond, hid]
    cases eq_or_plain_of_takenVersion_eq (hadmitted first hfirst) (hadmitted second hsecond)
      htaken with
    | inl hversion => rw [hversion]
    | inr hplain =>
        rw [readVersion_of_not hplain.1 (hshort first hfirst),
          readVersion_of_not hplain.2 (hshort second hsecond), htaken]

/-- No check of an entry reports the issue of the order. -/
theorem unsortedIssue_not_mem_entriesLoop
    (items : List (RegistryDocumentEntry δ EntryValidation × ℕ)) (projects : Dict String String)
    (hvalid : ∀ entry ∈ items.map Prod.fst, entry.Valid schema.toCapabilityContract) :
    unsortedIssue ∉ (entriesLoop schema.toCapabilityContract items projects).1 := by
  induction items generalizing projects with
  | nil => simp [entriesLoop]
  | cons item rest ih =>
      obtain ⟨entry, index⟩ := item
      rw [List.map_cons, List.forall_mem_cons] at hvalid
      have hclaim : unsortedIssue ∉ (claimProject ("/spec/entries/" ++ toString index)
          (schema.metadata entry.capability) projects).1 := by
        rw [hvalid.1.metadata]
        simp only [claimProject]
        split
        · simp
        · split
          · simp
          · intro hmem
            have hpath := congrArg (fun issue => issue.path.length) (List.mem_singleton.mp hmem)
            have hshort : "/spec/entries".length = 13 := by decide
            have hlong : "/spec/entries/".length = 14 := by decide
            simp only [unsortedIssue, String.length_append] at hpath
            omega
      simp only [entriesLoop, entryIssues_eq_nil.mpr hvalid.1, List.nil_append, List.mem_append,
        not_or]
      exact ⟨hclaim, ih _ hvalid.2⟩

/-- The validator reports the order exactly when sorting changes the keys. -/
theorem unsortedIssue_mem_iff {registry : RegistryDocument δ EntryValidation}
    (hvalid : ∀ entry ∈ registry.entries, entry.Valid schema.toCapabilityContract) :
    unsortedIssue ∈ validateRegistry schema.toCapabilityContract registry ↔
      registryKeys schema registry ≠ sortedKeys (registryKeys schema registry) := by
  have hfst : registry.entries.zipIdx.map Prod.fst = registry.entries :=
    List.zipIdx_map_fst 0 registry.entries
  have hkeys : (entriesLoop schema.toCapabilityContract registry.entries.zipIdx Table.empty).2 =
      registryKeys schema registry := by
    rw [entriesLoop_keys _ _ (by rwa [hfst]), hfst, registryKeys]
  have hloop := unsortedIssue_not_mem_entriesLoop registry.entries.zipIdx Table.empty
    (by rwa [hfst])
  have hcount : unsortedIssue ∉ (if registry.entryCount = registry.entries.length then []
      else [⟨"/metadata/entry_count", "must equal the number of registry entries"⟩]) := by
    split
    · simp
    · decide
  have hduplicates : unsortedIssue ∉ duplicateIssues (registryKeys schema registry) "/spec/entries"
      "capability versions" := by
    unfold duplicateIssues
    simp only
    split
    · simp
    · intro hmem
      have hmessage := congrArg (fun issue => issue.message.toList.head?)
        (List.mem_singleton.mp hmem)
      simp [unsortedIssue, String.toList_append] at hmessage
  simp only [validateRegistry, hkeys, List.mem_append, hcount, hloop, hduplicates, false_or]
  by_cases hsorted : registryKeys schema registry = sortedKeys (registryKeys schema registry)
  · rw [if_pos hsorted]
    simp [← hsorted]
  · rw [if_neg hsorted]
    simp [unsortedIssue, hsorted]

/-- The registry that the builder makes of some documents. -/
def generatedRegistry (schema : CapabilitySchema δ) (catalog : Catalog)
    (owner : δ → CatalogRepository) (documents : List δ) :
    Except Exn (RegistryDocument δ EntryValidation) :=
  registryOf schema catalog (generatedEntries schema owner documents)

/-- Some documents in the order of the builder, where their versions have keys. -/
def arrangedRegistry (schema : CapabilitySchema δ) (catalog : Catalog)
    (owner : δ → CatalogRepository) (documents : List δ) : RegistryDocument δ EntryValidation where
  entryCount := documents.length
  catalogDigest := catalog.digest
  entries :=
    sortByKey (takenKey schema.toCapabilityContract) (generatedEntries schema owner documents)

theorem generatedRegistry_eq_ok {catalog : Catalog} {owner : δ → CatalogRepository}
    {documents : List δ} {registry : RegistryDocument δ EntryValidation} :
    generatedRegistry schema catalog owner documents = .ok registry ↔
      (∀ document ∈ documents, ¬ OverlongVersion (schema.read document).version) ∧
        registry = arrangedRegistry schema catalog owner documents := by
  have hlength : (generatedEntries schema owner documents).length = documents.length :=
    List.length_map _
  have hshort : (∀ entry ∈ generatedEntries schema owner documents,
      ¬ OverlongVersion (entry.published schema.toCapabilityContract).version) ↔
      ∀ document ∈ documents, ¬ OverlongVersion (schema.read document).version := by
    rw [generatedEntries, List.forall_mem_map]
    rfl
  unfold generatedRegistry registryOf
  cases hsorted : sortEntries schema.toCapabilityContract
      (generatedEntries schema owner documents) with
  | error error =>
      simp only [bind, Except.bind, reduceCtorEq, false_iff]
      rintro ⟨hread, -⟩
      rw [sortEntries_eq_ok.mpr ⟨hshort.mpr hread, rfl⟩] at hsorted
      contradiction
  | ok sorted =>
      obtain ⟨hread, rfl⟩ := sortEntries_eq_ok.mp hsorted
      simp only [bind, Except.bind, pure, Except.pure, hlength, Except.ok.injEq]
      exact ⟨fun h => ⟨hshort.mp hread, h.symm⟩, fun h => h.2.symm⟩

/-- The builder sorts its entries into a fixed point of the order of the validator, which does
not report it, exactly when every version has a key and no newline behind a version misplaces it
among the versions of its capability. -/
theorem generated_order_accepted_exactly (schema : CapabilitySchema δ) (catalog : Catalog)
    (owner : δ → CatalogRepository) (documents : List δ)
    (hvalid : ∀ document ∈ documents, schema.issues document = []) :
    (∃ registry, generatedRegistry schema catalog owner documents = .ok registry ∧
      sortedKeys (registryKeys schema registry) = registryKeys schema registry ∧
      unsortedIssue ∉ validateRegistry schema.toCapabilityContract registry) ↔
    (∀ document ∈ documents, ¬ OverlongVersion (schema.read document).version) ∧
    ∀ first ∈ documents, ∀ second ∈ documents,
      (schema.read first).id = (schema.read second).id →
        ¬ NewlineMisplaced (schema.read first).version (schema.read second).version := by
  simp only [generatedRegistry_eq_ok, and_assoc, exists_and_left, exists_eq_left]
  rw [and_congr_right_iff]
  intro hshort
  have hadmitted : ∀ entry ∈ generatedEntries schema owner documents,
      AdmittedVersion (entry.published schema.toCapabilityContract).version := by
    intro entry hentry
    obtain ⟨document, hdocument, rfl⟩ := List.mem_map.mp hentry
    exact schema.version_of_valid document (hvalid document hdocument)
  have hshort' : ∀ entry ∈ generatedEntries schema owner documents,
      ¬ OverlongVersion (entry.published schema.toCapabilityContract).version := by
    rw [generatedEntries, List.forall_mem_map]
    exact hshort
  have hentries : ∀ entry ∈ (arrangedRegistry schema catalog owner documents).entries,
      entry.Valid schema.toCapabilityContract := by
    intro entry hentry
    obtain ⟨document, hdocument, rfl⟩ :=
      List.mem_map.mp ((sortByKey_perm _ _).mem_iff.mp hentry)
    exact publishedEntry_valid (hvalid document hdocument) _
  rw [unsortedIssue_mem_iff hentries, not_not, eq_comm, and_self, eq_sortedKeys_iff,
    registryKeys, List.pairwise_map, arrangedRegistry, pairwise_takenKey_iff hadmitted hshort']
  simp only [generatedEntries, List.forall_mem_map]
  rfl

theorem generated_order_accepted_candidates :
    ∃ registry, generatedRegistry sampleReleaseSchema sampleCatalog (fun _ => sampleOwner)
        [.tenthCandidate, .buildB, .older, .buildA] = .ok registry ∧
      sortedKeys (registryKeys sampleReleaseSchema registry) =
        registryKeys sampleReleaseSchema registry ∧
      unsortedIssue ∉ validateRegistry sampleReleaseSchema.toCapabilityContract registry := by
  have hplain : ∀ release ∈ [SampleRelease.tenthCandidate, .buildB, .older, .buildA],
      endsInNewline (sampleReleaseSchema.read release).version = false := by decide
  apply (generated_order_accepted_exactly sampleReleaseSchema sampleCatalog (fun _ => sampleOwner)
    [.tenthCandidate, .buildB, .older, .buildA] (fun _ _ => rfl)).mpr
  refine ⟨by decide, ?_⟩
  intro first hfirst second hsecond _ hmisplaced
  cases hmisplaced.1 with
  | inl hnewline => exact absurd hnewline (by rw [hplain first hfirst]; decide)
  | inr hnewline => exact absurd hnewline (by rw [hplain second hsecond]; decide)

/-- The version that ends in a newline is the newer one for the validator and the older one
for the builder. -/
theorem generated_order_rejected :
    ∃ registry, generatedRegistry sampleReleaseSchema sampleCatalog (fun _ => sampleOwner)
        [.finalNewline, .older] = .ok registry ∧
      sortedKeys (registryKeys sampleReleaseSchema registry) ≠
        registryKeys sampleReleaseSchema registry ∧
      validateRegistry sampleReleaseSchema.toCapabilityContract registry = [unsortedIssue] := by
  refine ⟨arrangedRegistry sampleReleaseSchema sampleCatalog (fun _ => sampleOwner)
    [.finalNewline, .older], generatedRegistry_eq_ok.mpr ⟨by decide, rfl⟩, ?_⟩
  decide

end GeneratedOrder

end QhpcEcosystem
