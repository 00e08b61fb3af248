/-
Semantic versions: three numbers with an optional pre-release part and an optional build
part.  Two orders are compared on them, both without the build part: the one of the tuples,
which takes the pre-release part as one text, and the precedence, which compares it field by
field.
-/
import Mathlib.Data.String.Basic
import Mathlib.Data.Prod.Lex
import Mathlib.Data.Sum.Order
import Mathlib.Order.WithBot

namespace QhpcEcosystem

/-- What the orders look at; the build part is forgotten. -/
structure SemanticVersion where
  major : ℕ
  minor : ℕ
  patch : ℕ
  prerelease : Option String
deriving DecidableEq, Repr

namespace SemanticVersion

/-! ## The grammar -/

/-- `[0-9A-Za-z.-]` -/
def isIdentifierChar (c : Char) : Bool :=
  c.isDigit || c.isUpper || c.isLower || c = '.' || c = '-'

/-- `0|[1-9][0-9]*` -/
def isNumber (digits : List Char) : Bool :=
  digits = ['0'] || (!digits.isEmpty && digits.head? ≠ some '0' && digits.all Char.isDigit)

def decimalValue (digits : List Char) : ℕ :=
  digits.foldl (fun value digit => 10 * value + (digit.toNat - '0'.toNat)) 0

/-- The text in front of the first plus sign and of the first hyphen. -/
def numbersPart (text : List Char) : List Char :=
  (text.takeWhile (· ≠ '+')).takeWhile (· ≠ '-')

/-- The pre-release part with its hyphen. -/
def prereleasePart (text : List Char) : List Char :=
  (text.takeWhile (· ≠ '+')).dropWhile (· ≠ '-')

/-- The build part with its plus sign. -/
def buildPart (text : List Char) : List Char := text.dropWhile (· ≠ '+')

/-- A part is absent, or its sign is followed by one identifier character at least. -/
def isOptionalPart (part : List Char) : Bool :=
  part.isEmpty || (!(part.drop 1).isEmpty && (part.drop 1).all isIdentifierChar)

/-- `number.number.number`, `-` and a pre-release part or nothing, `+` and a build part or
nothing. -/
def parse? (text : List Char) : Option SemanticVersion :=
  match (numbersPart text).splitOn '.' with
  | [major, minor, patch] =>
      if isNumber major ∧ isNumber minor ∧ isNumber patch ∧
          isOptionalPart (prereleasePart text) ∧ isOptionalPart (buildPart text) then
        some ⟨decimalValue major, decimalValue minor, decimalValue patch,
          if prereleasePart text = [] then none
          else some (String.ofList ((prereleasePart text).drop 1))⟩
      else none
  | _ => none

/-! ## Two orders -/

/-- The numbers, 1 for a release and 0 for a pre-release, and the pre-release part, as tuples
compare. -/
abbrev TextualKey := ℕ ×ₗ ℕ ×ₗ ℕ ×ₗ ℕ ×ₗ String

def textualKey (version : SemanticVersion) : TextualKey :=
  toLex (version.major, toLex (version.minor, toLex (version.patch,
    toLex (if version.prerelease.isNone then 1 else 0, version.prerelease.getD ""))))

/-- A field of a pre-release part; a numeric field stands below every other one. -/
abbrev Field := ℕ ⊕ₗ String

def field (text : List Char) : Field :=
  if text ≠ [] ∧ text.all Char.isDigit then Sum.inlₗ (decimalValue text)
  else Sum.inrₗ (String.ofList text)

def fields (prerelease : String) : List Field :=
  (prerelease.toList.splitOn '.').map field

/-- The numbers, then the fields of the pre-release part; a release stands on top. -/
abbrev Precedence := ℕ ×ₗ ℕ ×ₗ ℕ ×ₗ WithTop (List Field)

def precedence (version : SemanticVersion) : Precedence :=
  toLex (version.major, toLex (version.minor, toLex (version.patch,
    match version.prerelease with
    | none => ⊤
    | some prerelease => (fields prerelease : WithTop (List Field)))))

example : parse? "1.20.3-rc.1+build-7".toList = some ⟨1, 20, 3, some "rc.1"⟩ := by decide

example : parse? "1.20.03".toList = none := by decide

def numbers (version : SemanticVersion) : ℕ × ℕ × ℕ :=
  (version.major, version.minor, version.patch)

/-! ## Texts of the grammar -/

theorem digits_of_isNumber {digits : List Char} (h : isNumber digits = true) :
    digits ≠ [] ∧ digits.all Char.isDigit = true := by
  rw [isNumber, Bool.or_eq_true] at h
  cases h with
  | inl hzero =>
      rw [decide_eq_true_iff] at hzero
      rw [hzero]
      exact ⟨List.cons_ne_nil _ _, by decide⟩
  | inr hdigits =>
      simp only [Bool.and_eq_true, Bool.not_eq_true', List.isEmpty_eq_false_iff] at hdigits
      exact ⟨hdigits.1.1, hdigits.2⟩

theorem parts_append (text : List Char) :
    numbersPart text ++ prereleasePart text ++ buildPart text = text := by
  rw [numbersPart, prereleasePart, List.takeWhile_append_dropWhile, buildPart,
    List.takeWhile_append_dropWhile]

theorem parse?_eq_some {text : List Char} {version : SemanticVersion} :
    parse? text = some version ↔
      ∃ major minor patch, (numbersPart text).splitOn '.' = [major, minor, patch] ∧
        isNumber major ∧ isNumber minor ∧ isNumber patch ∧
        isOptionalPart (prereleasePart text) ∧ isOptionalPart (buildPart text) ∧
        version = ⟨decimalValue major, decimalValue minor, decimalValue patch,
          if prereleasePart text = [] then none
          else some (String.ofList ((prereleasePart text).drop 1))⟩ := by
  unfold parse?
  constructor
  · intro h
    split at h
    · split at h
      · rename_i major minor patch hparts hgrammar
        obtain ⟨hmajor, hminor, hpatch, hprerelease, hbuild⟩ := hgrammar
        exact ⟨major, minor, patch, hparts, hmajor, hminor, hpatch, hprerelease, hbuild,
          (Option.some.inj h).symm⟩
      · contradiction
    · contradiction
  · rintro ⟨major, minor, patch, hparts, hmajor, hminor, hpatch, hprerelease, hbuild, hversion⟩
    simp only [hparts, hmajor, hminor, hpatch, hprerelease, hbuild, and_self, if_true, hversion]

/-- A part that starts with its sign holds identifier characters behind it. -/
theorem char_of_optionalPart {text : List Char} {sign c : Char}
    (h : isOptionalPart (text.dropWhile (· ≠ sign)) = true)
    (hc : c ∈ text.dropWhile (· ≠ sign)) : c = sign ∨ isIdentifierChar c = true := by
  cases hpart : text.dropWhile (· ≠ sign) with
  | nil => rw [hpart] at hc; contradiction
  | cons first rest =>
      have hfirst : first = sign := by
        have hhead := List.head?_dropWhile_not (· ≠ sign) text
        rw [hpart] at hhead
        simpa using hhead
      rw [hpart] at h hc
      cases List.mem_cons.mp hc with
      | inl heq => exact Or.inl (heq.trans hfirst)
      | inr hrest =>
          simp only [isOptionalPart, List.isEmpty_cons, List.drop_succ_cons, List.drop_zero,
            Bool.false_or, Bool.and_eq_true] at h
          exact Or.inr (List.all_eq_true.mp h.2 c hrest)

/-- A text of the grammar consists of identifier characters and plus signs. -/
theorem char_of_parse? {text : List Char} {version : SemanticVersion}
    (h : parse? text = some version) {c : Char} (hc : c ∈ text) :
    isIdentifierChar c = true ∨ c = '+' := by
  obtain ⟨major, minor, patch, hparts, hmajor, hminor, hpatch, hprerelease, hbuild, -⟩ :=
    parse?_eq_some.mp h
  rw [← parts_append text, List.mem_append, List.mem_append] at hc
  rcases hc with (hnumbers | hpre) | hpost
  · left
    -- the numbers and the dots between them
    have hjoined : ['.'].intercalate ((numbersPart text).splitOn '.') = numbersPart text :=
      List.intercalate_splitOn '.'
    rw [hparts] at hjoined
    have hdigit : ∀ digits, isNumber digits = true → c ∈ digits → isIdentifierChar c = true := by
      intro digits hdigits hmem
      have hall := List.all_eq_true.mp (digits_of_isNumber hdigits).2 c hmem
      simp [isIdentifierChar, hall]
    rw [← hjoined] at hnumbers
    simp only [List.intercalate, List.intersperse, List.flatten_cons, List.flatten_nil,
      List.append_nil, List.mem_append, List.mem_singleton] at hnumbers
    rcases hnumbers with h1 | rfl | h2 | rfl | h3
    · exact hdigit major hmajor h1
    · decide
    · exact hdigit minor hminor h2
    · decide
    · exact hdigit patch hpatch h3
  · left
    rcases char_of_optionalPart hprerelease hpre with rfl | hchar
    · decide
    · exact hchar
  · rcases char_of_optionalPart hbuild hpost with rfl | hchar
    · exact Or.inr rfl
    · exact Or.inl hchar

/-! ## The orders -/

theorem textualKey_inj {first second : SemanticVersion} :
    first.textualKey = second.textualKey ↔ first = second := by
  constructor
  · intro h
    obtain ⟨major, minor, patch, prerelease⟩ := first
    obtain ⟨major', minor', patch', prerelease'⟩ := second
    simp only [textualKey, toLex_inj, Prod.mk.injEq] at h
    obtain ⟨rfl, rfl, rfl, hfinal, hprerelease⟩ := h
    cases prerelease with
    | none =>
        cases prerelease' with
        | none => rfl
        | some text => simp at hfinal
    | some text =>
        cases prerelease' with
        | none => simp at hfinal
        | some text' =>
            have htext : text = text' := hprerelease
            rw [htext]
  · intro h
    rw [h]

/-- The tuples of two versions are ordered as their precedence, unless both are pre-releases
of the same numbers. -/
theorem textualKey_le_of_precedence_le {first second : SemanticVersion}
    (h : first.precedence ≤ second.precedence)
    (htexts : first.numbers = second.numbers → ∀ text ∈ first.prerelease,
      ∀ text' ∈ second.prerelease, text ≤ text') :
    first.textualKey ≤ second.textualKey := by
  obtain ⟨major, minor, patch, prerelease⟩ := first
  obtain ⟨major', minor', patch', prerelease'⟩ := second
  simp only [precedence, Prod.Lex.toLex_le_toLex] at h
  simp only [textualKey, Prod.Lex.toLex_le_toLex]
  rcases h with hmajor | ⟨rfl, hminor | ⟨rfl, hpatch | ⟨rfl, hfields⟩⟩⟩
  · exact Or.inl hmajor
  · exact Or.inr ⟨rfl, Or.inl hminor⟩
  · exact Or.inr ⟨rfl, Or.inr ⟨rfl, Or.inl hpatch⟩⟩
  · refine Or.inr ⟨rfl, Or.inr ⟨rfl, Or.inr ⟨rfl, ?_⟩⟩⟩
    cases prerelease with
    | none =>
        cases prerelease' with
        | none => simp
        | some text' => simp at hfields
    | some text =>
        cases prerelease' with
        | none => simp
        | some text' =>
            have hle := htexts rfl text rfl text' rfl
            simpa using hle

end SemanticVersion

end QhpcEcosystem
