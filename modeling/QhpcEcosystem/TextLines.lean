/-
White space and line breaks of a text: what `strip` removes, the breaks that a text stream makes
of carriage returns, lines that a line feed ends, lines as a string splits itself into, and
paragraphs between blank lines.
-/
import Mathlib.Data.List.DropRight

namespace QhpcEcosystem

/-! ## White space -/

/-- `str.isspace` of one character. -/
def isSpace (c : Char) : Bool :=
  c.toNat ∈ [0x20, 0x85, 0xA0, 0x1680, 0x2028, 0x2029, 0x202F, 0x205F, 0x3000] ||
    (0x09 ≤ c.toNat && c.toNat ≤ 0x0D) || (0x1C ≤ c.toNat && c.toNat ≤ 0x1F) ||
    (0x2000 ≤ c.toNat && c.toNat ≤ 0x200A)

/-- A text without the white space at its ends. -/
def trimmed (space : Char → Bool) (text : List Char) : List Char :=
  ((text.dropWhile space).reverse.dropWhile space).reverse

section WhiteSpace

variable {space : Char → Bool} {text first : List Char}

theorem dropWhile_append_eq_self (hne : text ≠ []) (h : ∀ c ∈ text, space c = false)
    (rest : List Char) : (text ++ rest).dropWhile space = text ++ rest := by
  cases text with
  | nil => exact absurd rfl hne
  | cons c text => simp [h c List.mem_cons_self]

/-- A text that starts with a word keeps it. -/
theorem trimmed_append (hne : first ≠ []) (h : ∀ c ∈ first, space c = false)
    (rest : List Char) : trimmed space (first ++ rest) = first ++ rest.rdropWhile space := by
  have hreverse : ∀ c ∈ first.reverse, space c = false :=
    fun c hc => h c (List.mem_reverse.mp hc)
  rw [trimmed, dropWhile_append_eq_self hne h, List.reverse_append, List.dropWhile_append]
  split
  · next hempty =>
      have hself := dropWhile_append_eq_self (by simpa using hne) hreverse []
      rw [List.append_nil] at hself
      rw [hself, List.reverse_reverse, List.rdropWhile, List.isEmpty_iff.mp hempty,
        List.reverse_nil, List.append_nil]
  · rw [List.reverse_append, List.reverse_reverse, List.rdropWhile]

theorem trimmed_eq_self (h : ∀ c ∈ text, space c = false) : trimmed space text = text := by
  by_cases hne : text = []
  · rw [hne]
    rfl
  · have htrimmed := trimmed_append hne h []
    rwa [List.rdropWhile_nil, List.append_nil] at htrimmed

end WhiteSpace

/-! ## Line feeds -/

/-- Line breaks as a text stream gives them. -/
def universalNewlines : List Char → List Char
  | [] => []
  | [c] => if c = '\r' then ['\n'] else [c]
  | c :: d :: rest =>
      if c = '\r' then
        if d = '\n' then '\n' :: universalNewlines rest else '\n' :: universalNewlines (d :: rest)
      else c :: universalNewlines (d :: rest)

/-- The lines of a text, without their line breaks. -/
def splitLines : List Char → List (List Char)
  | [] => [[]]
  | c :: rest =>
      if c = '\n' then [] :: splitLines rest
      else match splitLines rest with
        | [] => [[c]]
        | line :: lines => (c :: line) :: lines

section LineFeeds

variable {text line : List Char}

theorem universalNewlines_of_notMem (h : '\r' ∉ text) : universalNewlines text = text := by
  fun_induction universalNewlines text with
  | case1 => rfl
  | case2 => exact absurd List.mem_cons_self h
  | case3 => rfl
  | case4 => exact absurd List.mem_cons_self h
  | case5 => exact absurd List.mem_cons_self h
  | case6 c d rest _ ih => rw [ih fun hmem => h (List.mem_cons_of_mem _ hmem)]

theorem splitLines_ne_nil (text : List Char) : splitLines text ≠ [] := by
  cases text with
  | nil => exact List.cons_ne_nil _ _
  | cons c rest =>
      simp only [splitLines]
      split
      · exact List.cons_ne_nil _ _
      · split <;> exact List.cons_ne_nil _ _

theorem splitLines_append (a b : List Char) :
    splitLines (a ++ '\n' :: b) = splitLines a ++ splitLines b := by
  induction a with
  | nil => rfl
  | cons c a ih =>
      simp only [List.cons_append, splitLines, ih]
      split
      · rfl
      · cases hlines : splitLines a with
        | nil => exact absurd hlines (splitLines_ne_nil a)
        | cons line lines => rfl

theorem splitLines_of_notMem (h : '\n' ∉ line) : splitLines line = [line] := by
  induction line with
  | nil => rfl
  | cons c line ih =>
      rw [List.mem_cons, not_or] at h
      rw [splitLines, if_neg fun heq => h.1 heq.symm, ih h.2]

end LineFeeds

/-! ## Paragraphs -/

/-- The parts between two line feeds that follow each other. -/
def splitParagraphs : List Char → List (List Char)
  | [] => [[]]
  | [c] => [[c]]
  | c :: d :: rest =>
      if c = '\n' ∧ d = '\n' then [] :: splitParagraphs rest
      else match splitParagraphs (d :: rest) with
        | [] => [[c]]
        | paragraph :: others => (c :: paragraph) :: others

/-- The characters at which a string splits itself into lines. -/
def isLineBreak (c : Char) : Bool :=
  c.toNat ∈ [0x0A, 0x0B, 0x0C, 0x0D, 0x1C, 0x1D, 0x1E, 0x85, 0x2028, 0x2029]

/-- The lines of a string that has no carriage return before a line feed. -/
def stringLines : List Char → List (List Char)
  | [] => []
  | c :: rest =>
      if isLineBreak c then [] :: stringLines rest
      else match stringLines rest with
        | [] => [[c]]
        | line :: lines => (c :: line) :: lines

section Paragraphs

variable {line first second : List Char} {c : Char} {rest : List Char}

/-- A character that does not start a blank line belongs to the next paragraph. -/
theorem splitParagraphs_cons {paragraph : List Char} {others : List (List Char)}
    (h : ¬ (c = '\n' ∧ rest.head? = some '\n'))
    (hrest : splitParagraphs rest = paragraph :: others) :
    splitParagraphs (c :: rest) = (c :: paragraph) :: others := by
  cases rest with
  | nil =>
      cases hrest
      rfl
  | cons d rest =>
      rw [splitParagraphs, if_neg fun hblank => h ⟨hblank.1, congrArg some hblank.2⟩, hrest]

theorem splitParagraphs_line (h : '\n' ∉ line) (rest : List Char) :
    splitParagraphs (line ++ '\n' :: '\n' :: rest) = line :: splitParagraphs rest := by
  induction line with
  | nil => exact if_pos ⟨rfl, rfl⟩
  | cons c line ih =>
      rw [List.mem_cons, not_or] at h
      exact splitParagraphs_cons (fun hblank => h.1 hblank.1.symm) (ih h.2)

/-- Two lines with a blank line behind them are a paragraph. -/
theorem splitParagraphs_lines (hfirst : '\n' ∉ first) (hsecond : '\n' ∉ second)
    (hne : second ≠ []) (rest : List Char) :
    splitParagraphs (first ++ '\n' :: (second ++ '\n' :: '\n' :: rest)) =
      (first ++ '\n' :: second) :: splitParagraphs rest := by
  induction first with
  | nil =>
      refine splitParagraphs_cons (fun hblank => ?_) (splitParagraphs_line hsecond rest)
      cases second with
      | nil => exact hne rfl
      | cons d second =>
          rw [List.cons_append, List.head?_cons, Option.some.injEq] at hblank
          exact hsecond (List.mem_cons.mpr (.inl hblank.2.symm))
  | cons c first ih =>
      rw [List.mem_cons, not_or] at hfirst
      exact splitParagraphs_cons (fun hblank => hfirst.1 hblank.1.symm) (ih hfirst.2)

theorem stringLines_append (h : ∀ c ∈ line, isLineBreak c = false) (rest : List Char) :
    stringLines (line ++ '\n' :: rest) = line :: stringLines rest := by
  induction line with
  | nil => rfl
  | cons c line ih =>
      rw [List.forall_mem_cons] at h
      rw [List.cons_append, stringLines, h.1, ih h.2]
      rfl

theorem stringLines_line (h : ∀ c ∈ line, isLineBreak c = false) (hne : line ≠ []) :
    stringLines line = [line] := by
  induction line with
  | nil => exact absurd rfl hne
  | cons c line ih =>
      rw [List.forall_mem_cons] at h
      rw [stringLines, h.1]
      cases line with
      | nil => rfl
      | cons d line => rw [ih h.2 (List.cons_ne_nil d line)]; rfl

end Paragraphs

end QhpcEcosystem
