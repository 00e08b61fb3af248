/-
Words of a shell text: a reader of the quoting rules of the shell language, one character
after another, and the quoting that makes any text a single word of it.
-/
import Mathlib.Data.List.Basic
import Mathlib.Data.List.Chain
import Mathlib.Data.List.Infix
import Mathlib.Tactic.Tauto

namespace QhpcEcosystem.Shell

/-! ## Tokens -/

/-- One piece of a word: a character as it stands, or the value of a parameter. -/
inductive Piece
  | char (c : Char)
  | expansion (quoted : Bool) (parameter : List Char)
deriving DecidableEq

/-- What the shell reads a text as. A `substitution` is a word that runs on into a command
substitution, whose tokens follow up to its closing parenthesis. -/
inductive Token
  | word (pieces : List Piece)
  | substitution (pieces : List Piece)
  | operator (c : Char)
  | newline
deriving DecidableEq

/-- Where the reader stands in the quoting rules. -/
inductive Mode
  | plain
  | comment
  | escaped
  | single
  | double
  | doubleEscaped
  | dollar (quoted : Bool)
  | name (quoted : Bool) (parameter : List Char)
  | braced (quoted : Bool) (parameter : List Char)
deriving DecidableEq

/-- The reader between two characters: its mode, and the word that is begun. -/
structure State where
  mode : Mode
  word : Option (List Piece)
deriving DecidableEq

/-- Between two words. -/
def start : State := ⟨.plain, none⟩

/-! ## The reader -/

/-- The word goes on with another piece. -/
def put (word : Option (List Piece)) (piece : Piece) : Option (List Piece) :=
  some (word.getD [] ++ [piece])

/-- The word that a blank ends. -/
def flush : Option (List Piece) → List Token
  | none => []
  | some pieces => [.word pieces]

/-- A character without a meaning of its own outside quotes. -/
def isOrdinary (c : Char) : Bool :=
  c.isAlphanum || c ∈ ['_', '@', '%', '+', '=', ':', ',', '.', '/', '-']

def isNameStart (c : Char) : Bool :=
  c.isAlpha || c = '_'

def isNameChar (c : Char) : Bool :=
  c.isAlphanum || c = '_'

/-- The parameters of one character. -/
def isSpecialParameter (c : Char) : Bool :=
  c.isDigit || c ∈ ['@', '*', '#', '?', '-', '$', '!']

def stepPlain (word : Option (List Piece)) (c : Char) : State × List Token :=
  if isOrdinary c then (⟨.plain, put word (.char c)⟩, [])
  else if c = ' ' ∨ c = '\t' then (start, flush word)
  else if c = '\n' then (start, flush word ++ [.newline])
  else if c = '\'' then (⟨.single, some (word.getD [])⟩, [])
  else if c = '"' then (⟨.double, some (word.getD [])⟩, [])
  else if c = '\\' then (⟨.escaped, word⟩, [])
  else if c = '$' then (⟨.dollar false, word⟩, [])
  else if c = '#' then
    -- A word may hold the sign; only before a word it begins a comment.
    if word = none then (⟨.comment, none⟩, []) else (⟨.plain, put word (.char c)⟩, [])
  else (start, flush word ++ [.operator c])

def stepDouble (word : Option (List Piece)) (c : Char) : Option (State × List Token) :=
  if c = '"' then some (⟨.plain, word⟩, [])
  else if c = '\\' then some (⟨.doubleEscaped, word⟩, [])
  else if c = '$' then some (⟨.dollar true, word⟩, [])
  else if c = '`' then none
  else some (⟨.double, put word (.char c)⟩, [])

/-- The mode an expansion returns to. -/
def around (quoted : Bool) : Mode :=
  if quoted then .double else .plain

/-- One character. The reader stops at what it has no token for: a command substitution in
double quotes, and a dollar sign that begins no expansion, which the language leaves open. -/
def step (s : State) (c : Char) : Option (State × List Token) :=
  match s.mode with
  | .plain => some (stepPlain s.word c)
  | .comment => if c = '\n' then some (start, [.newline]) else some (s, [])
  | .escaped =>
      -- A line break after a backslash joins the lines.
      if c = '\n' then some (⟨.plain, s.word⟩, [])
      else some (⟨.plain, put s.word (.char c)⟩, [])
  | .single =>
      if c = '\'' then some (⟨.plain, s.word⟩, [])
      else some (⟨.single, put s.word (.char c)⟩, [])
  | .double => stepDouble s.word c
  | .doubleEscaped =>
      if c = '\n' then some (⟨.double, s.word⟩, [])
      else if c ∈ ['$', '`', '"', '\\'] then some (⟨.double, put s.word (.char c)⟩, [])
      else some (⟨.double, put (put s.word (.char '\\')) (.char c)⟩, [])
  | .dollar quoted =>
      if isNameStart c then some (⟨.name quoted [c], s.word⟩, [])
      else if isSpecialParameter c then
        some (⟨around quoted, put s.word (.expansion quoted [c])⟩, [])
      else if c = '{' then some (⟨.braced quoted [], s.word⟩, [])
      else if c = '(' ∧ quoted = false then some (start, [.substitution (s.word.getD [])])
      else none
  | .name quoted parameter =>
      if isNameChar c then some (⟨.name quoted (parameter ++ [c]), s.word⟩, [])
      else if quoted then stepDouble (put s.word (.expansion quoted parameter)) c
      else some (stepPlain (put s.word (.expansion quoted parameter)) c)
  | .braced quoted parameter =>
      if c = '}' then some (⟨around quoted, put s.word (.expansion quoted parameter)⟩, [])
      else if c ∈ ['"', '\'', '\\', '$', '`'] then none
      else some (⟨.braced quoted (parameter ++ [c]), s.word⟩, [])

def run : State → List Char → Option (State × List Token)
  | s, [] => some (s, [])
  | s, c :: text =>
      (step s c).bind fun first =>
        (run first.1 text).map fun last => (last.1, first.2 ++ last.2)

/-- What the end of the text ends. An open quote has no reading. -/
def finish (s : State) : Option (List Token) :=
  match s.mode with
  | .plain => some (flush s.word)
  | .comment => some []
  | .name false parameter => some (flush (put s.word (.expansion false parameter)))
  | _ => none

def tokensFrom (s : State) (text : List Char) : Option (List Token) :=
  (run s text).bind fun last => (finish last.1).map (last.2 ++ ·)

/-- The tokens of a whole text. -/
def tokens (text : List Char) : Option (List Token) :=
  tokensFrom start text

/-- A word without expansions. -/
def literal (text : List Char) : Token :=
  .word (text.map .char)

def Piece.char? : Piece → Option Char
  | .char c => some c
  | .expansion _ _ => none

def Token.literal? : Token → Option (List Char)
  | .word pieces => pieces.mapM Piece.char?
  | _ => none

/-- The words of a text that has nothing but words without expansions. -/
def words (text : List Char) : Option (List (List Char)) :=
  (tokens text).bind fun read => read.mapM Token.literal?

section Words

variable {text : List Char}

theorem literal?_literal (text : List Char) : (literal text).literal? = some text := by
  rw [literal, Token.literal?]
  induction text with
  | nil => rfl
  | cons c text ih =>
      rw [List.map_cons, List.mapM_cons, ih]
      rfl

theorem words_eq {read : List (List Char)} (h : tokens text = some (read.map literal)) :
    words text = some read := by
  rw [words, h, Option.bind_some]
  clear h
  induction read with
  | nil => rfl
  | cons word read ih =>
      rw [List.map_cons, List.mapM_cons, literal?_literal, ih]
      rfl

end Words

section Running

variable {s s' s'' : State} {first second text : List Char} {out out' : List Token}

@[simp] theorem run_nil (s : State) : run s [] = some (s, []) := rfl

theorem run_append (s : State) (first second : List Char) :
    run s (first ++ second) = (run s first).bind fun before =>
      (run before.1 second).map fun after => (after.1, before.2 ++ after.2) := by
  induction first generalizing s with
  | nil => simp
  | cons c first ih =>
      rw [List.cons_append, run, run, Option.bind_assoc]
      congr 1
      funext begun
      rw [ih, Option.map_bind, Option.bind_map]
      congr 1
      funext before
      simp only [Function.comp_def, Option.map_map, List.append_assoc]

theorem run_trans (hfirst : run s first = some (s', out))
    (hsecond : run s' second = some (s'', out')) :
    run s (first ++ second) = some (s'', out ++ out') := by
  rw [run_append, hfirst, Option.bind_some, hsecond, Option.map_some]

/-- What is read so far stands before all that follows. -/
theorem tokensFrom_append (hfirst : run s first = some (s', out)) :
    tokensFrom s (first ++ second) = (tokensFrom s' second).map (out ++ ·) := by
  rw [tokensFrom, run_append, hfirst, Option.bind_some, Option.bind_map, tokensFrom,
    Option.map_bind]
  congr 1
  funext after
  simp only [Function.comp_def, Option.map_map, List.append_assoc]

theorem tokensFrom_silent (hfirst : run s first = some (s', [])) :
    tokensFrom s (first ++ second) = tokensFrom s' second := by
  rw [tokensFrom_append hfirst]
  simp

theorem step_of_tokensFrom {c : Char} {read : List Token}
    (hread : tokensFrom s (c :: second) = some read) :
    ∃ s' out later, step s c = some (s', out) ∧ tokensFrom s' second = some later ∧
      out ++ later = read := by
  cases hstep : step s c with
  | none => simp [tokensFrom, run, hstep] at hread
  | some first =>
      have hfirst : run s [c] = some (first.1, first.2) := by simp [run, hstep]
      rw [← List.singleton_append, tokensFrom_append hfirst, Option.map_eq_some_iff] at hread
      obtain ⟨later, hlater, heq⟩ := hread
      exact ⟨first.1, first.2, later, rfl, hlater, heq⟩

theorem tokensFrom_eq (hrun : run s text = some (s', out)) {last : List Token}
    (hlast : finish s' = some last) : tokensFrom s text = some (out ++ last) := by
  rw [tokensFrom, hrun, Option.bind_some, hlast, Option.map_some]

end Running

/-! ## Quoting -/

/-- The text as the inside of single quotes, each quote of its own in double quotes. -/
def escapeQuotes (text : List Char) : List Char :=
  text.flatMap fun c => if c = '\'' then ['\'', '"', '\'', '"', '\''] else [c]

/-- The text as one word: as it stands if no character of it has a meaning, in single quotes
otherwise. -/
def quote (text : List Char) : List Char :=
  if text = [] then ['\'', '\'']
  else if text.all isOrdinary then text
  else '\'' :: (escapeQuotes text ++ ['\''])

/-- The text goes on with the word begun, or begins one, by these pieces. -/
def Spells (text : List Char) (pieces : List Piece) : Prop :=
  ∀ word, run ⟨.plain, word⟩ text = some (⟨.plain, some (word.getD [] ++ pieces)⟩, [])

section Quoting

variable {text : List Char} {word : List Piece}

theorem mem_quote {c : Char} (h : c ∈ quote text) : c ∈ text ∨ c = '\'' ∨ c = '"' := by
  unfold quote at h
  split_ifs at h
  · simp only [List.mem_cons, List.not_mem_nil, or_false, or_self] at h
    exact .inr (.inl h)
  · exact .inl h
  · simp only [List.mem_cons, List.mem_append, escapeQuotes, List.mem_flatMap, List.not_mem_nil,
      or_false] at h
    rcases h with h | ⟨d, hd, hc⟩ | h
    · exact .inr (.inl h)
    · split_ifs at hc
      · simp only [List.mem_cons, List.not_mem_nil, or_false] at hc
        tauto
      · rw [List.mem_singleton.mp hc]
        exact .inl hd
    · exact .inr (.inl h)

theorem subset_quote (text : List Char) : text ⊆ quote text := by
  intro c hc
  unfold quote
  split_ifs with hempty
  · rw [hempty] at hc
    contradiction
  · exact hc
  · simp only [List.mem_cons, List.mem_append, escapeQuotes, List.mem_flatMap]
    refine .inr (.inl ⟨c, hc, ?_⟩)
    split <;> simp_all

theorem Spells.append {first second : List Char} {pieces pieces' : List Piece}
    (hfirst : Spells first pieces) (hsecond : Spells second pieces') :
    Spells (first ++ second) (pieces ++ pieces') := by
  intro word
  rw [run_trans (hfirst word) (hsecond _)]
  simp

theorem run_ordinary (hordinary : text.all isOrdinary = true) (word : List Piece) :
    run ⟨.plain, some word⟩ text = some (⟨.plain, some (word ++ text.map .char)⟩, []) := by
  induction text generalizing word with
  | nil => simp
  | cons c text ih =>
      rw [List.all_cons, Bool.and_eq_true] at hordinary
      rw [run]
      simp [step, stepPlain, put, hordinary.1, ih hordinary.2]

theorem spells_ordinary (hne : text ≠ []) (hordinary : text.all isOrdinary = true) :
    Spells text (text.map .char) := by
  intro word
  obtain ⟨c, rest, rfl⟩ := List.exists_cons_of_ne_nil hne
  rw [List.all_cons, Bool.and_eq_true] at hordinary
  rw [run]
  simp [step, stepPlain, put, hordinary.1, run_ordinary hordinary.2]

theorem run_escapeQuotes (text : List Char) (word : List Piece) :
    run ⟨.single, some word⟩ (escapeQuotes text) =
      some (⟨.single, some (word ++ text.map .char)⟩, []) := by
  induction text generalizing word with
  | nil => simp [escapeQuotes]
  | cons c text ih =>
      have hfirst : run ⟨.single, some word⟩
          (if c = '\'' then ['\'', '"', '\'', '"', '\''] else [c]) =
            some (⟨.single, some (word ++ [.char c])⟩, []) := by
        by_cases hquote : c = '\''
        · subst hquote
          rfl
        · simp [run, step, put, hquote]
      rw [escapeQuotes, List.flatMap_cons, ← escapeQuotes, run_trans hfirst (ih _)]
      simp

theorem spells_quote (text : List Char) : Spells (quote text) (text.map .char) := by
  by_cases hempty : text = []
  · subst hempty
    intro word
    simp [quote, run, step, stepPlain, isOrdinary]
  by_cases hordinary : text.all isOrdinary = true
  · rw [quote, if_neg hempty, if_pos hordinary]
    exact spells_ordinary hempty hordinary
  · rw [quote, if_neg hempty, if_neg hordinary]
    intro word
    have hopen : step ⟨.plain, word⟩ '\'' = some (⟨.single, some (word.getD [])⟩, []) := rfl
    have hclose : run ⟨.single, some (word.getD [] ++ text.map .char)⟩ ['\''] =
        some (⟨.plain, some (word.getD [] ++ text.map .char)⟩, []) := rfl
    rw [run, hopen, Option.bind_some, run_trans (run_escapeQuotes text _) hclose]
    rfl

end Quoting

/-! ## Words after words -/

/-- Words with a blank before each. -/
def blanks (texts : List (List Char)) : List Char :=
  texts.flatMap fun text => ' ' :: text

/-- A line and what it is read as, up to the line break. -/
def ReadsLine (line : List Char) (read : List Token) : Prop :=
  run start (line ++ ['\n']) = some (start, read ++ [.newline])

instance (line : List Char) (read : List Token) : Decidable (ReadsLine line read) :=
  inferInstanceAs (Decidable (run start (line ++ ['\n']) = some (start, read ++ [.newline])))

section Lists

variable {ι : Type} {text : ι → List Char} {pieces : ι → List Piece} {items : List ι}
  {word : List Piece} {rest : List Char}

theorem intercalate_blank (first : List Char) (rest : List (List Char)) :
    [' '].intercalate (first :: rest) = first ++ blanks rest := by
  induction rest generalizing first with
  | nil => simp [blanks]
  | cons second rest ih =>
      rw [List.intercalate_cons_cons, ih]
      simp [blanks]

theorem tokensFrom_blank (word : List Piece) (rest : List Char) :
    tokensFrom ⟨.plain, some word⟩ (' ' :: rest) = (tokensFrom start rest).map (.word word :: ·) :=
  @tokensFrom_append _ _ [' '] _ [.word word] rfl

theorem run_blanks (h : ∀ i ∈ items, Spells (text i) (pieces i)) (word : List Piece) :
    ∃ last out, run ⟨.plain, some word⟩ (blanks (items.map text)) =
        some (⟨.plain, some last⟩, out) ∧
      out ++ [.word last] = .word word :: items.map fun i => .word (pieces i) := by
  induction items generalizing word with
  | nil => exact ⟨word, [], rfl, rfl⟩
  | cons i items ih =>
      obtain ⟨last, out, hrun, hout⟩ :=
        ih (fun j hj => h j (List.mem_cons_of_mem _ hj)) (pieces i)
      have hblank : run ⟨.plain, some word⟩ [' '] = some (start, [.word word]) := rfl
      have htext : run start (text i) = some (⟨.plain, some (pieces i)⟩, []) :=
        h i List.mem_cons_self none
      refine ⟨last, [.word word] ++ ([] ++ out), ?_, ?_⟩
      · have hsplit : blanks ((i :: items).map text) =
            [' '] ++ (text i ++ blanks (items.map text)) := by
          simp [blanks]
        rw [hsplit, run_trans hblank (run_trans htext hrun)]
      · rw [List.nil_append, List.append_assoc, hout]
        rfl

/-- Words that end the text. -/
theorem tokensFrom_blanks (h : ∀ i ∈ items, Spells (text i) (pieces i)) (word : List Piece) :
    tokensFrom ⟨.plain, some word⟩ (blanks (items.map text)) =
      some (.word word :: items.map fun i => .word (pieces i)) := by
  obtain ⟨last, out, hrun, hout⟩ := run_blanks h word
  rw [← hout]
  exact tokensFrom_eq hrun rfl

/-- Words that end a line. -/
theorem readsLine_blanks {first : List Char} (hfirst : Spells first word)
    (h : ∀ i ∈ items, Spells (text i) (pieces i)) :
    ReadsLine (first ++ blanks (items.map text))
      (.word word :: items.map fun i => .word (pieces i)) := by
  obtain ⟨last, out, hrun, hout⟩ := run_blanks h word
  have hbreak : run ⟨.plain, some last⟩ ['\n'] = some (start, [.word last, .newline]) := rfl
  have hbegin : run start first = some (⟨.plain, some word⟩, []) := hfirst none
  rw [ReadsLine, List.append_assoc, run_trans hbegin (run_trans hrun hbreak), List.nil_append,
    ← hout, List.append_assoc]
  rfl

theorem ReadsLine.prepend {first line : List Char} {before read : List Token}
    (hfirst : run start first = some (start, before)) (h : ReadsLine line read) :
    ReadsLine (first ++ line) (before ++ read) := by
  rw [ReadsLine, List.append_assoc, run_trans hfirst h, List.append_assoc]

theorem readsLine_append {first last : List Char} {read : List Token}
    (hfirst : run start first = some (start, read)) (hlast : Spells last word) :
    ReadsLine (first ++ last) (read ++ [.word word]) := by
  have hbreak : run ⟨.plain, some word⟩ ['\n'] = some (start, [.word word, .newline]) := rfl
  have hword : run start last = some (⟨.plain, some word⟩, []) := hlast none
  rw [ReadsLine, List.append_assoc, run_trans hfirst (run_trans hword hbreak), List.append_assoc]
  rfl

theorem readsLine_append₂ {first second third : List Char} {read : List Token}
    {pieces pieces' : List Piece} (hfirst : run start first = some (start, read))
    (hsecond : Spells second pieces) (hthird : Spells third pieces') :
    ReadsLine (first ++ second ++ ' ' :: third) (read ++ [.word pieces, .word pieces']) := by
  have hword : run start second = some (⟨.plain, some pieces⟩, []) := hsecond none
  have hblank : run ⟨.plain, some pieces⟩ [' '] = some (start, [.word pieces]) := rfl
  have hbefore : run start (first ++ second ++ [' ']) = some (start, read ++ [.word pieces]) := by
    rw [run_trans (run_trans hfirst hword) hblank, List.append_nil]
  have hline := readsLine_append hbefore hthird
  simpa only [List.append_assoc, List.singleton_append, List.cons_append, List.nil_append]
    using hline

theorem readsLine_comment {text : List Char} (h : '\n' ∉ text) : ReadsLine ('#' :: text) [] := by
  have hopen : step start '#' = some (⟨.comment, none⟩, []) := rfl
  have hclose : run ⟨.comment, none⟩ ['\n'] = some (start, [.newline]) := rfl
  have hcomment : run ⟨.comment, none⟩ text = some (⟨.comment, none⟩, []) := by
    induction text with
    | nil => rfl
    | cons c text ih =>
        rw [List.mem_cons, not_or] at h
        have hfirst : step ⟨.comment, none⟩ c = some (⟨.comment, none⟩, []) :=
          if_neg fun heq => h.1 heq.symm
        rw [run, hfirst, Option.bind_some, ih h.2]
        rfl
  rw [ReadsLine, List.cons_append, run, hopen, Option.bind_some, run_trans hcomment hclose]
  rfl

theorem intercalate_newline (lines : List (List Char)) :
    ['\n'].intercalate (lines ++ [[]]) = lines.flatMap (· ++ ['\n']) := by
  induction lines with
  | nil => rfl
  | cons line lines ih =>
      obtain ⟨next, rest, hnext⟩ := List.exists_cons_of_ne_nil
        (List.append_ne_nil_of_right_ne_nil lines (List.cons_ne_nil [] []))
      rw [List.cons_append, hnext, List.intercalate_cons_cons, ← hnext, ih]
      simp

/-- A text of lines, each with its line break. -/
theorem tokens_lines {lines : List (List Char)} {read : List (List Token)}
    (h : List.Forall₂ ReadsLine lines read) :
    tokens (lines.flatMap (· ++ ['\n'])) = some (read.flatMap (· ++ [.newline])) := by
  induction h with
  | nil => rfl
  | cons hline _ ih =>
      rw [List.flatMap_cons, tokens, tokensFrom_append hline, ← tokens, ih]
      rfl

end Lists

end QhpcEcosystem.Shell
