/-
Double quotes of a shell text: which texts they leave as they stand, and that no other text
does, whatever comes after it.
-/
import QhpcEcosystem.ShellWords

namespace QhpcEcosystem.Shell

/-! ## Double quotes -/

/-- A text that double quotes leave as it stands, a character without a meaning after it. -/
def Unescaped (text : List Char) : Prop :=
  (∀ c ∈ text, c ≠ '"' ∧ c ≠ '$' ∧ c ≠ '`') ∧
    text.IsChain fun c d => c = '\\' → d ≠ '\\' ∧ d ≠ '\n'

section DoubleQuotes

variable {text : List Char} {word : List Piece}

theorem stepDouble_char {c : Char} (hspecial : c ≠ '"' ∧ c ≠ '$' ∧ c ≠ '`') (hslash : c ≠ '\\')
    (word : List Piece) :
    stepDouble (some word) c = some (⟨.double, some (word ++ [.char c])⟩, []) := by
  simp [stepDouble, put, hspecial, hslash]

theorem step_doubleEscaped {c : Char} (hspecial : c ≠ '"' ∧ c ≠ '$' ∧ c ≠ '`')
    (hslash : c ≠ '\\' ∧ c ≠ '\n') (word : List Piece) :
    step ⟨.doubleEscaped, some word⟩ c =
      some (⟨.double, some (word ++ [.char '\\', .char c])⟩, []) := by
  simp [step, put, hspecial, hslash]

theorem run_double {d : Char} (hd : d ≠ '"' ∧ d ≠ '$' ∧ d ≠ '`')
    (hslash : d ≠ '\\' ∧ d ≠ '\n') :
    ∀ {text : List Char} (word : List Piece), Unescaped text →
      run ⟨.double, some word⟩ (text ++ [d]) =
        some (⟨.double, some (word ++ (text ++ [d]).map .char)⟩, [])
  | [], word, _ => by
      simp [run, step, stepDouble_char hd hslash.1]
  | [c], word, h => by
      have hc := h.1 c (List.mem_singleton_self c)
      by_cases hback : c = '\\'
      · subst hback
        have hfirst : step ⟨.double, some word⟩ '\\' = some (⟨.doubleEscaped, some word⟩, []) :=
          rfl
        simp [run, hfirst, step_doubleEscaped hd hslash]
      · simp [run, step, stepDouble_char hc hback, stepDouble_char hd hslash.1]
  | c :: e :: text, word, h => by
      have hc := h.1 c List.mem_cons_self
      have hchain := List.isChain_cons_cons.mp h.2
      have hrest : Unescaped (e :: text) :=
        ⟨fun x hx => h.1 x (List.mem_cons_of_mem _ hx), hchain.2⟩
      by_cases hback : c = '\\'
      · subst hback
        have he := hrest.1 e List.mem_cons_self
        have hlast : Unescaped text :=
          ⟨fun x hx => hrest.1 x (List.mem_cons_of_mem _ hx), hchain.2.tail⟩
        have hfirst : step ⟨.double, some word⟩ '\\' = some (⟨.doubleEscaped, some word⟩, []) :=
          rfl
        simp [run, hfirst, step_doubleEscaped he (hchain.1 rfl), run_double hd hslash _ hlast]
      · have ih := run_double hd hslash (word ++ [.char c]) hrest
        rw [List.cons_append, run, step, stepDouble_char hc hback, Option.bind_some, ih]
        simp

theorem run_double_ordinary (hordinary : text.all isOrdinary = true) (word : List Piece) :
    run ⟨.double, some word⟩ text = some (⟨.double, some (word ++ text.map .char)⟩, []) := by
  induction text generalizing word with
  | nil => simp
  | cons c text ih =>
      rw [List.all_cons, Bool.and_eq_true] at hordinary
      have hnot : ∀ d, isOrdinary d = false → c ≠ d := by
        rintro d hd rfl
        rw [hordinary.1] at hd
        contradiction
      have hfirst := stepDouble_char (c := c) ⟨hnot _ rfl, hnot _ rfl, hnot _ rfl⟩ (hnot _ rfl) word
      rw [run, step, hfirst, Option.bind_some, ih hordinary.2]
      simp

/-- A parameter in double quotes, and the character that ends its name. -/
theorem run_expansion {c d : Char} {name : List Char} (hc : isNameStart c = true)
    (hname : name.all isNameChar = true) (hd : isOrdinary d = true) (hend : isNameChar d = false)
    (word : List Piece) :
    run ⟨.double, some word⟩ ('$' :: c :: name ++ [d]) =
      some (⟨.double, some (word ++ [.expansion true (c :: name), .char d])⟩, []) := by
  have hdollar : run ⟨.double, some word⟩ ['$', c] = some (⟨.name true [c], some word⟩, []) := by
    have hopen : step ⟨.double, some word⟩ '$' = some (⟨.dollar true, some word⟩, []) := rfl
    have hfirst : step ⟨.dollar true, some word⟩ c = some (⟨.name true [c], some word⟩, []) :=
      if_pos hc
    simp [run, hopen, hfirst]
  have hrest : ∀ begun, run ⟨.name true begun, some word⟩ name =
      some (⟨.name true (begun ++ name), some word⟩, []) := by
    intro begun
    induction name generalizing begun with
    | nil => simp
    | cons e name ih =>
        rw [List.all_cons, Bool.and_eq_true] at hname
        have hfirst : step ⟨.name true begun, some word⟩ e =
            some (⟨.name true (begun ++ [e]), some word⟩, []) :=
          if_pos hname.1
        rw [run, hfirst, Option.bind_some, ih hname.2]
        simp
  have hlast : run ⟨.name true (c :: name), some word⟩ [d] =
      some (⟨.double, some (word ++ [.expansion true (c :: name), .char d])⟩, []) := by
    have hnot : ∀ e, isOrdinary e = false → d ≠ e := by
      rintro e he rfl
      rw [hd] at he
      contradiction
    have hstep : step ⟨.name true (c :: name), some word⟩ d =
        stepDouble (some (word ++ [.expansion true (c :: name)])) d := by
      simp only [step, hend]
      rfl
    rw [run, hstep, stepDouble_char ⟨hnot _ rfl, hnot _ rfl, hnot _ rfl⟩ (hnot _ rfl)]
    simp
  have hsplit : '$' :: c :: name ++ [d] = ['$', c] ++ (name ++ [d]) := rfl
  rw [hsplit, run_trans hdollar (run_trans (hrest [c]) hlast)]
  rfl

/-! Only such a text stands in double quotes as it is. Once a character of the text is read as
something else, the word lags behind the text: it has fewer pieces than the text characters, and
no later character makes up for one. -/

/-- The pieces that a mode still holds back, and one more. -/
def need : Mode → Nat
  | .doubleEscaped => 2
  | .name _ _ => 2
  | .braced _ _ => 2
  | _ => 1

def Token.pieces : Token → List Piece
  | .word pieces => pieces
  | .substitution pieces => pieces
  | _ => []

theorem stepPlain_some {word : List Piece} {c : Char} {s' : State} {out : List Token}
    (hstep : stepPlain (some word) c = (s', out)) :
    (out = [] ∧ s'.mode ≠ .comment ∧
      ∃ more, s'.word = some (word ++ more) ∧ more.length + need s'.mode ≤ 2) ∨
    ∃ rest, out = .word word :: rest := by
  unfold stepPlain at hstep
  split_ifs at hstep
  · cases hstep
    exact .inl ⟨rfl, by simp, [.char c], rfl, by simp [need]⟩
  · cases hstep
    exact .inr ⟨[], rfl⟩
  · cases hstep
    exact .inr ⟨[.newline], rfl⟩
  · cases hstep
    exact .inl ⟨rfl, by simp, [], by simp, by simp [need]⟩
  · cases hstep
    exact .inl ⟨rfl, by simp, [], by simp, by simp [need]⟩
  · cases hstep
    exact .inl ⟨rfl, by simp, [], by simp, by simp [need]⟩
  · cases hstep
    exact .inl ⟨rfl, by simp, [], by simp, by simp [need]⟩
  · contradiction
  · cases hstep
    exact .inl ⟨rfl, by simp, [.char c], rfl, by simp [need]⟩
  · cases hstep
    exact .inr ⟨[.operator c], rfl⟩

theorem stepDouble_some {word : List Piece} {c : Char} {s' : State} {out : List Token}
    (hstep : stepDouble (some word) c = some (s', out)) :
    out = [] ∧ s'.mode ≠ .comment ∧
      ∃ more, s'.word = some (word ++ more) ∧ more.length + need s'.mode ≤ 2 := by
  unfold stepDouble at hstep
  split_ifs at hstep
  · cases hstep
    exact ⟨rfl, by simp, [], by simp, by simp [need]⟩
  · cases hstep
    exact ⟨rfl, by simp, [], by simp, by simp [need]⟩
  · cases hstep
    exact ⟨rfl, by simp, [], by simp, by simp [need]⟩
  · cases hstep
    exact ⟨rfl, by simp, [.char c], rfl, by simp [need]⟩

/-- One character more: the word has at most one piece more for it, or it ends behind. -/
theorem step_some {mode : Mode} {word : List Piece} {c : Char} {s' : State} {out : List Token}
    (hmode : mode ≠ .comment) (hstep : step ⟨mode, some word⟩ c = some (s', out)) :
    (out = [] ∧ s'.mode ≠ .comment ∧
      ∃ more, s'.word = some (word ++ more) ∧ more.length + need s'.mode ≤ need mode + 1) ∨
    ∃ token rest more, out = token :: rest ∧ token.pieces = word ++ more ∧
      more.length < need mode := by
  cases mode with
  | plain =>
      simp only [step, Option.some.injEq] at hstep
      rcases stepPlain_some hstep with hsame | ⟨rest, hout⟩
      · exact .inl hsame
      · exact .inr ⟨_, rest, [], hout, by simp [Token.pieces], by simp [need]⟩
  | comment => contradiction
  | escaped =>
      simp only [step] at hstep
      split_ifs at hstep
      · cases hstep
        exact .inl ⟨rfl, by simp, [], by simp, by simp [need]⟩
      · cases hstep
        exact .inl ⟨rfl, by simp, [.char c], rfl, by simp [need]⟩
  | single =>
      simp only [step] at hstep
      split_ifs at hstep
      · cases hstep
        exact .inl ⟨rfl, by simp, [], by simp, by simp [need]⟩
      · cases hstep
        exact .inl ⟨rfl, by simp, [.char c], rfl, by simp [need]⟩
  | double => exact .inl (stepDouble_some hstep)
  | doubleEscaped =>
      simp only [step] at hstep
      split_ifs at hstep
      · cases hstep
        exact .inl ⟨rfl, by simp, [], by simp, by simp [need]⟩
      · cases hstep
        exact .inl ⟨rfl, by simp, [.char c], rfl, by simp [need]⟩
      · cases hstep
        exact .inl ⟨rfl, by simp, [.char '\\', .char c], by simp [put], by simp [need]⟩
  | dollar quoted =>
      simp only [step] at hstep
      split_ifs at hstep
      · cases hstep
        exact .inl ⟨rfl, by simp, [], by simp, by simp [need]⟩
      · cases hstep
        exact .inl ⟨rfl, by cases quoted <;> simp [around], [.expansion quoted [c]], rfl, by
          cases quoted <;> simp [need, around]⟩
      · cases hstep
        exact .inl ⟨rfl, by simp, [], by simp, by simp [need]⟩
      · cases hstep
        exact .inr ⟨_, [], [], rfl, by simp [Token.pieces], by simp [need]⟩
  | name quoted parameter =>
      have hneed : need (.name quoted parameter) = 2 := rfl
      simp only [step] at hstep
      split_ifs at hstep
      · cases hstep
        exact .inl ⟨rfl, by simp, [], by simp, by simp [need]⟩
      · obtain ⟨hout, hcomment, more, hword, hlength⟩ := stepDouble_some hstep
        refine .inl ⟨hout, hcomment, .expansion quoted parameter :: more, ?_, ?_⟩
        · simp [hword]
        · rw [List.length_cons, hneed]
          omega
      · simp only [Option.some.injEq] at hstep
        rcases stepPlain_some hstep with ⟨hout, hcomment, more, hword, hlength⟩ | ⟨rest, hout⟩
        · refine .inl ⟨hout, hcomment, .expansion quoted parameter :: more, ?_, ?_⟩
          · simp [hword]
          · rw [List.length_cons, hneed]
            omega
        · exact .inr ⟨_, rest, [.expansion quoted parameter], hout, by simp [Token.pieces], by
            simp [need]⟩
  | braced quoted parameter =>
      simp only [step] at hstep
      split_ifs at hstep
      · cases hstep
        exact .inl ⟨rfl, by cases quoted <;> simp [around],
          [.expansion quoted parameter], rfl, by cases quoted <;> simp [need, around]⟩
      · cases hstep
        exact .inl ⟨rfl, by simp, [], by simp, by simp [need]⟩

theorem pieces_of_tokensFrom {mode : Mode} {word : List Piece} {text : List Char} {token : Token}
    {rest : List Token} (hmode : mode ≠ .comment)
    (hread : tokensFrom ⟨mode, some word⟩ text = some (token :: rest)) :
    word <+: token.pieces := by
  induction text generalizing mode word with
  | nil =>
      simp only [tokensFrom, run_nil, Option.bind_some, List.nil_append, Option.map_id'] at hread
      unfold finish at hread
      split at hread
      · cases hread
        exact List.prefix_rfl
      · contradiction
      · cases hread
        exact List.prefix_append _ _
      · contradiction
  | cons c text ih =>
      obtain ⟨s', out, later, hstep, hlater, heq⟩ := step_of_tokensFrom hread
      rcases step_some hmode hstep with
        ⟨rfl, hcomment, more, hword, -⟩ | ⟨token', rest', more, rfl, hpieces, -⟩
      · rw [List.nil_append] at heq
        subst heq
        have hstate : s' = ⟨s'.mode, some (word ++ more)⟩ := by rw [← hword]
        rw [hstate] at hlater
        exact (List.prefix_append _ _).trans (ih hcomment hlater)
      · cases heq
        rw [hpieces]
        exact List.prefix_append _ _

/-- The first word read ends, or comes to the delimiter, before it has a piece for each
character of the text. -/
def Behind (delimiter : Char) (word : List Piece) (length : Nat) (token : Token) : Prop :=
  ∃ more, more.length < length ∧
    (token.pieces = word ++ more ∨ word ++ more ++ [.char delimiter] <+: token.pieces)

theorem Behind.longer {delimiter : Char} {word more : List Piece} {length length' : Nat}
    {token : Token} (hbehind : Behind delimiter (word ++ more) length token)
    (hlength : more.length + length ≤ length') : Behind delimiter word length' token := by
  obtain ⟨last, hlast, hpieces⟩ := hbehind
  refine ⟨more ++ last, ?_, ?_⟩
  · rw [List.length_append]
    omega
  · simpa only [List.append_assoc] using hpieces

theorem not_behind {delimiter : Char} {text : List Char} {token : Token}
    (hdelimiter : delimiter ∉ text)
    (hpieces : word ++ text.map .char ++ [.char delimiter] <+: token.pieces) :
    ¬ Behind delimiter word text.length token := by
  rintro ⟨more, hlength, hend | ⟨last, hlast⟩⟩
  · obtain ⟨rest, hrest⟩ := hpieces
    have hsizes := congrArg List.length (hrest.trans hend)
    simp only [List.length_append, List.length_map, List.length_singleton] at hsizes
    omega
  · obtain ⟨rest, hrest⟩ := hpieces
    have hsame : text.map Piece.char ++ (.char delimiter :: rest) =
        more ++ (.char delimiter :: last) := by
      have heq := hrest.trans hlast.symm
      simpa only [List.append_assoc, List.append_cancel_left_eq, List.singleton_append] using heq
    have hat := congrArg (·[more.length]?) hsame
    simp only [List.getElem?_append_right (Nat.le_refl more.length), Nat.sub_self,
      List.getElem?_cons_zero] at hat
    rw [List.getElem?_append_left (by rwa [List.length_map]), List.getElem?_map,
      Option.map_eq_some_iff] at hat
    obtain ⟨c, hc, hsame⟩ := hat
    cases hsame
    exact hdelimiter (List.mem_of_getElem? hc)

/-- A delimiter that the reader takes for itself in every mode but that of a name in braces. -/
structure IsDelimiter (delimiter : Char) (rest : List Char) : Prop where
  ordinary : isOrdinary delimiter = true
  notName : isNameChar delimiter = false
  notSpecial : isSpecialParameter delimiter = false
  inBraces : ∀ quoted parameter word,
    tokensFrom ⟨.braced quoted parameter, word⟩ (delimiter :: rest) = none

theorem behind_delimiter {delimiter : Char} {rest : List Char} {mode : Mode} {s' : State}
    {out : List Token} (hdelimiter : IsDelimiter delimiter rest) (hmode : mode ≠ .comment)
    (hstep : step ⟨mode, some word⟩ delimiter = some (s', out))
    (hbraced : ∀ quoted parameter, mode ≠ .braced quoted parameter) :
    out = [] ∧ s'.mode ≠ .comment ∧
      ∃ more, s'.word = some (word ++ more ++ [.char delimiter]) ∧ more.length < need mode := by
  have hordinary := hdelimiter.ordinary
  have hstart : isNameStart delimiter = false := by
    have hname := hdelimiter.notName
    simp only [isNameChar, Char.isAlphanum, Bool.or_eq_false_iff] at hname
    simp [isNameStart, hname]
  have hnot : ∀ c, isOrdinary c = false → delimiter ≠ c := by
    rintro c hc rfl
    rw [hordinary] at hc
    contradiction
  have hplain : ∀ word, stepPlain (some word) delimiter =
      (⟨.plain, some (word ++ [.char delimiter])⟩, []) := by
    intro word
    simp [stepPlain, hordinary, put]
  have hdouble : ∀ word, stepDouble (some word) delimiter =
      some (⟨.double, some (word ++ [.char delimiter])⟩, []) := fun word =>
    stepDouble_char ⟨hnot _ rfl, hnot _ rfl, hnot _ rfl⟩ (hnot _ rfl) word
  have hbreak : delimiter ≠ '\n' := hnot _ rfl
  have hquote : delimiter ≠ '\'' := hnot _ rfl
  cases mode with
  | plain =>
      rw [step, hplain] at hstep
      cases hstep
      exact ⟨rfl, by simp, [], by simp, by simp [need]⟩
  | comment => contradiction
  | escaped =>
      simp only [step, hbreak, if_false] at hstep
      cases hstep
      exact ⟨rfl, by simp, [], by simp [put], by simp [need]⟩
  | single =>
      simp only [step, hquote, if_false] at hstep
      cases hstep
      exact ⟨rfl, by simp, [], by simp [put], by simp [need]⟩
  | double =>
      rw [step, hdouble] at hstep
      cases hstep
      exact ⟨rfl, by simp, [], by simp, by simp [need]⟩
  | doubleEscaped =>
      rw [step_doubleEscaped ⟨hnot _ rfl, hnot _ rfl, hnot _ rfl⟩ ⟨hnot _ rfl, hbreak⟩] at hstep
      cases hstep
      exact ⟨rfl, by simp, [.char '\\'], by simp, by simp [need]⟩
  | dollar quoted =>
      have hbrace : delimiter ≠ '{' := hnot _ rfl
      have hparenthesis : delimiter ≠ '(' := hnot _ rfl
      simp [step, hstart, hdelimiter.notSpecial, hbrace, hparenthesis] at hstep
  | name quoted parameter =>
      simp only [step, hdelimiter.notName, put, Option.getD_some] at hstep
      rw [hdouble, hplain] at hstep
      cases quoted with
      | false =>
          cases hstep
          exact ⟨rfl, by simp, [.expansion false parameter], by simp, by simp [need]⟩
      | true =>
          cases hstep
          exact ⟨rfl, by simp, [.expansion true parameter], by simp, by simp [need]⟩
  | braced quoted parameter => exact absurd rfl (hbraced quoted parameter)

theorem behind_of_need {delimiter : Char} {rest : List Char} {mode : Mode} {length : Nat}
    {token : Token} {others : List Token} (hdelimiter : IsDelimiter delimiter rest)
    (hmode : mode ≠ .comment) (hneed : need mode ≤ length) (hnot : delimiter ∉ text)
    (hread : tokensFrom ⟨mode, some word⟩ (text ++ delimiter :: rest) = some (token :: others)) :
    Behind delimiter word (length + text.length) token := by
  induction text generalizing mode word length with
  | nil =>
      obtain ⟨s', out, later, hstep, hlater, heq⟩ := step_of_tokensFrom hread
      have hbraced : ∀ quoted parameter, mode ≠ .braced quoted parameter := by
        rintro quoted parameter rfl
        rw [List.nil_append, hdelimiter.inBraces] at hread
        contradiction
      obtain ⟨rfl, hcomment, more, hword, hlength⟩ :=
        behind_delimiter hdelimiter hmode hstep hbraced
      rw [List.nil_append] at heq
      subst heq
      have hstate : s' = ⟨s'.mode, some (word ++ more ++ [.char delimiter])⟩ := by rw [← hword]
      rw [hstate] at hlater
      exact ⟨more, by rw [List.length_nil]; omega, .inr (pieces_of_tokensFrom hcomment hlater)⟩
  | cons c text ih =>
      obtain ⟨s', out, later, hstep, hlater, heq⟩ := step_of_tokensFrom hread
      have hlength : (c :: text).length = text.length + 1 := rfl
      rcases step_some hmode hstep with
        ⟨rfl, hcomment, more, hword, hmore⟩ | ⟨token', rest', more, rfl, hpieces, hmore⟩
      · rw [List.nil_append] at heq
        subst heq
        have hstate : s' = ⟨s'.mode, some (word ++ more)⟩ := by rw [← hword]
        rw [hstate] at hlater
        have hbehind := ih hcomment (Nat.le_refl _)
          (fun hmem => hnot (List.mem_cons_of_mem _ hmem)) hlater
        exact hbehind.longer (by omega)
      · cases heq
        exact ⟨more, by omega, .inl hpieces⟩

theorem Unescaped.cons {c : Char} (h : Unescaped text) (hc : c ≠ '"' ∧ c ≠ '$' ∧ c ≠ '`')
    (hslash : c ≠ '\\') : Unescaped (c :: text) := by
  constructor
  · intro x hx
    rcases List.mem_cons.mp hx with rfl | hx
    · exact hc
    · exact h.1 x hx
  · exact List.isChain_cons.mpr ⟨fun _ _ hback => absurd hback hslash, h.2⟩

theorem Unescaped.consSlash {c : Char} (h : Unescaped (c :: text)) (hc : c ≠ '\\' ∧ c ≠ '\n') :
    Unescaped ('\\' :: c :: text) := by
  constructor
  · intro x hx
    rcases List.mem_cons.mp hx with rfl | hx
    · decide
    · exact h.1 x hx
  · exact List.isChain_cons_cons.mpr ⟨fun _ => hc, h.2⟩

/-- If the text and a delimiter stand in the first word read, double quotes leave them as they
are. -/
theorem unescaped_of_pieces {delimiter : Char} {rest : List Char} {token : Token}
    {others : List Token} (hdelimiter : IsDelimiter delimiter rest) {text : List Char}
    {word : List Piece} (hnot : delimiter ∉ text)
    (hread : tokensFrom ⟨.double, some word⟩ (text ++ delimiter :: rest) = some (token :: others))
    (hpieces : word ++ text.map .char ++ [.char delimiter] <+: token.pieces) :
    Unescaped text := by
  -- An escape takes two characters at once, so the induction is on the length.
  induction hlength : text.length using Nat.strong_induction_on generalizing text word with
  | _ _ ih =>
    cases text with
    | nil => exact ⟨fun _ hmem => absurd hmem List.not_mem_nil, List.isChain_nil⟩
    | cons c text =>
      have hrest : delimiter ∉ text := fun hmem => hnot (List.mem_cons_of_mem _ hmem)
      -- A character read as something else leaves the word behind the text.
      have hnever : ∀ (mode : Mode) (first last : List Char) (more : List Piece),
          c :: text = first ++ last → mode ≠ .comment →
          more.length + need mode ≤ first.length →
          run ⟨.double, some word⟩ first = some (⟨mode, some (word ++ more)⟩, []) → False := by
        intro mode first last more hsplit hmode hneed hrun
        rw [hsplit, List.append_assoc, tokensFrom_silent hrun] at hread
        have hbehind := behind_of_need hdelimiter hmode (Nat.le_refl _)
          (fun hmem => hnot (hsplit ▸ List.mem_append_right _ hmem)) hread
        refine not_behind hnot hpieces (hbehind.longer ?_)
        rw [hsplit, List.length_append]
        omega
      by_cases hquote : c = '"'
      · subst hquote
        have hrun : run ⟨.double, some word⟩ ['"'] = some (⟨.plain, some (word ++ [])⟩, []) := by
          simp [run, step, stepDouble]
        exact (hnever _ _ text [] rfl (by simp) (by simp [need]) hrun).elim
      by_cases hdollar : c = '$'
      · subst hdollar
        have hrun : run ⟨.double, some word⟩ ['$'] =
            some (⟨.dollar true, some (word ++ [])⟩, []) := by
          simp [run, step, stepDouble]
        exact (hnever _ _ text [] rfl (by simp) (by simp [need]) hrun).elim
      by_cases htick : c = '`'
      · subst htick
        simp [tokensFrom, run, step, stepDouble] at hread
      by_cases hslash : c = '\\'
      · subst hslash
        have hopen : step ⟨.double, some word⟩ '\\' = some (⟨.doubleEscaped, some word⟩, []) := rfl
        cases text with
        | nil => exact ⟨by simp, List.isChain_singleton _⟩
        | cons e text =>
            by_cases hbreak : e = '\n'
            · subst hbreak
              have hjoin : step ⟨.doubleEscaped, some word⟩ '\n' =
                  some (⟨.double, some word⟩, []) := rfl
              have hrun : run ⟨.double, some word⟩ ['\\', '\n'] =
                  some (⟨.double, some (word ++ [])⟩, []) := by
                simp [run, hopen, hjoin]
              exact (hnever _ _ text [] rfl (by simp) (by simp [need]) hrun).elim
            by_cases hspecial : e ∈ ['$', '`', '"', '\\']
            · have hkeep : step ⟨.doubleEscaped, some word⟩ e =
                  some (⟨.double, some (word ++ [.char e])⟩, []) := by
                simp only [step, hbreak, hspecial, if_false, if_true, put, Option.getD_some]
              have hrun : run ⟨.double, some word⟩ ['\\', e] =
                  some (⟨.double, some (word ++ [.char e])⟩, []) := by
                simp [run, hopen, hkeep]
              exact (hnever _ _ text [.char e] rfl (by simp) (by simp [need]) hrun).elim
            · simp only [List.mem_cons, List.not_mem_nil, or_false, not_or] at hspecial
              have he : e ≠ '"' ∧ e ≠ '$' ∧ e ≠ '`' :=
                ⟨hspecial.2.2.1, hspecial.1, hspecial.2.1⟩
              have hrun : run ⟨.double, some word⟩ ['\\', e] =
                  some (⟨.double, some (word ++ [.char '\\', .char e])⟩, []) := by
                simp [run, hopen, step_doubleEscaped he ⟨hspecial.2.2.2, hbreak⟩]
              have hsplit : '\\' :: e :: text = ['\\', e] ++ text := rfl
              rw [hsplit, List.append_assoc, tokensFrom_silent hrun] at hread
              have hlater := ih text.length (by rw [← hlength]; exact Nat.lt_add_of_pos_right (Nat.succ_pos 1))
                (fun hmem => hrest (List.mem_cons_of_mem _ hmem)) hread (by
                  simpa only [List.map_cons, List.append_assoc, List.cons_append,
                    List.nil_append] using hpieces) rfl
              exact (hlater.cons he hspecial.2.2.2).consSlash ⟨hspecial.2.2.2, hbreak⟩
      · have hrun : run ⟨.double, some word⟩ [c] =
            some (⟨.double, some (word ++ [.char c])⟩, []) := by
          simp [run, step, stepDouble_char ⟨hquote, hdollar, htick⟩ hslash]
        rw [← List.singleton_append, List.append_assoc, tokensFrom_silent hrun] at hread
        have hlater := ih text.length (by rw [← hlength]; exact Nat.lt_succ_self _) hrest hread (by
          simpa only [List.map_cons, List.append_assoc, List.singleton_append] using hpieces) rfl
        exact hlater.cons ⟨hquote, hdollar, htick⟩ hslash

end DoubleQuotes

/-! ## Words on a condition -/

/-- The text is one word of these pieces if the condition holds, and only then. -/
structure Stands (text : List Char) (pieces : List Piece) (condition : Prop) : Prop where
  spells : condition → Spells text pieces
  needed : ∀ rest others,
    tokensFrom start (text ++ rest) = some (.word pieces :: others) → condition

theorem Spells.stands {text : List Char} {pieces : List Piece} (h : Spells text pieces) :
    Stands text pieces True :=
  ⟨fun _ => h, fun _ _ _ => trivial⟩

theorem tokensFrom_blanks_iff {ι : Type} {text : ι → List Char} {pieces : ι → List Piece}
    {condition : ι → Prop} {items : List ι}
    (h : ∀ i ∈ items, Stands (text i) (pieces i) (condition i)) (word : List Piece) :
    tokensFrom ⟨.plain, some word⟩ (blanks (items.map text)) =
        some (.word word :: items.map fun i => .word (pieces i)) ↔
      ∀ i ∈ items, condition i := by
  constructor
  · intro hread
    induction items generalizing word with
    | nil => simp
    | cons i items ih =>
        have hi := h i List.mem_cons_self
        have hsplit : blanks ((i :: items).map text) =
            ' ' :: (text i ++ blanks (items.map text)) := by
          simp [blanks]
        rw [hsplit, tokensFrom_blank, Option.map_eq_some_iff] at hread
        obtain ⟨later, hlater, heq⟩ := hread
        cases heq
        have hcondition : condition i := hi.needed _ _ hlater
        have hword : run start (text i) = some (⟨.plain, some (pieces i)⟩, []) :=
          hi.spells hcondition none
        rw [tokensFrom_silent hword] at hlater
        intro j hj
        rcases List.mem_cons.mp hj with rfl | hj
        · exact hcondition
        · exact ih (fun k hk => h k (List.mem_cons_of_mem _ hk)) _ hlater j hj
  · intro hall
    exact tokensFrom_blanks (fun i hi => (h i hi).spells (hall i hi)) word

/-- A text in double quotes behind an expansion and in front of a delimiter. -/
theorem stands_double {opening closing text : List Char} {delimiter : Char} {word : List Piece}
    (hopening : ∀ begun, run ⟨.plain, begun⟩ opening =
      some (⟨.double, some (begun.getD [] ++ word)⟩, []))
    (hclosing : ∀ begun, run ⟨.double, some begun⟩ closing =
      some (⟨.plain, some (begun ++ closing.dropLast.map .char)⟩, []))
    (hdelimiter : ∀ rest, IsDelimiter delimiter (closing ++ rest)) (hnot : delimiter ∉ text) :
    Stands (opening ++ text ++ delimiter :: closing)
      (word ++ text.map .char ++ .char delimiter :: closing.dropLast.map .char)
      (Unescaped text) := by
  have hordinary := (hdelimiter []).ordinary
  have hplain : ∀ c, isOrdinary c = false → delimiter ≠ c := by
    rintro c hc rfl
    rw [hordinary] at hc
    contradiction
  constructor
  · intro hunescaped begun
    have htext := run_double ⟨hplain _ rfl, hplain _ rfl, hplain _ rfl⟩
      ⟨hplain _ rfl, hplain _ rfl⟩ (begun.getD [] ++ word) hunescaped
    have hsplit : opening ++ text ++ delimiter :: closing =
        opening ++ ((text ++ [delimiter]) ++ closing) := by simp
    rw [hsplit, run_trans (hopening begun) (run_trans htext (hclosing _))]
    simp
  · intro rest others hread
    have hsplit : opening ++ text ++ delimiter :: closing ++ rest =
        opening ++ (text ++ delimiter :: (closing ++ rest)) := by simp
    have hopened : run start opening = some (⟨.double, some word⟩, []) := hopening none
    rw [hsplit, tokensFrom_silent hopened] at hread
    exact unescaped_of_pieces (hdelimiter rest) hnot hread (by simp [Token.pieces])

end QhpcEcosystem.Shell
