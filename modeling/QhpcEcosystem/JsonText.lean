/-
Texts of JSON as UTF-16 code units.  This is what a JSON string denotes: a code unit may
stand alone, and two units of a pair are one character.  The written form has ASCII
characters only, and reading it gives the units back.
-/
import Mathlib.Data.List.Lex

namespace QhpcEcosystem

abbrev JsonText := List UInt16

instance lawfulText : LawfulBEq (List UInt16) := inferInstance

namespace JsonText

/-! ## Characters -/

/-- The code units of a character. -/
def unitsOf (c : Nat) : JsonText :=
  if c < 0x10000 then [UInt16.ofNat c]
  else [UInt16.ofNat (0xD800 + (c - 0x10000) / 0x400), UInt16.ofNat (0xDC00 + (c - 0x10000) % 0x400)]

def ofChars (text : List Char) : JsonText :=
  text.flatMap fun c => unitsOf c.toNat

def ofString (text : String) : JsonText := ofChars text.toList

def isHigh (u : UInt16) : Bool := 0xD800 ≤ u.toNat && u.toNat < 0xDC00

def isLow (u : UInt16) : Bool := 0xDC00 ≤ u.toNat && u.toNat < 0xE000

/-- The code points of a text; a unit without its other half is one by itself. -/
def codePoints : JsonText → List Nat
  | [] => []
  | [u] => [u.toNat]
  | u :: v :: rest =>
      if isHigh u && isLow v then
        (0x10000 + (u.toNat - 0xD800) * 0x400 + (v.toNat - 0xDC00)) :: codePoints rest
      else u.toNat :: codePoints (v :: rest)

theorem unitsOf_unit (u : UInt16) : unitsOf u.toNat = [u] := by
  rw [unitsOf, if_pos u.toNat_lt, UInt16.ofNat_toNat]

theorem unitsOf_pair {u v : UInt16} (hu : isHigh u = true) (hv : isLow v = true) :
    unitsOf (0x10000 + (u.toNat - 0xD800) * 0x400 + (v.toNat - 0xDC00)) = [u, v] := by
  simp only [isHigh, isLow, Bool.and_eq_true, decide_eq_true_eq] at hu hv
  have hhigh : 0xD800 + (0x10000 + (u.toNat - 0xD800) * 0x400 + (v.toNat - 0xDC00) - 0x10000) / 0x400
      = u.toNat := by omega
  have hlow : 0xDC00 + (0x10000 + (u.toNat - 0xD800) * 0x400 + (v.toNat - 0xDC00) - 0x10000) % 0x400
      = v.toNat := by omega
  rw [unitsOf, if_neg (by omega), hhigh, hlow, UInt16.ofNat_toNat, UInt16.ofNat_toNat]

theorem flatMap_codePoints (text : JsonText) : (codePoints text).flatMap unitsOf = text := by
  fun_induction codePoints text with
  | case1 => rfl
  | case2 u => rw [List.flatMap_singleton, unitsOf_unit]
  | case3 u v rest hpair ih =>
      obtain ⟨hu, hv⟩ := Bool.and_eq_true_iff.mp hpair
      rw [List.flatMap_cons, unitsOf_pair hu hv, ih]
      rfl
  | case4 u v rest _ ih =>
      rw [List.flatMap_cons, unitsOf_unit, ih]
      rfl

theorem codePoints_injective : Function.Injective codePoints := by
  intro a b h
  rw [← flatMap_codePoints a, h, flatMap_codePoints]

/-- A character is no half of a pair. -/
theorem codePoints_unitsOf (c : Char) (text : JsonText) :
    codePoints (unitsOf c.toNat ++ text) = c.toNat :: codePoints text := by
  have hvalid : c.toNat < 0xD800 ∨ 0xDFFF < c.toNat ∧ c.toNat < 0x110000 := c.valid
  unfold unitsOf
  split
  · next hlt =>
      have hnat : (UInt16.ofNat c.toNat).toNat = c.toNat := by
        rw [UInt16.toNat_ofNat', Nat.mod_eq_of_lt (by omega)]
      cases text with
      | nil => exact congrArg (fun n => [n]) hnat
      | cons v rest =>
          have hhigh : isHigh (UInt16.ofNat c.toNat) = false := by
            rw [isHigh, hnat, Bool.and_eq_false_iff, decide_eq_false_iff_not,
              decide_eq_false_iff_not]
            omega
          rw [List.singleton_append, codePoints, hhigh, Bool.false_and, if_neg Bool.false_ne_true,
            hnat]
  · next hge =>
      have hfirst : (UInt16.ofNat (0xD800 + (c.toNat - 0x10000) / 0x400)).toNat =
          0xD800 + (c.toNat - 0x10000) / 0x400 := by
        rw [UInt16.toNat_ofNat', Nat.mod_eq_of_lt (by omega)]
      have hsecond : (UInt16.ofNat (0xDC00 + (c.toNat - 0x10000) % 0x400)).toNat =
          0xDC00 + (c.toNat - 0x10000) % 0x400 := by
        rw [UInt16.toNat_ofNat', Nat.mod_eq_of_lt (by omega)]
      have hpair : (isHigh (UInt16.ofNat (0xD800 + (c.toNat - 0x10000) / 0x400)) &&
          isLow (UInt16.ofNat (0xDC00 + (c.toNat - 0x10000) % 0x400))) = true := by
        simp only [isHigh, isLow, hfirst, hsecond, Bool.and_eq_true, decide_eq_true_eq]
        omega
      rw [List.cons_append, List.singleton_append, codePoints, if_pos hpair, hfirst, hsecond,
        List.cons.injEq]
      exact ⟨by omega, rfl⟩

theorem codePoints_ofChars (text : List Char) :
    codePoints (ofChars text) = text.map Char.toNat := by
  induction text with
  | nil => rfl
  | cons c rest ih =>
      rw [ofChars, List.flatMap_cons, codePoints_unitsOf, List.map_cons, ← ih]
      rfl

theorem ofChars_injective : Function.Injective ofChars := by
  intro a b h
  have hpoints := codePoints_ofChars a
  rw [h, codePoints_ofChars] at hpoints
  exact List.map_injective_iff.mpr (fun _ _ => Char.toNat_inj.mp) hpoints.symm

theorem ofString_inj {a b : String} : ofString a = ofString b ↔ a = b :=
  ⟨fun h => String.toList_injective (ofChars_injective h), congrArg ofString⟩

/-- The order of code points, in which `sorted` puts texts. -/
def le (a b : JsonText) : Bool := codePoints a ≤ codePoints b

theorem le_total (a b : JsonText) : le a b = true ∨ le b a = true := by
  simpa only [le, decide_eq_true_eq] using LinearOrder.le_total (codePoints a) (codePoints b)

theorem le_trans {a b c : JsonText} (hab : le a b = true) (hbc : le b c = true) :
    le a c = true := by
  simp only [le, decide_eq_true_eq] at hab hbc ⊢
  exact hab.trans hbc

theorem le_antisymm {a b : JsonText} (hab : le a b = true) (hba : le b a = true) : a = b := by
  simp only [le, decide_eq_true_eq] at hab hba
  exact codePoints_injective (hab.antisymm hba)

/-- A text of ASCII characters has one unit for each. -/
theorem ofChars_ascii {text : List Char} (h : ∀ c ∈ text, c.toNat < 0x80) :
    ofChars text = text.map fun c => UInt16.ofNat c.toNat := by
  induction text with
  | nil => rfl
  | cons c rest ih =>
      have hc := h c List.mem_cons_self
      rw [ofChars, List.flatMap_cons, unitsOf, if_pos (by omega), List.map_cons,
        ← ih fun d hd => h d (List.mem_cons_of_mem _ hd)]
      rfl

theorem ofChars_inj_of_ascii {a b : List Char} (ha : ∀ c ∈ a, c.toNat < 0x80)
    (hb : ∀ c ∈ b, c.toNat < 0x80) (h : ofChars a = ofChars b) : a = b := by
  rw [ofChars_ascii ha, ofChars_ascii hb] at h
  induction a generalizing b with
  | nil => exact (List.map_eq_nil_iff.mp h.symm).symm
  | cons c rest ih =>
      cases b with
      | nil => cases h
      | cons d other =>
          rw [List.map_cons, List.map_cons, List.cons.injEq] at h
          have hc := ha c List.mem_cons_self
          have hd := hb d List.mem_cons_self
          have hnat := congrArg UInt16.toNat h.1
          rw [UInt16.toNat_ofNat', UInt16.toNat_ofNat', Nat.mod_eq_of_lt (by omega),
            Nat.mod_eq_of_lt (by omega)] at hnat
          rw [Char.toNat_inj.mp hnat, ih (fun e he => ha e (List.mem_cons_of_mem _ he))
            (fun e he => hb e (List.mem_cons_of_mem _ he)) h.2]

/-! ## Escapes -/

/-- The value of a hexadecimal digit. -/
def hexValue? (c : Char) : Option Nat :=
  if '0' ≤ c ∧ c ≤ '9' then some (c.toNat - 48)
  else if 'a' ≤ c ∧ c ≤ 'f' then some (c.toNat - 87)
  else if 'A' ≤ c ∧ c ≤ 'F' then some (c.toNat - 55)
  else none

/-- Four hexadecimal digits. -/
def hexDigits (n : Nat) : List Char :=
  [Nat.digitChar (n / 0x1000 % 16), Nat.digitChar (n / 0x100 % 16), Nat.digitChar (n / 0x10 % 16),
    Nat.digitChar (n % 16)]

def hexUnit? (a b c d : Char) : Option UInt16 := do
  let a ← hexValue? a
  let b ← hexValue? b
  let c ← hexValue? c
  let d ← hexValue? d
  return UInt16.ofNat (((a * 16 + b) * 16 + c) * 16 + d)

/-- The characters with a short escape. -/
def shortEscapes : List (Char × UInt16) :=
  [('"', 0x22), ('\\', 0x5C), ('n', 0x0A), ('r', 0x0D), ('t', 0x09), ('f', 0x0C), ('b', 0x08)]

/-- How `ensure_ascii` writes a unit. -/
def escape (u : UInt16) : List Char :=
  match shortEscapes.find? fun entry => entry.2 = u with
  | some (c, _) => ['\\', c]
  | none =>
      if 0x20 ≤ u.toNat ∧ u.toNat < 0x7F then [Char.ofNat u.toNat]
      else '\\' :: 'u' :: hexDigits u.toNat

/-- The character behind a backslash. -/
def unescape? (c : Char) : Option UInt16 :=
  if c = '/' then some 0x2F
  else (shortEscapes.find? fun entry => entry.1 = c).map Prod.snd

/-- Read a text behind its opening quote, and return what follows the closing one. -/
def read : List Char → Option (JsonText × List Char)
  | [] => none
  | c :: rest =>
      if c = '"' then some ([], rest)
      else if c = '\\' then
        match rest with
        | [] => none
        | e :: rest =>
            if e = 'u' then
              match rest with
              | a :: b :: c :: d :: rest =>
                  (hexUnit? a b c d).bind fun u => (read rest).map fun found => (u :: found.1, found.2)
              | _ => none
            else (unescape? e).bind fun u => (read rest).map fun found => (u :: found.1, found.2)
      else if c.toNat < 0x20 then none
      else (read rest).map fun found => (unitsOf c.toNat ++ found.1, found.2)

/-- The written form behind the opening quote. -/
def write (text : JsonText) : List Char := text.flatMap escape ++ ['"']

/-! ## Round trip -/

theorem toNat_ofNat_ascii {n : Nat} (h : n < 0x80) : (Char.ofNat n).toNat = n := by
  have hall : ∀ m : Fin 0x80, (Char.ofNat m).toNat = m.val := by decide
  exact hall ⟨n, h⟩

theorem hexValue?_digitChar {n : Nat} (h : n < 16) : hexValue? (Nat.digitChar n) = some n := by
  have hall : ∀ m : Fin 16, hexValue? (Nat.digitChar m) = some m.val := by decide
  exact hall ⟨n, h⟩

theorem hexUnit?_hexDigits (u : UInt16) :
    hexUnit? (Nat.digitChar (u.toNat / 0x1000 % 16)) (Nat.digitChar (u.toNat / 0x100 % 16))
      (Nat.digitChar (u.toNat / 0x10 % 16)) (Nat.digitChar (u.toNat % 16)) = some u := by
  have hlt : u.toNat < 0x10000 := u.toNat_lt
  have hvalue : ((u.toNat / 0x1000 % 16 * 16 + u.toNat / 0x100 % 16) * 16 + u.toNat / 0x10 % 16) * 16 +
      u.toNat % 16 = u.toNat := by omega
  rw [hexUnit?, hexValue?_digitChar (by omega), hexValue?_digitChar (by omega),
    hexValue?_digitChar (by omega), hexValue?_digitChar (by omega)]
  exact congrArg some ((congrArg UInt16.ofNat hvalue).trans UInt16.ofNat_toNat)

theorem read_quote (rest : List Char) : read ('"' :: rest) = some ([], rest) := by
  rw [read.eq_def]
  rfl

theorem read_short {e : Char} {u : UInt16} (hne : e ≠ 'u') (h : unescape? e = some u)
    (rest : List Char) :
    read ('\\' :: e :: rest) = (read rest).map fun found => (u :: found.1, found.2) := by
  rw [read.eq_def]
  simp only [show ('\\' : Char) ≠ '"' by decide, if_false, if_true, if_neg hne, h, Option.bind_some]

theorem read_hex {a b c d : Char} {u : UInt16} (h : hexUnit? a b c d = some u)
    (rest : List Char) : read ('\\' :: 'u' :: a :: b :: c :: d :: rest) =
      (read rest).map fun found => (u :: found.1, found.2) := by
  rw [read.eq_def]
  simp only [show ('\\' : Char) ≠ '"' by decide, if_false, if_true, h, Option.bind_some]

theorem read_char {c : Char} (hquote : c ≠ '"') (hslash : c ≠ '\\') (h : 0x20 ≤ c.toNat)
    (rest : List Char) :
    read (c :: rest) = (read rest).map fun found => (unitsOf c.toNat ++ found.1, found.2) := by
  rw [read.eq_def]
  simp only [if_neg hquote, if_neg hslash, if_neg (Nat.not_lt.mpr h)]

theorem shortEscapes_read : ∀ entry ∈ shortEscapes,
    entry.1 ≠ 'u' ∧ unescape? entry.1 = some entry.2 := by
  decide

theorem read_escape (u : UInt16) (rest : List Char) :
    read (escape u ++ rest) = (read rest).map fun found => (u :: found.1, found.2) := by
  unfold escape
  split
  · next c other hfound =>
      obtain ⟨hne, hread⟩ := shortEscapes_read _ (List.mem_of_find?_eq_some hfound)
      have hunit : other = u := by simpa using List.find?_some hfound
      subst hunit
      exact read_short hne hread rest
  · next hnone =>
      split
      · next hprintable =>
          have hnat : (Char.ofNat u.toNat).toNat = u.toNat := toNat_ofNat_ascii (by omega)
          have hne : ∀ entry ∈ shortEscapes, u.toNat ≠ entry.2.toNat := by
            intro entry hentry heq
            refine List.find?_eq_none.mp hnone entry hentry ?_
            simpa using (UInt16.toNat_inj.mp heq).symm
          have hquote : Char.ofNat u.toNat ≠ '"' := by
            intro heq
            rw [heq] at hnat
            exact hne ('"', 0x22) (by decide) hnat.symm
          have hslash : Char.ofNat u.toNat ≠ '\\' := by
            intro heq
            rw [heq] at hnat
            exact hne ('\\', 0x5C) (by decide) hnat.symm
          rw [List.singleton_append, read_char hquote hslash (by omega), hnat, unitsOf_unit]
          rfl
      · exact read_hex (hexUnit?_hexDigits u) rest

/-- Reading what was written gives the text back. -/
theorem read_write (text : JsonText) (rest : List Char) :
    read (write text ++ rest) = some (text, rest) := by
  unfold write
  induction text with
  | nil => exact read_quote rest
  | cons u text ih =>
      rw [List.flatMap_cons, List.append_assoc, List.append_assoc, read_escape,
        ← List.append_assoc, ih]
      rfl

/-! ## ASCII -/

/-- A character from the space to the tilde. -/
def isPrintable (c : Char) : Bool := 0x20 ≤ c.toNat && c.toNat < 0x7F

theorem isPrintable_digitChar (n : Nat) : isPrintable (Nat.digitChar (n % 16)) = true := by
  have hall : ∀ m : Fin 16, isPrintable (Nat.digitChar m) = true := by decide
  exact hall ⟨n % 16, Nat.mod_lt n (by decide)⟩

theorem escape_printable (u : UInt16) : (escape u).all isPrintable = true := by
  unfold escape
  split
  · next c other hfound =>
      have hall : ∀ entry ∈ shortEscapes, isPrintable entry.1 = true := by decide
      simp only [List.all_cons, List.all_nil, Bool.and_true,
        hall _ (List.mem_of_find?_eq_some hfound), show isPrintable '\\' = true by decide]
  · split
    · next hprintable =>
        have hnat : (Char.ofNat u.toNat).toNat = u.toNat :=
          toNat_ofNat_ascii (by omega)
        simp only [List.all_cons, List.all_nil, Bool.and_true, isPrintable, hnat,
          decide_eq_true hprintable.1, decide_eq_true hprintable.2]
    · simp only [hexDigits, List.all_cons, List.all_nil, isPrintable_digitChar, Bool.and_true,
        show isPrintable '\\' = true by decide, show isPrintable 'u' = true by decide]

theorem write_printable (text : JsonText) : (write text).all isPrintable = true := by
  rw [write, List.all_append, List.all_flatMap, List.all_eq_true.mpr fun u _ => escape_printable u]
  decide

end JsonText

end QhpcEcosystem
