/-
Reading what was written gives the value back, with the members of its objects sorted.  So
the written form, with whitespace behind its separators or without, determines the value up
to the order of members.
-/
import QhpcEcosystem.Json

namespace QhpcEcosystem

universe u

variable {F : Type u}

/-! ## Values -/

/-- Induction over a value, with a hypothesis for every item and every member. -/
@[elab_as_elim]
theorem Json.induct {P : Json F → Prop} (null : P .null) (bool : ∀ value, P (.bool value))
    (int : ∀ value, P (.int value)) (float : ∀ value, P (.float value))
    (str : ∀ text, P (.str text))
    (arr : ∀ items, (∀ value ∈ items, P value) → P (.arr items))
    (obj : ∀ members, (∀ member ∈ members, P member.2) → P (.obj members)) (value : Json F) :
    P value := by
  refine @Json.rec F P (fun items => ∀ value ∈ items, P value)
    (fun members => ∀ member ∈ members, P member.2) (fun member => P member.2)
    null bool int float str arr obj ?_ ?_ ?_ ?_ ?_ value
  · exact fun _ hmem => nomatch hmem
  · exact fun value items hvalue hitems => List.forall_mem_cons.mpr ⟨hvalue, hitems⟩
  · exact fun _ hmem => nomatch hmem
  · exact fun member members hmember hmembers => List.forall_mem_cons.mpr ⟨hmember, hmembers⟩
  · exact fun _ _ hvalue => hvalue

theorem Json.distinctItems_iff {items : List (Json F)} :
    Json.DistinctItems items ↔ ∀ value ∈ items, value.Distinct := by
  induction items with
  | nil => exact ⟨fun _ _ hmem => (nomatch hmem), fun _ => trivial⟩
  | cons value rest ih => rw [Json.DistinctItems, ih, List.forall_mem_cons]

theorem Json.distinctMembers_iff {members : List (JsonText × Json F)} :
    Json.DistinctMembers members ↔ ∀ member ∈ members, member.2.Distinct := by
  induction members with
  | nil => exact ⟨fun _ _ hmem => (nomatch hmem), fun _ => trivial⟩
  | cons member rest ih => rw [Json.DistinctMembers, ih, List.forall_mem_cons]

theorem Json.sortedItems_eq (items : List (Json F)) :
    Json.sortedItems items = items.map Json.sorted := by
  induction items with
  | nil => rfl
  | cons value rest ih => rw [Json.sortedItems, ih, List.map_cons]

theorem Json.sortedMembers_eq (members : List (JsonText × Json F)) :
    Json.sortedMembers members = members.map fun member => (member.1, member.2.sorted) := by
  induction members with
  | nil => rfl
  | cons member rest ih => rw [Json.sortedMembers, ih, List.map_cons]

theorem memberLe_total (a b : JsonText × Json F) : memberLe a b = true ∨ memberLe b a = true :=
  JsonText.le_total a.1 b.1

theorem memberLe_trans (a b c : JsonText × Json F) (hab : memberLe a b = true)
    (hbc : memberLe b c = true) : memberLe a c = true :=
  JsonText.le_trans hab hbc

instance : Std.Total fun a b : JsonText × Json F => memberLe a b = true := ⟨memberLe_total⟩

instance : IsTrans (JsonText × Json F) fun a b => memberLe a b = true := ⟨memberLe_trans⟩

theorem Json.sorted_distinct {value : Json F} (h : value.Distinct) : value.sorted.Distinct := by
  induction value using Json.induct with
  | null | bool | int | float | str => exact h
  | arr items ih =>
      have hitems := Json.distinctItems_iff.mp h
      rw [Json.sorted, Json.Distinct, Json.distinctItems_iff, Json.sortedItems_eq]
      intro value hvalue
      obtain ⟨item, hitem, rfl⟩ := List.mem_map.mp hvalue
      exact ih item hitem (hitems item hitem)
  | obj members ih =>
      rw [Json.Distinct, Json.distinctMembers_iff] at h
      rw [Json.sorted, Json.Distinct, Json.distinctMembers_iff, Json.sortedMembers_eq]
      refine ⟨?_, fun member hmember => ?_⟩
      · rw [((List.perm_insertionSort _ _).map Prod.fst).nodup_iff, List.map_map]
        exact h.1
      · rw [List.mem_insertionSort] at hmember
        obtain ⟨old, hold, rfl⟩ := List.mem_map.mp hmember
        exact ih old hold (h.2 old hold)

/-- Sorting depends on the members only, not on their order. -/
theorem Json.sorted_congr {members members' : List (JsonText × Json F)}
    (hperm : members.Perm members') (hnodup : (members.map Prod.fst).Nodup) :
    (Json.obj members).sorted = (Json.obj members').sorted := by
  rw [Json.sorted, Json.sorted, Json.sortedMembers_eq, Json.sortedMembers_eq, Json.obj.injEq]
  have hsorted := hperm.map fun member : JsonText × Json F => (member.1, member.2.sorted)
  refine List.Perm.eq_of_pairwise (fun a b ha hb hab hba => ?_)
    (List.pairwise_insertionSort _ _) (List.pairwise_insertionSort _ _)
    ((List.perm_insertionSort _ _).trans (hsorted.trans (List.perm_insertionSort _ _).symm))
  -- two members of the same name are one
  have hkeys : ((members.map fun member => (member.1, member.2.sorted)).map Prod.fst).Nodup := by
    rw [List.map_map]
    exact hnodup
  rw [List.mem_insertionSort] at ha hb
  exact List.inj_on_of_nodup_map hkeys ha (hsorted.mem_iff.mpr hb) (JsonText.le_antisymm hab hba)

theorem Json.sorted_sorted (value : Json F) : value.sorted.sorted = value.sorted := by
  induction value using Json.induct with
  | null | bool | int | float | str => rfl
  | arr items ih =>
      rw [Json.sorted, Json.sorted, Json.sortedItems_eq, Json.sortedItems_eq, List.map_map]
      exact congrArg Json.arr (List.map_congr_left ih)
  | obj members ih =>
      have hfixed : ∀ sorted : List (JsonText × Json F),
          (∀ member ∈ sorted, member.2.sorted = member.2) → Json.sortedMembers sorted = sorted := by
        intro sorted hall
        rw [Json.sortedMembers_eq]
        refine (List.map_congr_left (g := id) fun member hmember => ?_).trans (List.map_id sorted)
        exact Prod.ext rfl (hall member hmember)
      rw [Json.sorted, Json.sorted, hfixed]
      · rw [(List.pairwise_insertionSort _ _).insertionSort_eq]
      · intro member hmember
        rw [List.mem_insertionSort, Json.sortedMembers_eq] at hmember
        obtain ⟨old, hold, rfl⟩ := List.mem_map.mp hmember
        exact ih old hold

/-! ## Numbers -/

/-- A number ends before this text. -/
def Stops (rest : List Char) : Prop :=
  ∀ c, rest.head? = some c → c.isDigit = false ∧ c ≠ '.' ∧ c ≠ 'e' ∧ c ≠ 'E' ∧ c ≠ '+' ∧ c ≠ '-'

section Numbers

variable {text rest : List Char}

theorem takeWhile_append_of_stops (h : Stops rest) :
    (text ++ rest).takeWhile Char.isDigit = text.takeWhile Char.isDigit := by
  induction text with
  | nil =>
      cases rest with
      | nil => rfl
      | cons c rest =>
          rw [List.nil_append, List.takeWhile_cons, (h c rfl).1]
          rfl
  | cons c text ih =>
      rw [List.cons_append, List.takeWhile_cons, List.takeWhile_cons, ih]

theorem dropWhile_append_of_stops (h : Stops rest) :
    (text ++ rest).dropWhile Char.isDigit = text.dropWhile Char.isDigit ++ rest := by
  induction text with
  | nil =>
      cases rest with
      | nil => rfl
      | cons c rest =>
          rw [List.nil_append, List.dropWhile_cons, (h c rfl).1]
          rfl
  | cons c text ih =>
      rw [List.cons_append, List.dropWhile_cons, List.dropWhile_cons]
      split
      · exact ih
      · rfl

theorem scanWhole_append (h : Stops rest) {whole : List Char × List Char}
    (hscan : scanWhole text = some whole) :
    scanWhole (text ++ rest) = some (whole.1, whole.2 ++ rest) := by
  cases text with
  | nil => cases hscan
  | cons c text =>
      simp only [scanWhole, List.cons_append] at hscan ⊢
      split
      · next hzero =>
          rw [if_pos hzero] at hscan
          cases hscan
          rfl
      · next hzero =>
          rw [if_neg hzero] at hscan
          split at hscan
          · next hdigit =>
              cases hscan
              rw [if_pos hdigit, takeWhile_append_of_stops h, dropWhile_append_of_stops h]
          · cases hscan

theorem scanFraction_append (h : Stops rest) :
    scanFraction (text ++ rest) = ((scanFraction text).1, (scanFraction text).2 ++ rest) := by
  cases text with
  | nil =>
      cases rest with
      | nil => rfl
      | cons c rest =>
          simp only [scanFraction, List.nil_append, (h c rfl).2.1, false_and, if_false]
  | cons c text =>
      simp only [scanFraction, List.cons_append, takeWhile_append_of_stops h,
        dropWhile_append_of_stops h]
      split_ifs <;> rfl

theorem scanSign_append (h : Stops rest) :
    scanSign (text ++ rest) = ((scanSign text).1, (scanSign text).2 ++ rest) := by
  cases text with
  | nil =>
      cases rest with
      | nil => rfl
      | cons c rest =>
          obtain ⟨-, -, -, -, hplus, hminus⟩ := h c rfl
          simp only [scanSign, List.nil_append, hplus, hminus, or_self, if_false]
  | cons c text =>
      simp only [scanSign, List.cons_append]
      split <;> rfl

theorem scanExponent_append (h : Stops rest) :
    scanExponent (text ++ rest) = ((scanExponent text).1, (scanExponent text).2 ++ rest) := by
  cases text with
  | nil =>
      cases rest with
      | nil => rfl
      | cons c rest =>
          obtain ⟨-, -, hsmall, hbig, -, -⟩ := h c rfl
          simp only [scanExponent, List.nil_append, hsmall, hbig, or_self, false_and, if_false]
  | cons c text =>
      simp only [scanExponent, List.cons_append, scanSign_append h, takeWhile_append_of_stops h,
        dropWhile_append_of_stops h]
      split_ifs <;> rfl

theorem scanUnsigned_append (h : Stops rest) {negative : Bool} {found : NumberToken × List Char}
    (hscan : scanUnsigned negative text = some found) :
    scanUnsigned negative (text ++ rest) = some (found.1, found.2 ++ rest) := by
  obtain ⟨whole, hwhole, rfl⟩ := Option.map_eq_some_iff.mp hscan
  simp only [scanUnsigned, scanWhole_append h hwhole, Option.map_some, scanFraction_append h,
    scanExponent_append h]
  split_ifs <;> rfl

theorem scanNumber_append (h : Stops rest) {found : NumberToken × List Char}
    (hscan : scanNumber text = some found) :
    scanNumber (text ++ rest) = some (found.1, found.2 ++ rest) := by
  cases text with
  | nil => cases hscan
  | cons c text =>
      simp only [scanNumber, List.cons_append] at hscan ⊢
      by_cases hminus : c = '-'
      · rw [if_pos hminus] at hscan ⊢
        exact scanUnsigned_append h hscan
      · rw [if_neg hminus] at hscan ⊢
        exact scanUnsigned_append h hscan

/-- A number starts with a digit, or with a minus and a digit. -/
theorem scanNumber_head {found : NumberToken × List Char} (hscan : scanNumber text = some found) :
    ∃ c tail, text = c :: tail ∧ (c.isDigit = true ∨ c = '-') := by
  cases text with
  | nil => cases hscan
  | cons c tail =>
      refine ⟨c, tail, rfl, ?_⟩
      simp only [scanNumber] at hscan
      split at hscan
      · next hminus => exact .inr hminus
      · obtain ⟨whole, hwhole, -⟩ := Option.map_eq_some_iff.mp hscan
        simp only [scanWhole] at hwhole
        split at hwhole
        · next hzero =>
            rw [hzero]
            exact .inl rfl
        · split at hwhole
          · next hdigit => exact .inl hdigit
          · cases hwhole

theorem head?_toDigits {n : Nat} (h : 0 < n) : (Nat.toDigits 10 n).head? ≠ some '0' := by
  induction n using Nat.strongRecOn with
  | ind n ih =>
      by_cases hlt : n < 10
      · rw [Nat.toDigits_of_lt_base hlt, List.head?_cons, ne_eq, Option.some.injEq,
          Nat.digitChar_eq_zero]
        omega
      · rw [Nat.toDigits_of_base_le (by decide) (by omega), List.head?_append_of_ne_nil _
          Nat.toDigits_ne_nil]
        exact ih (n / 10) (by omega) (by omega)

theorem scanWhole_toDigits (n : Nat) :
    scanWhole (Nat.toDigits 10 n) = some (Nat.toDigits 10 n, []) := by
  rcases Nat.eq_zero_or_pos n with rfl | hpos
  · rfl
  · have hhead := head?_toDigits hpos
    have hdigits : ∀ c ∈ Nat.toDigits 10 n, c.isDigit = true :=
      fun c hc => Nat.isDigit_of_mem_toDigits (by decide) (by decide) hc
    cases htext : Nat.toDigits 10 n with
    | nil => exact absurd htext Nat.toDigits_ne_nil
    | cons c rest =>
        rw [htext] at hhead hdigits
        obtain ⟨hc, hrest⟩ := List.forall_mem_cons.mp hdigits
        rw [scanWhole, if_neg fun heq => hhead (congrArg some heq), if_pos hc,
          List.takeWhile_eq_self_iff.mpr hrest, List.dropWhile_eq_nil_iff.mpr hrest]

theorem scanNumber_writeInt (value : Int) : scanNumber (writeInt value) =
    some (.int (decide (value < 0)) (Nat.toDigits 10 value.natAbs), []) := by
  have hwhole := scanWhole_toDigits value.natAbs
  unfold writeInt
  by_cases hnegative : value < 0
  · rw [if_pos hnegative, decide_eq_true hnegative, List.singleton_append, scanNumber, if_pos rfl,
      scanUnsigned, hwhole]
    rfl
  · rw [if_neg hnegative, decide_eq_false hnegative, List.nil_append]
    cases htext : Nat.toDigits 10 value.natAbs with
    | nil => exact absurd htext Nat.toDigits_ne_nil
    | cons c rest =>
        have hdigit : c.isDigit = true :=
          Nat.isDigit_of_mem_toDigits (by decide) (by decide) (htext ▸ List.mem_cons_self)
        have hminus : c ≠ '-' := by
          rintro rfl
          cases hdigit
        rw [htext] at hwhole
        rw [scanNumber, if_neg hminus, scanUnsigned, hwhole]
        rfl

theorem value_writeInt (format : FloatFormat F) (value : Int) :
    (NumberToken.int (decide (value < 0)) (Nat.toDigits 10 value.natAbs)).value format =
      Json.int value := by
  rw [NumberToken.value, Nat.ofDigitChars_ten_toDigits, Json.int.injEq]
  by_cases hnegative : value < 0
  · rw [decide_eq_true hnegative, if_pos rfl]
    omega
  · rw [decide_eq_false hnegative, if_neg (by decide)]
    omega

end Numbers

/-! ## Starts of values -/

/-- A value may start here, and no closing bracket does. -/
def StartsValue : List Char → Prop
  | [] => False
  | c :: _ => isBlank c = false ∧ c ≠ ']' ∧ c ≠ '}'

section Starts

variable {text rest : List Char}

theorem StartsValue.append (h : StartsValue text) : StartsValue (text ++ rest) := by
  cases text with
  | nil => exact h.elim
  | cons c text => exact h

theorem StartsValue.skipBlank (h : StartsValue text) : skipBlank text = text := by
  cases text with
  | nil => exact h.elim
  | cons c text => rw [QhpcEcosystem.skipBlank, List.dropWhile_cons, h.1, if_neg Bool.false_ne_true]

theorem StartsValue.expect_bracket (h : StartsValue text) : expect ']' text = none := by
  cases text with
  | nil => exact h.elim
  | cons c text => exact if_neg h.2.1

theorem StartsValue.expect_brace (h : StartsValue text) : expect '}' text = none := by
  cases text with
  | nil => exact h.elim
  | cons c text => exact if_neg h.2.2

theorem skipBlank_gap (style : JsonStyle) (rest : List Char) :
    skipBlank (style.gap ++ rest) = skipBlank rest :=
  List.dropWhile_append_of_pos (List.all_eq_true.mp style.blank)

theorem startsValue_of_scanNumber {found : NumberToken × List Char}
    (hscan : scanNumber text = some found) : StartsValue text := by
  obtain ⟨c, tail, rfl, hdigit | rfl⟩ := scanNumber_head hscan
  · have hne : ∀ d : Char, d.isDigit = false → c ≠ d := by
      rintro d hd rfl
      rw [hdigit] at hd
      cases hd
    refine ⟨?_, hne ']' rfl, hne '}' rfl⟩
    simp only [isBlank, hne ' ' rfl, hne '\t' rfl, hne '\n' rfl, hne '\r' rfl, decide_false,
      Bool.or_false]
  · exact ⟨rfl, by decide, by decide⟩

/-- No word is read where a number is. -/
theorem readWord_of_scanNumber {found : NumberToken × List Char}
    (hscan : scanNumber text = some found) : readWord (F := F) text = none := by
  rw [readWord, List.findSome?_eq_none_iff]
  intro word hword
  rw [Option.map_eq_none_iff, stripWord, if_neg]
  intro hprefix
  obtain ⟨tail, rfl⟩ := List.isPrefixOf_iff_prefix.mp hprefix
  simp only [Json.words, List.mem_cons, List.not_mem_nil, or_false] at hword
  rcases hword with rfl | rfl | rfl | rfl | rfl | rfl <;> cases hscan

end Starts

section RoundTrip

variable {format : FloatFormat F} {style : JsonStyle}

theorem FloatFormat.write_starts (format : FloatFormat F) (value : JsonFloat F) :
    StartsValue (format.write value) := by
  cases value with
  | finite value => exact startsValue_of_scanNumber (format.scan_repr value)
  | nan | infinity | negativeInfinity => exact ⟨rfl, by decide, by decide⟩

theorem Json.write_starts (value : Json F) : StartsValue (value.write format style) := by
  cases value with
  | null => exact ⟨rfl, by decide, by decide⟩
  | bool value => cases value <;> exact ⟨rfl, by decide, by decide⟩
  | int value => exact startsValue_of_scanNumber (scanNumber_writeInt value)
  | float value => exact format.write_starts value
  | str text => exact ⟨rfl, by decide, by decide⟩
  | arr items => cases items <;> exact ⟨rfl, by decide, by decide⟩
  | obj members => cases members <;> exact ⟨rfl, by decide, by decide⟩

theorem stops_writeItems (items : List (Json F)) (rest : List Char) :
    Stops (Json.writeItems format style items ++ rest) := by
  cases items <;> rintro c ⟨⟩ <;> decide

theorem stops_writeMembers (members : List (JsonText × Json F)) (rest : List Char) :
    Stops (Json.writeMembers format style members ++ rest) := by
  cases members <;> rintro c ⟨⟩ <;> decide

/-- Reading what was written of a value gives it back, with enough calls. -/
def Json.Reads (format : FloatFormat F) (style : JsonStyle) (value : Json F) : Prop :=
  ∀ fuel rest, 2 * (value.write format style).length ≤ fuel → Stops rest →
    readValue format fuel (value.write format style ++ rest) = some (value, rest)

theorem readValue_number {text : List Char} {token : NumberToken}
    (hscan : scanNumber text = some (token, [])) (fuel : Nat) {rest : List Char}
    (hstops : Stops rest) :
    readValue format (fuel + 1) (text ++ rest) = some (token.value format, rest) := by
  have hwhole := scanNumber_append hstops hscan
  have hword : readWord (F := F) (text ++ rest) = none := readWord_of_scanNumber hwhole
  obtain ⟨c, tail, rfl, hhead⟩ := scanNumber_head hscan
  have hne : ∀ d : Char, d.isDigit = false → d ≠ '-' → c ≠ d := by
    rintro d hd hminus rfl
    rcases hhead with hdigit | rfl
    · rw [hdigit] at hd
      cases hd
    · exact hminus rfl
  rw [List.cons_append] at hwhole hword ⊢
  simp only [readValue, hne '"' rfl (by decide), hne '[' rfl (by decide), hne '{' rfl (by decide),
    if_false, hword, hwhole, Option.map_some, List.nil_append]

theorem readValue_bracket {text : List Char} (h : StartsValue text) (fuel : Nat) :
    readValue format (fuel + 1) ('[' :: text) =
      (readItems format fuel text).map fun found => (.arr found.1, found.2) := by
  simp only [readValue, show ('[' : Char) ≠ '"' by decide, if_false, if_true, h.skipBlank,
    h.expect_bracket]

theorem readValue_brace {text : List Char} (h : StartsValue text) (fuel : Nat) :
    readValue format (fuel + 1) ('{' :: text) =
      (readMembers format fuel [] text).map fun found => (.obj found.1, found.2) := by
  simp only [readValue, show ('{' : Char) ≠ '"' by decide, show ('{' : Char) ≠ '[' by decide,
    if_false, if_true, h.skipBlank, h.expect_brace]

theorem readItems_write (items : List (Json F)) (hitems : ∀ item ∈ items, item.Reads format style)
    (value : Json F) (hvalue : value.Reads format style) (fuel : Nat) (rest : List Char)
    (hfuel : 2 * (value.write format style ++ Json.writeItems format style items).length < fuel) :
    readItems format fuel (value.write format style ++
      (Json.writeItems format style items ++ rest)) = some (value :: items, rest) := by
  induction items generalizing value fuel with
  | nil =>
      obtain ⟨fuel, rfl⟩ : ∃ k, fuel = k + 1 := ⟨fuel - 1, by omega⟩
      rw [List.length_append] at hfuel
      rw [readItems, hvalue fuel _ (by omega) (stops_writeItems [] rest)]
      rfl
  | cons item items ih =>
      obtain ⟨fuel, rfl⟩ : ∃ k, fuel = k + 1 := ⟨fuel - 1, by omega⟩
      obtain ⟨hitem, hitems⟩ := List.forall_mem_cons.mp hitems
      simp only [Json.writeItems, List.length_append, List.length_cons] at hfuel
      rw [readItems, hvalue fuel _ (by omega) (stops_writeItems (item :: items) rest)]
      have hgap : skipBlank (style.gap ++ (item.write format style ++
          (Json.writeItems format style items ++ rest))) =
          item.write format style ++ (Json.writeItems format style items ++ rest) := by
        rw [skipBlank_gap, (Json.write_starts item).append.skipBlank]
      have hrest := ih hitems item hitem fuel (by rw [List.length_append]; omega)
      simp only [Json.writeItems, List.cons_append, List.append_assoc, Option.bind_some,
        show ∀ text, skipBlank (',' :: text) = ',' :: text from fun _ => rfl,
        show ∀ text, expect ',' (',' :: text) = some text from fun _ => rfl, hgap, hrest,
        Option.map_some]

theorem writeName_starts (name : JsonText) : StartsValue (writeName style name) :=
  ⟨rfl, by decide, by decide⟩

theorem readName_write (name : JsonText) {text : List Char} (h : StartsValue text) :
    readName (writeName style name ++ text) = some (name, text) := by
  have hread : JsonText.read (JsonText.write name ++ (':' :: (style.gap ++ text))) =
      some (name, ':' :: (style.gap ++ text)) := JsonText.read_write name _
  have hgap : skipBlank (style.gap ++ text) = text := by rw [skipBlank_gap, h.skipBlank]
  simp only [writeName, List.cons_append, List.append_assoc, readName,
    show ∀ rest, expect '"' ('"' :: rest) = some rest from fun _ => rfl, Option.bind_eq_bind,
    Option.bind_some, hread, show ∀ rest, skipBlank (':' :: rest) = ':' :: rest from fun _ => rfl,
    show ∀ rest, expect ':' (':' :: rest) = some rest from fun _ => rfl, hgap, Option.pure_def]

theorem setMember_of_notMem {members : List (JsonText × Json F)} {name : JsonText}
    (h : name ∉ members.map Prod.fst) (value : Json F) :
    setMember members name value = members ++ [(name, value)] :=
  if_neg h

theorem readMembers_write (members : List (JsonText × Json F))
    (hmembers : ∀ member ∈ members, member.2.Reads format style) (name : JsonText) (value : Json F)
    (hvalue : value.Reads format style) (fuel : Nat) (rest : List Char)
    (read : List (JsonText × Json F))
    (hnodup : ((read ++ (name, value) :: members).map Prod.fst).Nodup)
    (hfuel : 2 * (writeName style name ++ (value.write format style ++
      Json.writeMembers format style members)).length < fuel) :
    readMembers format fuel read (writeName style name ++ (value.write format style ++
      (Json.writeMembers format style members ++ rest))) =
        some (read ++ (name, value) :: members, rest) := by
  have hfresh : name ∉ read.map Prod.fst := by
    rw [List.map_append, List.nodup_append] at hnodup
    exact fun hmem => hnodup.2.2 name hmem name List.mem_cons_self rfl
  induction members generalizing name value fuel read with
  | nil =>
      obtain ⟨fuel, rfl⟩ : ∃ k, fuel = k + 1 := ⟨fuel - 1, by omega⟩
      simp only [List.length_append] at hfuel
      rw [readMembers, readName_write name (Json.write_starts value).append, Option.bind_some]
      dsimp only
      rw [hvalue fuel _ (by omega) (stops_writeMembers [] rest), Option.bind_some]
      dsimp only
      rw [setMember_of_notMem hfresh]
      rfl
  | cons member members ih =>
      obtain ⟨fuel, rfl⟩ : ∃ k, fuel = k + 1 := ⟨fuel - 1, by omega⟩
      obtain ⟨next, found⟩ := member
      obtain ⟨hmember, hmembers⟩ := List.forall_mem_cons.mp hmembers
      simp only [Json.writeMembers, List.length_append, List.length_cons] at hfuel
      rw [readMembers, readName_write name (Json.write_starts value).append, Option.bind_some]
      dsimp only
      rw [hvalue fuel _ (by omega) (stops_writeMembers ((next, found) :: members) rest),
        Option.bind_some]
      dsimp only
      rw [setMember_of_notMem hfresh]
      have hgap : skipBlank (style.gap ++ (writeName style next ++ (found.write format style ++
          (Json.writeMembers format style members ++ rest)))) =
          writeName style next ++ (found.write format style ++
            (Json.writeMembers format style members ++ rest)) := by
        rw [skipBlank_gap, (writeName_starts next).append.skipBlank]
      rw [show read ++ (name, value) :: (next, found) :: members =
        (read ++ [(name, value)]) ++ (next, found) :: members by
          rw [List.append_assoc, List.singleton_append]] at hnodup ⊢
      have hrest := ih hmembers next found hmember fuel (read ++ [(name, value)]) hnodup
        (by simp only [List.length_append]; omega) (by
          rw [List.map_append, List.nodup_append] at hnodup
          exact fun hmem => hnodup.2.2 next hmem next List.mem_cons_self rfl)
      simp only [Json.writeMembers, List.cons_append, List.append_assoc,
        show ∀ text, skipBlank (',' :: text) = ',' :: text from fun _ => rfl,
        show ∀ text, expect ',' (',' :: text) = some text from fun _ => rfl, hgap]
      simpa only [List.append_assoc, List.cons_append, List.nil_append] using hrest

/-- Reading gives back every value whose objects have distinct names. -/
theorem Json.reads {value : Json F} (h : value.Distinct) : value.Reads format style := by
  induction value using Json.induct with
  | null =>
      rintro (_ | fuel) rest hfuel -
      · cases hfuel
      · rfl
  | bool value =>
      rintro (_ | fuel) rest hfuel -
      · cases value <;> cases hfuel
      · cases value <;> rfl
  | int value =>
      rintro (_ | fuel) rest hfuel hstops
      · have hpos := List.length_pos_iff.mpr (Nat.toDigits_ne_nil (n := value.natAbs) (b := 10))
        simp only [Json.write, writeInt, List.length_append] at hfuel
        omega
      · exact (readValue_number (scanNumber_writeInt value) fuel hstops).trans
          (congrArg (fun found => some (found, rest)) (value_writeInt format value))
  | float value =>
      rintro (_ | fuel) rest hfuel hstops
      · have hstarts := format.write_starts value
        rw [Json.write, Nat.le_zero, Nat.mul_eq_zero, List.length_eq_zero_iff] at hfuel
        rw [hfuel.resolve_left (by decide)] at hstarts
        exact hstarts.elim
      · cases value with
        | finite value =>
            refine (readValue_number (format.scan_repr value) fuel hstops).trans ?_
            rw [NumberToken.value, format.parse_repr]
        | nan | infinity | negativeInfinity => rfl
  | str text =>
      rintro (_ | fuel) rest hfuel -
      · cases hfuel
      · exact congrArg (Option.map _) (JsonText.read_write text rest)
  | arr items ih =>
      have hreads := fun item hitem => ih item hitem (Json.distinctItems_iff.mp h item hitem)
      rintro (_ | fuel) rest hfuel -
      · cases items <;> cases hfuel
      · cases items with
        | nil => rfl
        | cons value items =>
            obtain ⟨hvalue, hitems⟩ := List.forall_mem_cons.mp hreads
            rw [Json.write, List.length_cons] at hfuel
            rw [Json.write, List.cons_append, List.append_assoc,
              readValue_bracket (Json.write_starts value).append,
              readItems_write items hitems value hvalue fuel rest (by omega)]
            rfl
  | obj members ih =>
      rw [Json.Distinct, Json.distinctMembers_iff] at h
      have hreads := fun member hmember => ih member hmember (h.2 member hmember)
      rintro (_ | fuel) rest hfuel -
      · cases members <;> cases hfuel
      · cases members with
        | nil => rfl
        | cons member members =>
            obtain ⟨name, value⟩ := member
            obtain ⟨hvalue, hmembers⟩ := List.forall_mem_cons.mp hreads
            rw [Json.write, List.length_cons] at hfuel
            rw [Json.write, List.cons_append, List.append_assoc, List.append_assoc,
              readValue_brace (writeName_starts name).append,
              readMembers_write members hmembers name value hvalue fuel rest [] h.1 (by omega)]
            rfl

/-- Loading what was dumped gives the value with its members sorted. -/
theorem Json.loads_dumps (format : FloatFormat F) (style : JsonStyle) {value : Json F}
    (h : value.Distinct) :
    Json.loads format (value.dumps format style) = some value.sorted := by
  have hread : readValue format (2 * (value.dumps format style).length)
      (value.dumps format style ++ []) = some (value.sorted, []) :=
    Json.reads (Json.sorted_distinct h) _ [] (le_refl _) nofun
  rw [List.append_nil] at hread
  have hstart : skipBlank (value.dumps format style) = value.dumps format style :=
    (Json.write_starts value.sorted).skipBlank
  rw [Json.loads, hstart]
  exact congrArg (fun found => Option.bind found _) hread

/-- Values with one dump are equal up to the order of members. -/
theorem Json.sorted_of_dumps_eq (format : FloatFormat F) (style : JsonStyle)
    {value other : Json F} (hvalue : value.Distinct)
    (hother : other.Distinct) (h : value.dumps format style = other.dumps format style) :
    value.sorted = other.sorted := by
  have hloads := Json.loads_dumps format style hvalue
  rw [h, Json.loads_dumps format style hother] at hloads
  exact (Option.some.inj hloads).symm

end RoundTrip

end QhpcEcosystem
