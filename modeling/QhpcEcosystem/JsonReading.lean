/-
The reader of JSON on every text.  The objects that it makes have distinct names, it always
comes to an end within its number of calls, and what the writer makes has one line.
-/
import QhpcEcosystem.JsonRoundTrip

namespace QhpcEcosystem

universe u

variable {F : Type u} {format : FloatFormat F}

/-! ## Objects -/

/-- The members have distinct names, and distinct names inside. -/
def DistinctObject (members : List (JsonText × Json F)) : Prop :=
  (members.map Prod.fst).Nodup ∧ ∀ member ∈ members, member.2.Distinct

theorem Json.distinct_obj {members : List (JsonText × Json F)} :
    (Json.obj members).Distinct ↔ DistinctObject members := by
  rw [Json.Distinct, Json.distinctMembers_iff, DistinctObject]

theorem DistinctObject.nil : DistinctObject ([] : List (JsonText × Json F)) :=
  ⟨List.nodup_nil, fun _ hmem => nomatch hmem⟩

theorem DistinctObject.set {members : List (JsonText × Json F)} (h : DistinctObject members)
    (name : JsonText) {value : Json F} (hvalue : value.Distinct) :
    DistinctObject (setMember members name value) := by
  unfold setMember
  split
  · refine ⟨?_, fun member hmember => ?_⟩
    · rw [List.map_map, List.map_congr_left (g := Prod.fst)]
      · exact h.1
      · intro member _
        rw [Function.comp_apply]
        split
        · next heq => exact heq.symm
        · rfl
    · obtain ⟨old, hold, rfl⟩ := List.mem_map.mp hmember
      split
      · exact hvalue
      · exact h.2 old hold
  · next hfresh =>
      refine ⟨?_, fun member hmember => ?_⟩
      · rw [List.map_append, List.nodup_append]
        refine ⟨h.1, List.nodup_singleton _, fun other hother same hsame heq => ?_⟩
        obtain rfl : same = name := List.mem_singleton.mp hsame
        exact hfresh (heq ▸ hother)
      · rcases List.mem_append.mp hmember with hold | hnew
        · exact h.2 member hold
        · rw [List.mem_singleton.mp hnew]
          exact hvalue

theorem readWord_distinct {text : List Char} {found : Json F × List Char}
    (h : readWord text = some found) : found.1.Distinct := by
  obtain ⟨word, hword, h⟩ := List.exists_of_findSome?_eq_some h
  obtain ⟨rest, -, rfl⟩ := Option.map_eq_some_iff.mp h
  simp only [Json.words, List.mem_cons, List.not_mem_nil, or_false] at hword
  rcases hword with rfl | rfl | rfl | rfl | rfl | rfl <;> trivial

theorem NumberToken.value_distinct (token : NumberToken) : (token.value format).Distinct := by
  cases token <;> trivial

/-- What the three functions of the reader make, by induction on the number of calls. -/
theorem read_distinct (fuel : Nat) :
    (∀ text found, readValue format fuel text = some found → found.1.Distinct) ∧
    (∀ text found, readItems format fuel text = some found → ∀ value ∈ found.1, value.Distinct) ∧
    ∀ members text found, DistinctObject members →
      readMembers format fuel members text = some found → DistinctObject found.1 := by
  induction fuel with
  | zero => exact ⟨nofun, nofun, nofun⟩
  | succ fuel ih =>
      obtain ⟨ihValue, ihItems, ihMembers⟩ := ih
      refine ⟨fun text found h => ?_, fun text found h => ?_, fun members text found hold h => ?_⟩
      · cases text with
        | nil => cases h
        | cons c rest =>
            simp only [readValue] at h
            split at h
            · obtain ⟨_, -, rfl⟩ := Option.map_eq_some_iff.mp h
              trivial
            · split at h
              · split at h
                · cases h
                  trivial
                · obtain ⟨items, hitems, rfl⟩ := Option.map_eq_some_iff.mp h
                  exact Json.distinctItems_iff.mpr (ihItems _ _ hitems)
              · split at h
                · split at h
                  · cases h
                    exact Json.distinct_obj.mpr .nil
                  · obtain ⟨members, hmembers, rfl⟩ := Option.map_eq_some_iff.mp h
                    exact Json.distinct_obj.mpr (ihMembers _ _ _ .nil hmembers)
                · split at h
                  · next hword =>
                      cases h
                      exact readWord_distinct hword
                  · obtain ⟨token, -, rfl⟩ := Option.map_eq_some_iff.mp h
                    exact NumberToken.value_distinct token.1
      · simp only [readItems] at h
        obtain ⟨⟨value, rest⟩, hvalue, h⟩ := Option.bind_eq_some_iff.mp h
        dsimp only at h
        split at h
        · obtain ⟨items, hitems, rfl⟩ := Option.map_eq_some_iff.mp h
          exact List.forall_mem_cons.mpr ⟨ihValue _ _ hvalue, ihItems _ _ hitems⟩
        · obtain ⟨_, -, rfl⟩ := Option.map_eq_some_iff.mp h
          exact List.forall_mem_singleton.mpr (ihValue _ _ hvalue)
      · simp only [readMembers] at h
        obtain ⟨⟨name, rest⟩, -, h⟩ := Option.bind_eq_some_iff.mp h
        obtain ⟨⟨value, rest⟩, hvalue, h⟩ := Option.bind_eq_some_iff.mp h
        have hset := hold.set name (ihValue _ _ hvalue)
        dsimp only at h
        split at h
        · exact ihMembers _ _ _ hset h
        · obtain ⟨_, -, rfl⟩ := Option.map_eq_some_iff.mp h
          exact hset

/-- The objects of a loaded value have distinct names. -/
theorem Json.loads_distinct {text : List Char} {value : Json F}
    (h : Json.loads format text = some value) : value.Distinct := by
  obtain ⟨⟨found, rest⟩, hread, h⟩ := Option.bind_eq_some_iff.mp h
  dsimp only at h
  split at h
  · cases h
    exact (read_distinct _).1 _ _ hread
  · cases h

/-! ## Calls -/

section Lengths

variable {text rest : List Char}

theorem length_skipBlank_le (text : List Char) : (skipBlank text).length ≤ text.length :=
  (List.dropWhile_sublist _).length_le

theorem expect_length {c : Char} (h : expect c text = some rest) :
    rest.length < text.length := by
  cases text with
  | nil => cases h
  | cons d tail =>
      simp only [expect] at h
      split at h
      · cases h
        exact Nat.lt_succ_self _
      · cases h

theorem JsonText.read_length {found : JsonText × List Char} (h : JsonText.read text = some found) :
    found.2.length < text.length := by
  fun_induction JsonText.read text generalizing found with
  | case1 => cases h
  | case2 rest =>
      cases h
      exact Nat.lt_succ_self _
  | case3 => cases h
  | case4 a b c d rest _ ih =>
      obtain ⟨_, -, h⟩ := Option.bind_eq_some_iff.mp h
      obtain ⟨inner, hinner, rfl⟩ := Option.map_eq_some_iff.mp h
      have hlt := ih hinner
      simp only [List.length_cons]
      omega
  | case5 => cases h
  | case6 e rest _ _ ih =>
      obtain ⟨_, -, h⟩ := Option.bind_eq_some_iff.mp h
      obtain ⟨inner, hinner, rfl⟩ := Option.map_eq_some_iff.mp h
      have hlt := ih hinner
      simp only [List.length_cons]
      omega
  | case7 => cases h
  | case8 c rest _ _ _ ih =>
      obtain ⟨inner, hinner, rfl⟩ := Option.map_eq_some_iff.mp h
      have hlt := ih hinner
      simp only [List.length_cons]
      omega

theorem readName_length {found : JsonText × List Char} (h : readName text = some found) :
    found.2.length < text.length := by
  simp only [readName, Option.bind_eq_bind, Option.pure_def] at h
  obtain ⟨quoted, hquoted, h⟩ := Option.bind_eq_some_iff.mp h
  obtain ⟨⟨name, behind⟩, hname, h⟩ := Option.bind_eq_some_iff.mp h
  obtain ⟨colon, hcolon, h⟩ := Option.bind_eq_some_iff.mp h
  cases h
  have hlt := expect_length hquoted
  have hlt' := JsonText.read_length hname
  have hlt'' := expect_length hcolon
  have hle := length_skipBlank_le behind
  have hle' := length_skipBlank_le colon
  dsimp only at hlt' hlt'' ⊢
  omega

theorem scanFraction_length (text : List Char) :
    (scanFraction text).2.length ≤ text.length := by
  cases text with
  | nil => exact le_refl _
  | cons c tail =>
      simp only [scanFraction]
      split
      · exact ((List.dropWhile_sublist _).length_le).trans (Nat.le_succ _)
      · exact le_refl _

theorem scanSign_length (text : List Char) : (scanSign text).2.length ≤ text.length := by
  cases text with
  | nil => exact le_refl _
  | cons c tail =>
      simp only [scanSign]
      split
      · exact Nat.le_succ _
      · exact le_refl _

theorem scanExponent_length (text : List Char) :
    (scanExponent text).2.length ≤ text.length := by
  cases text with
  | nil => exact le_refl _
  | cons c tail =>
      simp only [scanExponent]
      split
      · exact ((List.dropWhile_sublist _).length_le.trans (scanSign_length tail)).trans
          (Nat.le_succ _)
      · exact le_refl _

theorem scanWhole_length {whole : List Char × List Char} (h : scanWhole text = some whole) :
    whole.2.length < text.length := by
  cases text with
  | nil => cases h
  | cons c tail =>
      simp only [scanWhole] at h
      split at h
      · cases h
        exact Nat.lt_succ_self _
      · split at h
        · cases h
          exact Nat.lt_succ_of_le (List.dropWhile_sublist _).length_le
        · cases h

theorem scanUnsigned_length {negative : Bool} {found : NumberToken × List Char}
    (h : scanUnsigned negative text = some found) : found.2.length < text.length := by
  obtain ⟨whole, hwhole, rfl⟩ := Option.map_eq_some_iff.mp h
  have hlt := scanWhole_length hwhole
  have hle := scanFraction_length whole.2
  have hle' := scanExponent_length (scanFraction whole.2).2
  dsimp only
  split
  · exact lt_of_le_of_lt (hle'.trans hle) hlt
  · exact lt_of_le_of_lt (hle'.trans hle) hlt

theorem scanNumber_length {found : NumberToken × List Char} (h : scanNumber text = some found) :
    found.2.length < text.length := by
  cases text with
  | nil => cases h
  | cons c tail =>
      simp only [scanNumber] at h
      split at h
      · exact (scanUnsigned_length h).trans (Nat.lt_succ_self _)
      · exact scanUnsigned_length h

theorem readWord_length {found : Json F × List Char} (h : readWord text = some found) :
    found.2.length < text.length := by
  obtain ⟨word, hword, h⟩ := List.exists_of_findSome?_eq_some h
  obtain ⟨rest, hrest, rfl⟩ := Option.map_eq_some_iff.mp h
  unfold stripWord at hrest
  split at hrest
  · next hprefix =>
      cases hrest
      obtain ⟨tail, rfl⟩ := List.isPrefixOf_iff_prefix.mp hprefix
      have hpos : ∀ other ∈ (Json.words : List (List Char × Json F)), 0 < other.1.length := by
        intro other hother
        simp only [Json.words, List.mem_cons, List.not_mem_nil, or_false] at hother
        rcases hother with rfl | rfl | rfl | rfl | rfl | rfl <;> exact Nat.succ_pos _
      have hlt := hpos word hword
      dsimp only
      rw [List.drop_left, List.length_append]
      omega
  · cases hrest

/-- A value takes one character or more. -/
theorem read_length (fuel : Nat) :
    (∀ text found, readValue format fuel text = some found → found.2.length < text.length) ∧
    (∀ text found, readItems format fuel text = some found → found.2.length < text.length) ∧
    ∀ members text found, readMembers format fuel members text = some found →
      found.2.length < text.length := by
  induction fuel with
  | zero => exact ⟨nofun, nofun, nofun⟩
  | succ fuel ih =>
      obtain ⟨ihValue, ihItems, ihMembers⟩ := ih
      refine ⟨fun text found h => ?_, fun text found h => ?_, fun members text found h => ?_⟩
      · cases text with
        | nil => cases h
        | cons c rest =>
            have hle := length_skipBlank_le rest
            simp only [readValue] at h
            rw [List.length_cons]
            split at h
            · obtain ⟨inner, hinner, rfl⟩ := Option.map_eq_some_iff.mp h
              have hlt := JsonText.read_length hinner
              dsimp only
              omega
            · split at h
              · split at h
                · next hclose =>
                    cases h
                    have hlt := expect_length hclose
                    dsimp only
                    omega
                · obtain ⟨items, hitems, rfl⟩ := Option.map_eq_some_iff.mp h
                  have hlt := ihItems _ _ hitems
                  dsimp only
                  omega
              · split at h
                · split at h
                  · next hclose =>
                      cases h
                      have hlt := expect_length hclose
                      dsimp only
                      omega
                  · obtain ⟨members, hmembers, rfl⟩ := Option.map_eq_some_iff.mp h
                    have hlt := ihMembers _ _ _ hmembers
                    dsimp only
                    omega
                · split at h
                  · next hword =>
                      cases h
                      exact readWord_length hword
                  · obtain ⟨token, htoken, rfl⟩ := Option.map_eq_some_iff.mp h
                    exact scanNumber_length htoken
      · simp only [readItems] at h
        obtain ⟨⟨value, rest⟩, hvalue, h⟩ := Option.bind_eq_some_iff.mp h
        have hlt := ihValue _ _ hvalue
        have hle := length_skipBlank_le rest
        dsimp only at h hlt
        split at h
        · next behind hcomma =>
            obtain ⟨items, hitems, rfl⟩ := Option.map_eq_some_iff.mp h
            have hlt' := expect_length hcomma
            have hle' := length_skipBlank_le behind
            have hlt'' := ihItems _ _ hitems
            dsimp only
            omega
        · obtain ⟨_, hclose, rfl⟩ := Option.map_eq_some_iff.mp h
          have hlt' := expect_length hclose
          dsimp only
          omega
      · simp only [readMembers] at h
        obtain ⟨⟨name, named⟩, hname, h⟩ := Option.bind_eq_some_iff.mp h
        obtain ⟨⟨value, rest⟩, hvalue, h⟩ := Option.bind_eq_some_iff.mp h
        have hnamed := readName_length hname
        have hlt := ihValue _ _ hvalue
        have hle := length_skipBlank_le rest
        dsimp only at h hlt hnamed
        split at h
        · next behind hcomma =>
            have hlt' := expect_length hcomma
            have hle' := length_skipBlank_le behind
            have hlt'' := ihMembers _ _ _ h
            omega
        · obtain ⟨_, hclose, rfl⟩ := Option.map_eq_some_iff.mp h
          have hlt' := expect_length hclose
          dsimp only
          omega

/-- With a number of calls that is twice the length of the text, or one more inside an array
or an object, more calls change nothing. -/
theorem read_enough (fuel : Nat) :
    (∀ text more, 2 * text.length ≤ fuel → 2 * text.length ≤ more →
      readValue format fuel text = readValue format more text) ∧
    (∀ text more, 2 * text.length < fuel → 2 * text.length < more →
      readItems format fuel text = readItems format more text) ∧
    ∀ members text more, 2 * text.length < fuel → 2 * text.length < more →
      readMembers format fuel members text = readMembers format more members text := by
  induction fuel with
  | zero =>
      refine ⟨fun text more hfuel _ => ?_, fun _ _ hfuel _ => ?_, fun _ _ _ hfuel _ => ?_⟩
      · cases text with
        | nil => cases more <;> rfl
        | cons c rest =>
            rw [List.length_cons] at hfuel
            omega
      · omega
      · omega
  | succ fuel ih =>
      obtain ⟨ihValue, ihItems, ihMembers⟩ := ih
      refine ⟨fun text more hfuel hmore => ?_, fun text more hfuel hmore => ?_,
        fun members text more hfuel hmore => ?_⟩
      · cases text with
        | nil => cases more <;> rfl
        | cons c rest =>
            rw [List.length_cons] at hfuel hmore
            obtain ⟨more, rfl⟩ : ∃ k, more = k + 1 := ⟨more - 1, by omega⟩
            have hle := length_skipBlank_le rest
            simp only [readValue, ihItems (skipBlank rest) more (by omega) (by omega),
              ihMembers [] (skipBlank rest) more (by omega) (by omega)]
      · obtain ⟨more, rfl⟩ : ∃ k, more = k + 1 := ⟨more - 1, by omega⟩
        simp only [readItems, ihValue text more (by omega) (by omega)]
        refine Option.bind_congr fun found hfound => ?_
        have hlt := (read_length more).1 _ _ hfound
        have hle := length_skipBlank_le found.2
        split
        · next behind hcomma =>
            have hlt' := expect_length hcomma
            have hle' := length_skipBlank_le behind
            rw [ihItems (skipBlank behind) more (by omega) (by omega)]
        · rfl
      · obtain ⟨more, rfl⟩ : ∃ k, more = k + 1 := ⟨more - 1, by omega⟩
        simp only [readMembers]
        refine Option.bind_congr fun name hname => ?_
        have hnamed := readName_length hname
        rw [ihValue name.2 more (by omega) (by omega)]
        refine Option.bind_congr fun found hfound => ?_
        have hlt := (read_length more).1 _ _ hfound
        have hle := length_skipBlank_le found.2
        split
        · next behind hcomma =>
            have hlt' := expect_length hcomma
            have hle' := length_skipBlank_le behind
            rw [ihMembers _ (skipBlank behind) more (by omega) (by omega)]
        · rfl

/-- The bound on the calls of `loads` does not matter. -/
theorem Json.loads_enough (text : List Char) {more : Nat} (h : 2 * text.length ≤ more) :
    Json.loads format text = (readValue format more (skipBlank text)).bind fun (value, rest) =>
      if skipBlank rest = [] then some value else none := by
  have hle := length_skipBlank_le text
  rw [Json.loads, (read_enough (2 * text.length)).1 (skipBlank text) more (by omega) (by omega)]

end Lengths

/-! ## Lines -/

section Lines

open JsonText (isPrintable)

theorem isPrintable_of_isDigit {c : Char} (h : c.isDigit = true) : isPrintable c = true := by
  simp only [Char.isDigit, Bool.and_eq_true, decide_eq_true_eq] at h
  have hlow : 48 ≤ c.toNat := h.1
  have hhigh : c.toNat ≤ 57 := h.2
  simp only [isPrintable, Bool.and_eq_true, decide_eq_true_eq]
  omega

theorem all_takeWhile_printable (text : List Char) :
    (text.takeWhile Char.isDigit).all isPrintable = true :=
  List.all_eq_true.mpr fun _ hc => isPrintable_of_isDigit (List.mem_takeWhile_imp hc)

theorem scanWhole_printable {text : List Char} {whole : List Char × List Char}
    (h : scanWhole text = some whole) : whole.1.all isPrintable = true := by
  cases text with
  | nil => cases h
  | cons c rest =>
      simp only [scanWhole] at h
      split at h
      · next hzero =>
          cases h
          rw [hzero]
          rfl
      · split at h
        · next hdigit =>
            cases h
            rw [List.all_cons, isPrintable_of_isDigit hdigit, all_takeWhile_printable]
            rfl
        · cases h

theorem scanFraction_printable (text : List Char) :
    (scanFraction text).1.all isPrintable = true := by
  cases text with
  | nil => rfl
  | cons c rest =>
      simp only [scanFraction]
      split
      · next hpoint =>
          rw [hpoint.1, List.all_cons, all_takeWhile_printable]
          decide
      · rfl

theorem scanSign_printable (text : List Char) : (scanSign text).1.all isPrintable = true := by
  cases text with
  | nil => rfl
  | cons c rest =>
      simp only [scanSign]
      split
      · next hsign => rcases hsign with rfl | rfl <;> rfl
      · rfl

theorem scanExponent_printable (text : List Char) :
    (scanExponent text).1.all isPrintable = true := by
  cases text with
  | nil => rfl
  | cons c rest =>
      simp only [scanExponent]
      split
      · next hexponent =>
          have hletter : isPrintable c = true := by
            rcases hexponent.1 with rfl | rfl <;> decide
          rw [List.cons_append, List.all_cons, List.all_append, hletter, scanSign_printable,
            all_takeWhile_printable]
          rfl
      · rfl

theorem scanUnsigned_printable {negative : Bool} {text literal rest : List Char}
    (h : scanUnsigned negative text = some (.float literal, rest)) :
    literal.all isPrintable = true := by
  obtain ⟨whole, hwhole, h⟩ := Option.map_eq_some_iff.mp h
  dsimp only at h
  split at h
  · cases h
  · cases h
    rw [List.all_append, List.all_append, List.all_append, scanWhole_printable hwhole,
      scanFraction_printable, scanExponent_printable]
    cases negative <;> decide

theorem scanNumber_printable {text literal rest : List Char}
    (h : scanNumber text = some (.float literal, rest)) : literal.all isPrintable = true := by
  cases text with
  | nil => cases h
  | cons c tail =>
      simp only [scanNumber] at h
      split at h
      · exact scanUnsigned_printable h
      · exact scanUnsigned_printable h

theorem writeInt_printable (value : Int) : (writeInt value).all isPrintable = true := by
  have hdigits : (Nat.toDigits 10 value.natAbs).all isPrintable = true :=
    List.all_eq_true.mpr fun _ hc =>
      isPrintable_of_isDigit (Nat.isDigit_of_mem_toDigits (by decide) (by decide) hc)
  rw [writeInt, List.all_append, hdigits]
  split <;> decide

theorem FloatFormat.write_printable (value : JsonFloat F) :
    (format.write value).all isPrintable = true := by
  cases value with
  | finite value => exact scanNumber_printable (format.scan_repr value)
  | nan | infinity | negativeInfinity => rfl

variable {style : JsonStyle}

theorem writeName_printable (hgap : style.gap.all isPrintable = true) (name : JsonText) :
    (writeName style name).all isPrintable = true := by
  rw [writeName, List.cons_append, List.all_cons, List.all_append, List.all_cons,
    JsonText.write_printable, hgap]
  decide

theorem writeItems_printable (hgap : style.gap.all isPrintable = true) (items : List (Json F))
    (hitems : ∀ item ∈ items, (item.write format style).all isPrintable = true) :
    (Json.writeItems format style items).all isPrintable = true := by
  induction items with
  | nil => rfl
  | cons item items ih =>
      obtain ⟨hitem, hitems⟩ := List.forall_mem_cons.mp hitems
      rw [Json.writeItems, List.all_cons, List.all_append, List.all_append, hgap, hitem, ih hitems]
      rfl

theorem writeMembers_printable (hgap : style.gap.all isPrintable = true)
    (members : List (JsonText × Json F))
    (hmembers : ∀ member ∈ members, (member.2.write format style).all isPrintable = true) :
    (Json.writeMembers format style members).all isPrintable = true := by
  induction members with
  | nil => rfl
  | cons member members ih =>
      obtain ⟨name, value⟩ := member
      obtain ⟨hmember, hmembers⟩ := List.forall_mem_cons.mp hmembers
      rw [Json.writeMembers, List.all_cons, List.all_append, List.all_append, List.all_append, hgap,
        writeName_printable hgap, hmember, ih hmembers]
      rfl

/-- The written form has printable ASCII characters only. -/
theorem Json.write_printable (hgap : style.gap.all isPrintable = true) (value : Json F) :
    (value.write format style).all isPrintable = true := by
  induction value using Json.induct with
  | null => rfl
  | bool value => cases value <;> rfl
  | int value => exact writeInt_printable value
  | float value => exact FloatFormat.write_printable value
  | str text =>
      rw [Json.write, List.all_cons, JsonText.write_printable]
      decide
  | arr items ih =>
      cases items with
      | nil => rfl
      | cons item items =>
          obtain ⟨hitem, hitems⟩ := List.forall_mem_cons.mp ih
          rw [Json.write, List.all_cons, List.all_append, hitem,
            writeItems_printable hgap items hitems]
          rfl
  | obj members ih =>
      cases members with
      | nil => rfl
      | cons member members =>
          obtain ⟨name, value⟩ := member
          obtain ⟨hmember, hmembers⟩ := List.forall_mem_cons.mp ih
          rw [Json.write, List.all_cons, List.all_append, List.all_append,
            writeName_printable hgap, hmember, writeMembers_printable hgap members hmembers]
          rfl

end Lines

end QhpcEcosystem
