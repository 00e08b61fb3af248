/-
Telemetry of a job.  The script appends one line for every stage that has ended, and the runner
reads the durations back.  A job may be killed while it appends a line: such a line never
touches another stage and never makes its own stage longer.
-/
import QhpcEcosystem.SlurmClient

namespace QhpcEcosystem

/-! ## Reading -/

/-- The white space that `int` skips around a number: in an ASCII text the one of C. -/
def isIntSpace (text : List Char) (c : Char) : Bool :=
  isSpace c && !(text.all (fun c => c.toNat < 128) && 0x1C ≤ c.toNat && c.toNat ≤ 0x1F)

/-- `int(text)` of a text whose digits are the ASCII ones, which raises `ValueError` from 4301
digits on. -/
def pythonInt (text : String) : Option Int :=
  let body := trimmed (isIntSpace text.toList) text.toList
  let unsigned := if body.head? = some '+' ∨ body.head? = some '-' then body.tail else body
  let digits := unsigned.filter (· ≠ '_')
  if (unsigned.splitOn '_').all isDigits ∧ digits.length ≤ intDigitLimit then
    let value := Nat.ofDigitChars 10 digits 0
    some (if body.head? = some '-' then -(value : Int) else value)
  else none

/-- `[a-z][a-z0-9-]*` -/
def isStageName : List Char → Bool
  | [] => false
  | c :: rest => lowerCase c && rest.all fun c => lowerOrDigit c || c = '-'

/-- One line of `_telemetry`. -/
def readStage (durations : Dict String Nat) (line : String) : Dict String Nat :=
  let (stage, timing) := partitionAt '\t' line.toList
  let (start, rest) := partitionAt '\t' (timing.getD [])
  match rest with
  | none => durations
  | some finish =>
      if isStageName stage then
        match pythonInt (String.ofList finish), pythonInt (String.ofList start) with
        | some finish, some start =>
            durations.set ("target." ++ String.ofList stage, (finish - start).toNat)
        | _, _ => durations
      else durations

/-- `_telemetry` of a file with this text. -/
def telemetry (text : String) : Dict String Nat :=
  (splitlines text).foldl readStage Table.empty

/-! ## Writing -/

/-- A stage that has ended, with the milliseconds of its start and its end. -/
structure StageRecord where
  stage : String
  start : Nat
  finish : Nat
  named : isStageName stage.toList = true
  start_lt : start < 10 ^ 18
  finish_lt : finish < 10 ^ 18
deriving DecidableEq, Repr

/-- The line that `printf` appends, without its line feed. -/
def StageRecord.line (record : StageRecord) : String :=
  record.stage ++ "\t" ++ toString record.start ++ "\t" ++ toString record.finish

/-- The duration of the last record of a stage. -/
def lastDuration (records : List StageRecord) (stage : String) : Option (String × Nat) :=
  (records.reverse.find? fun record => record.stage = stage).map fun record =>
    ("target." ++ stage, record.finish - record.start)

/-! ## Numbers -/

section Numbers

variable {digits cut : List Char}

theorem toList_toString (n : Nat) : (toString n).toList = Nat.toDigits 10 n := Nat.toList_repr

theorem isDigit_toString {n : Nat} : ∀ c ∈ (toString n).toList, c.isDigit = true := by
  intro c hc
  rw [toList_toString] at hc
  exact Nat.isDigit_of_mem_toDigits (by omega) (by omega) hc

theorem ofDigitChars_toString (n : Nat) : Nat.ofDigitChars 10 (toString n).toList 0 = n := by
  rw [toList_toString, Nat.ofDigitChars_ten_toDigits]

/-- Fewer digits are a smaller number. -/
theorem ofDigitChars_le (hcut : cut <+: digits) :
    Nat.ofDigitChars 10 cut 0 ≤ Nat.ofDigitChars 10 digits 0 := by
  obtain ⟨rest, rfl⟩ := hcut
  have happend : Nat.ofDigitChars 10 (cut ++ rest) 0 =
      10 ^ rest.length * Nat.ofDigitChars 10 cut 0 + Nat.ofDigitChars 10 rest 0 := by
    rw [Nat.ofDigitChars_append, Nat.ofDigitChars_eq_ofDigitChars_zero]
  have hle : Nat.ofDigitChars 10 cut 0 ≤ 10 ^ rest.length * Nat.ofDigitChars 10 cut 0 :=
    Nat.le_mul_of_pos_left _ (Nat.pow_pos (by decide))
  omega

theorem isSlurmChar_of_isDigit {c : Char} (h : c.isDigit = true) : isSlurmChar c = true := by
  simp [isSlurmChar, Char.isAlphanum, h]

theorem pythonInt_digits (hne : digits ≠ []) (hdigits : ∀ c ∈ digits, c.isDigit = true)
    (hlength : digits.length ≤ intDigitLimit) :
    pythonInt (String.ofList digits) = some (Nat.ofDigitChars 10 digits 0 : Int) := by
  have htrimmed : trimmed (isIntSpace digits) digits = digits := by
    refine trimmed_eq_self fun c hc => ?_
    rw [isIntSpace, isSpace_of_isVisible
      (isVisible_of_isSlurmChar (isSlurmChar_of_isDigit (hdigits c hc))), Bool.false_and]
  have hnot : ∀ c : Char, c.isDigit = false → digits.head? ≠ some c := by
    intro c hc hhead
    rw [hdigits c (List.mem_of_mem_head? hhead)] at hc
    cases hc
  have hunder : '_' ∉ digits := fun hmem => absurd (hdigits '_' hmem) (by decide)
  have hfilter : digits.filter (· ≠ '_') = digits := by
    rw [List.filter_eq_self]
    intro c hc
    have hne' : c ≠ '_' := fun heq => hunder (heq ▸ hc)
    simpa using hne'
  have hall : isDigits digits = true := by
    simp only [isDigits, Bool.and_eq_true, decide_eq_true_eq, List.all_eq_true]
    exact ⟨hne, hdigits⟩
  have hplus := hnot '+' (by decide)
  have hminus := hnot '-' (by decide)
  simp only [pythonInt, htrimmed, String.toList_ofList, hplus, hminus, or_self, if_false,
    List.splitOn_eq_singleton hunder, List.all_cons, List.all_nil, Bool.and_true, hall, if_true,
    hfilter, hlength, and_self]

theorem length_toString {n : Nat} (h : n < 10 ^ 18) : (toString n).toList.length ≤ intDigitLimit := by
  have hlength : (Nat.toDigits 10 n).length ≤ 18 :=
    (Nat.length_toDigits_le_iff (by decide) (by decide)).mpr h
  rw [toList_toString]
  exact hlength.trans (by decide)

theorem pythonInt_toString {n : Nat} (h : n < 10 ^ 18) :
    pythonInt (toString n) = some (n : Int) := by
  have hne : (toString n).toList ≠ [] := by
    rw [toList_toString]
    exact Nat.toDigits_ne_nil
  have hread := pythonInt_digits hne isDigit_toString (length_toString h)
  rwa [String.ofList_toList, ofDigitChars_toString] at hread

end Numbers

/-! ## One line -/

section Line

variable {record : StageRecord} {cut text stage : List Char}

theorem isVisible_of_lowerOrDigit {c : Char} (h : lowerOrDigit c = true) : isVisible c = true := by
  have hletters : ((decide (97 ≤ c.val) && decide (c.val ≤ 122)) ||
      (decide (48 ≤ c.val) && decide (c.val ≤ 57))) = true := h
  simp only [Bool.or_eq_true, Bool.and_eq_true, decide_eq_true_eq, UInt32.le_iff_toNat_le]
    at hletters
  simp only [isVisible, Bool.and_eq_true, decide_eq_true_eq, Char.toNat]
  grind

theorem isVisible_of_isStageName (h : isStageName stage = true) :
    ∀ c ∈ stage, isVisible c = true := by
  cases stage with
  | nil => exact fun _ hc => absurd hc List.not_mem_nil
  | cons first rest =>
      simp only [isStageName, Bool.and_eq_true, List.all_eq_true, Bool.or_eq_true,
        decide_eq_true_eq] at h
      intro c hc
      rcases List.mem_cons.mp hc with rfl | hc
      · exact isVisible_of_lowerOrDigit (by rw [lowerOrDigit, h.1, Bool.true_or])
      · rcases h.2 c hc with hletter | rfl
        · exact isVisible_of_lowerOrDigit hletter
        · decide

theorem tab_notMem {chars : List Char} (h : ∀ c ∈ chars, isVisible c = true) : '\t' ∉ chars :=
  fun hmem => absurd (h '\t' hmem) (by decide)

theorem isVisible_toString (n : Nat) : ∀ c ∈ (toString n).toList, isVisible c = true :=
  fun c hc => isVisible_of_isSlurmChar (isSlurmChar_of_isDigit (isDigit_toString c hc))

theorem toList_line (record : StageRecord) : record.line.toList = record.stage.toList ++
    '\t' :: ((toString record.start).toList ++ '\t' :: (toString record.finish).toList) := by
  simp [StageRecord.line]

theorem isLineBreak_line (record : StageRecord) :
    ∀ c ∈ record.line.toList, isLineBreak c = false := by
  intro c hc
  rw [toList_line, List.mem_append, List.mem_cons, List.mem_append, List.mem_cons] at hc
  rcases hc with hc | rfl | hc | rfl | hc
  · exact isLineBreak_of_isVisible (isVisible_of_isStageName record.named c hc)
  · decide
  · exact isLineBreak_of_isVisible (isVisible_toString _ c hc)
  · decide
  · exact isLineBreak_of_isVisible (isVisible_toString _ c hc)

/-- What is left of a text with a separator when it is cut. -/
theorem cut_cases {first second : List Char} {separator : Char} (hfirst : separator ∉ first)
    (hcut : cut <+: first ++ separator :: second) :
    separator ∉ cut ∨ ∃ rest, cut = first ++ separator :: rest ∧ rest <+: second := by
  obtain ⟨left, hleft⟩ := hcut
  rcases List.append_eq_append_iff.mp hleft with ⟨middle, rfl, -⟩ | ⟨middle, rfl, hmiddle⟩
  · exact .inl fun hmem => hfirst (List.mem_append_left _ hmem)
  · cases middle with
    | nil => exact .inl (by simpa using hfirst)
    | cons c rest =>
        rw [List.cons_append] at hmiddle
        obtain ⟨rfl, hrest⟩ := List.cons.inj hmiddle
        exact .inr ⟨rest, rfl, left, hrest.symm⟩

theorem partitionAt_none {separator : Char} (h : separator ∉ text) :
    partitionAt separator text = (text, none) := by
  have hparts := partitionAt_append_left h []
  simpa [partitionAt] using hparts

/-- What a line that was cut does to the durations. -/
theorem readStage_cut (hcut : cut <+: record.line.toList) (durations : Dict String Nat) :
    readStage durations (String.ofList cut) = durations ∨
      ∃ duration ≤ record.finish - record.start, readStage durations (String.ofList cut) =
        durations.set ("target." ++ record.stage, duration) := by
  have hstage := tab_notMem (isVisible_of_isStageName record.named)
  have hstart := tab_notMem (isVisible_toString record.start)
  rw [toList_line] at hcut
  rcases cut_cases hstage hcut with hnone | ⟨timing, rfl, htiming⟩
  · left
    simp [readStage, String.toList_ofList, partitionAt_none hnone, partitionAt]
  · rcases cut_cases hstart htiming with hnone | ⟨finish, rfl, hfinish⟩
    · left
      simp [readStage, String.toList_ofList, partitionAt_append hstage, partitionAt_none hnone]
    · have hdigits : ∀ c ∈ finish, c.isDigit = true := fun c hc =>
        isDigit_toString c (hfinish.subset hc)
      have hlength : finish.length ≤ intDigitLimit :=
        hfinish.length_le.trans (length_toString record.finish_lt)
      by_cases hempty : finish = []
      · left
        subst hempty
        have hnone : pythonInt (String.ofList []) = none := by decide
        simp only [readStage, String.toList_ofList, partitionAt_append hstage, Option.getD_some,
          partitionAt_append hstart, record.named, if_true, hnone]
      · right
        have hle := ofDigitChars_le hfinish
        rw [ofDigitChars_toString] at hle
        refine ⟨((Nat.ofDigitChars 10 finish 0 : Int) - record.start).toNat, by omega, ?_⟩
        simp only [readStage, String.toList_ofList, partitionAt_append hstage, Option.getD_some,
          partitionAt_append hstart, record.named, if_true, String.ofList_toList,
          pythonInt_toString record.start_lt, pythonInt_digits hempty hdigits hlength]

theorem readStage_line (record : StageRecord) (durations : Dict String Nat) :
    readStage durations record.line =
      durations.set ("target." ++ record.stage, record.finish - record.start) := by
  have hstage := tab_notMem (isVisible_of_isStageName record.named)
  have hstart := tab_notMem (isVisible_toString record.start)
  simp only [readStage, toList_line, partitionAt_append hstage, Option.getD_some,
    partitionAt_append hstart, record.named, if_true, String.ofList_toList,
    pythonInt_toString record.start_lt, pythonInt_toString record.finish_lt, Int.toNat_sub]

end Line

/-! ## The whole file -/

theorem key_target (stage : String) (duration : Nat) :
    Keyed.key ("target." ++ stage, duration) = "target." ++ stage := rfl

theorem target_injective {stage other : String} (h : "target." ++ stage = "target." ++ other) :
    stage = other := by
  have hchars := congrArg String.toList h
  simp only [String.toList_append] at hchars
  exact String.toList_inj.mp (List.append_cancel_left hchars)

theorem row?_records (records : List StageRecord) (stage : String) :
    ((records.map StageRecord.line).foldl readStage Table.empty).row? ("target." ++ stage) =
      lastDuration records stage := by
  induction records using List.reverseRecOn with
  | nil => rfl
  | append_singleton records record ih =>
      rw [List.map_append, List.foldl_append, List.map_singleton, List.foldl_cons, List.foldl_nil,
        readStage_line, Table.row?_set, key_target, ih]
      simp only [lastDuration, List.reverse_append, List.reverse_singleton, List.singleton_append,
        List.find?_cons]
      by_cases heq : record.stage = stage
      · simp [heq]
      · have hne : "target." ++ record.stage ≠ "target." ++ stage :=
          fun h => heq (target_injective h)
        simp [heq, hne]

theorem splitlines_cut (records : List StageRecord) {cut : String}
    (hcut : ∀ c ∈ cut.toList, isLineBreak c = false) :
    splitlines (textOf (records.map StageRecord.line) ++ cut) =
      records.map StageRecord.line ++ (if cut = "" then [] else [cut]) := by
  have hbreak : ∀ line ∈ records.map StageRecord.line, ∀ c ∈ line.toList,
      isLineBreak c = false := by
    intro line hline
    obtain ⟨record, hrecord, rfl⟩ := List.mem_map.mp hline
    exact isLineBreak_line record
  generalize records.map StageRecord.line = lines at hbreak
  have hreturn : '\r' ∉ (lines.flatMap fun line => line.toList ++ ['\n']) ++ cut.toList := by
    intro hmem
    rcases List.mem_append.mp hmem with hmem | hmem
    · obtain ⟨line, hline, hc⟩ := List.mem_flatMap.mp hmem
      rcases List.mem_append.mp hc with hc | hc
      · exact absurd (hbreak line hline _ hc) (by decide)
      · exact absurd (List.mem_singleton.mp hc) (by decide)
    · exact absurd (hcut _ hmem) (by decide)
  rw [splitlines, textOf, String.toList_append, String.toList_ofList,
    universalNewlines_of_notMem hreturn]
  clear hreturn
  induction lines with
  | nil =>
      by_cases hempty : cut = ""
      · subst hempty
        rfl
      · have hne : cut.toList ≠ [] := by simpa using hempty
        simp [stringLines_line hcut hne, hempty]
  | cons line lines ih =>
      rw [List.forall_mem_cons] at hbreak
      rw [List.flatMap_cons, List.append_assoc, List.append_assoc, List.singleton_append,
        stringLines_append hbreak.1, List.map_cons, ih hbreak.2, String.ofList_toList]
      rfl

/-- Reading back what the script has written, with the last line cut anywhere: every stage has
the duration of its last record, except that the stage of the line that was cut may have a
shorter one. -/
theorem telemetry_reads (records : List StageRecord) (last : StageRecord) (cut stage : String)
    (hcut : cut.toList <+: last.line.toList) :
    (cut = "" ∨ stage ≠ last.stage →
      (telemetry (textOf (records.map StageRecord.line) ++ cut)).row? ("target." ++ stage) =
        lastDuration records stage) ∧
    ((telemetry (textOf (records.map StageRecord.line) ++ cut)).row? ("target." ++ stage) =
        lastDuration records stage ∨
      ∃ duration ≤ last.finish - last.start,
        (telemetry (textOf (records.map StageRecord.line) ++ cut)).row? ("target." ++ stage) =
          some ("target." ++ stage, duration)) := by
  have hbreak : ∀ c ∈ cut.toList, isLineBreak c = false :=
    fun c hc => isLineBreak_line last c (hcut.subset hc)
  rw [telemetry, splitlines_cut records hbreak, List.foldl_append]
  by_cases hempty : cut = ""
  · rw [if_pos hempty, List.foldl_nil, row?_records]
    exact ⟨fun _ => rfl, .inl rfl⟩
  · rw [if_neg hempty, List.foldl_cons, List.foldl_nil]
    rcases readStage_cut hcut ((records.map StageRecord.line).foldl readStage Table.empty) with
      hsame | ⟨duration, hle, hset⟩
    · rw [String.ofList_toList] at hsame
      rw [hsame, row?_records]
      exact ⟨fun _ => rfl, .inl rfl⟩
    · rw [String.ofList_toList] at hset
      rw [hset, Table.row?_set, key_target, row?_records]
      by_cases hstage : "target." ++ last.stage = "target." ++ stage
      · obtain rfl := target_injective hstage
        rw [if_pos rfl]
        exact ⟨fun h => absurd rfl (h.resolve_left hempty), .inr ⟨duration, hle, rfl⟩⟩
      · rw [if_neg hstage]
        exact ⟨fun _ => rfl, .inl rfl⟩

/-- Two stages that have ended. -/
def endedStages : List StageRecord :=
  [⟨"node-local-stage", 1000, 1250, by decide, by decide, by decide⟩,
    ⟨"application", 1250, 9000, by decide, by decide, by decide⟩]

theorem telemetry_reads_cut :
    (telemetry (textOf (endedStages.map StageRecord.line) ++ "application\t9000\t90")).row?
      ("target." ++ "node-local-stage") = some ("target." ++ "node-local-stage", 250) := by
  let last : StageRecord := ⟨"application", 9000, 9050, by decide, by decide, by decide⟩
  have hcut : "application\t9000\t90".toList <+: last.line.toList := by decide
  exact (telemetry_reads endedStages last _ "node-local-stage" hcut).1 (.inr (by decide))

end QhpcEcosystem
