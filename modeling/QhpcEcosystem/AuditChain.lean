/-
The chain of the audit log.  What one process appends verifies, and the digest of the last
event determines all events before it.
-/
import QhpcEcosystem.AuditLog
import Mathlib.Data.List.Induction

namespace QhpcEcosystem

universe u

/-! ## Lines -/

section Lines

variable {text line : List Char}

/-- Every line ends with a line break. -/
def Terminated (text : List Char) : Prop := text = [] ∨ ∃ lines, text = lines ++ ['\n']

theorem auditLines_append (htext : Terminated text) (hreturn : '\r' ∉ text)
    (hprintable : line.all JsonText.isPrintable = true) (hblank : line.all isSpace = false) :
    auditLines (text ++ line ++ ['\n']) = auditLines text ++ [line] := by
  have hnotMem : ∀ c, JsonText.isPrintable c = false → c ∉ line := by
    intro c hc hmem
    rw [List.all_eq_true.mp hprintable c hmem] at hc
    cases hc
  have hreturn' : '\r' ∉ text ++ line ++ ['\n'] := by
    simp only [List.mem_append, List.mem_singleton, not_or]
    exact ⟨⟨hreturn, hnotMem '\r' rfl⟩, by decide⟩
  have hline : splitLines (line ++ ['\n']) = [line, []] := by
    rw [splitLines_append, splitLines_of_notMem (hnotMem '\n' rfl)]
    rfl
  rw [auditLines, auditLines, universalNewlines_of_notMem hreturn,
    universalNewlines_of_notMem hreturn']
  obtain rfl | ⟨lines, rfl⟩ := htext
  · rw [List.nil_append, hline]
    simp [splitLines, hblank]
  · have hlines : splitLines (lines ++ ['\n'] ++ line ++ ['\n']) =
        splitLines lines ++ [line, []] := by
      rw [List.append_assoc, List.append_assoc, List.singleton_append, splitLines_append, hline]
    rw [hlines, splitLines_append]
    simp [splitLines, hblank]

end Lines

/-! ## What one process appends -/

section Append

variable {F : Type u} {format : FloatFormat F} {hexdigest : List Char → List Char}

theorem ascii_zeroDigest : ∀ c ∈ zeroDigest, c.toNat < 0x80 := by
  have hall : (zeroDigest.all fun c => c.toNat < 0x80) = true := by decide
  simpa only [List.all_eq_true, decide_eq_true_eq] using hall

/-- The digests are texts of ASCII characters. -/
theorem ascii_eventDigest (hhex : ∀ text, ∀ c ∈ hexdigest text, c ∈ "0123456789abcdef".toList)
    (previous : List Char) (members : List (JsonText × Json F)) :
    ∀ c ∈ eventDigest format hexdigest previous members, c.toNat < 0x80 := by
  intro c hc
  rcases List.mem_append.mp hc with hc | hc
  · have hprefix : ∀ d ∈ "sha256:".toList, d.toNat < 0x80 := by simp
    exact hprefix c hc
  · have hdigits : ∀ d ∈ "0123456789abcdef".toList, d.toNat < 0x80 := by simp
    exact hdigits c (hhex _ c hc)

theorem JsonText.ascii?_ofChars {text : List Char} (h : ∀ c ∈ text, c.toNat < 0x80) :
    (JsonText.ofChars text).ascii? = some text := by
  have hunit : ∀ c ∈ text, (UInt16.ofNat c.toNat).toNat = c.toNat := by
    intro c hc
    have hlt := h c hc
    rw [UInt16.toNat_ofNat', Nat.mod_eq_of_lt (by omega)]
  rw [JsonText.ofChars_ascii h, JsonText.ascii?, if_pos]
  · rw [List.map_map]
    refine congrArg some ((List.map_congr_left (g := id) fun c hc => ?_).trans (List.map_id text))
    rw [Function.comp_apply, hunit c hc]
    exact Char.ofNat_toNat c
  · rw [List.all_map, List.all_eq_true]
    intro c hc
    rw [Function.comp_apply, hunit c hc, decide_eq_true_eq]
    exact h c hc

def bodyNames : List JsonText :=
  ["timestamp", "actor", "action", "resource", "outcome", "details", "previous_digest"].map
    JsonText.ofString

theorem bodyNames_nodup : (bodyNames ++ [digestName]).Nodup := by decide

theorem AuditEntry.body_names (entry : AuditEntry F) (previous : List Char) :
    (entry.body previous).map Prod.fst = bodyNames := rfl

theorem AuditEntry.body_distinct (entry : AuditEntry F) (previous : List Char) (digest : JsonText) :
    DistinctObject (entry.body previous ++ [(digestName, .str digest)]) := by
  refine ⟨?_, fun member hmember => ?_⟩
  · rw [List.map_append, entry.body_names]
    exact bodyNames_nodup
  simp only [AuditEntry.body, List.cons_append, List.nil_append, List.mem_cons,
    List.not_mem_nil, or_false] at hmember
  have hdetails := Json.distinct_obj.mpr entry.details.distinct
  rcases hmember with rfl | rfl | rfl | rfl | rfl | rfl | rfl | rfl
  all_goals trivial

/-- The members of a line that `append` has written, as they are loaded. -/
theorem loads_auditLine (format : FloatFormat F) (hexdigest : List Char → List Char)
    (previous : List Char) (entry : AuditEntry F) :
    ∃ members digest, Json.loads format (auditLine format hexdigest previous entry) =
        some (.obj members) ∧ DistinctObject members ∧
      digest = JsonText.ofChars (eventDigest format hexdigest previous (entry.body previous)) ∧
      members.Perm (Json.sortedMembers (entry.body previous ++ [(digestName, .str digest)])) := by
  have hdistinct := entry.body_distinct previous
    (JsonText.ofChars (eventDigest format hexdigest previous (entry.body previous)))
  have hloads := Json.loads_dumps format .spaced
    (Json.distinct_obj.mpr hdistinct)
  have hsorted := Json.sorted_distinct (Json.distinct_obj.mpr hdistinct)
  rw [Json.sorted, Json.distinct_obj] at hsorted
  rw [Json.sorted] at hloads
  exact ⟨_, _, hloads, hsorted, rfl, List.perm_insertionSort _ _⟩

theorem popMember_sortedMembers {members : List (JsonText × Json F)} {name : JsonText}
    {value : Json F} (h : name ∉ members.map Prod.fst) :
    popMember (Json.sortedMembers (members ++ [(name, value)])) name =
      Json.sortedMembers members := by
  have hkept : (Json.sortedMembers members).filter (fun member => member.1 ≠ name) =
      Json.sortedMembers members := by
    refine List.filter_eq_self.mpr fun member hmember => decide_eq_true ?_
    rintro rfl
    rw [Json.sortedMembers_eq] at hmember
    obtain ⟨old, hold, rfl⟩ := List.mem_map.mp hmember
    exact h (List.mem_map.mpr ⟨old, hold, rfl⟩)
  rw [popMember, Json.sortedMembers_append, List.filter_append, hkept]
  simp [Json.sortedMembers]

/-- What is loaded has the same canonical form as what was appended. -/
theorem eventDigest_popMember {previous expected : List Char} {entry : AuditEntry F}
    {digest : JsonText} {members : List (JsonText × Json F)} (hdistinct : DistinctObject members)
    (hperm : members.Perm
      (Json.sortedMembers (entry.body previous ++ [(digestName, .str digest)]))) :
    eventDigest format hexdigest expected (popMember members digestName) =
      eventDigest format hexdigest expected (entry.body previous) := by
  have hbody : digestName ∉ (entry.body previous).map Prod.fst := by
    rw [entry.body_names]
    decide
  have hrest : popMember (Json.sortedMembers (entry.body previous ++ [(digestName, .str digest)]))
      digestName = Json.sortedMembers (entry.body previous) := popMember_sortedMembers hbody
  have hpop : (popMember members digestName).Perm (Json.sortedMembers (entry.body previous)) := by
    rw [← hrest]
    exact hperm.filter _
  have hsorted := (Json.sorted_congr hpop (popMember_distinct hdistinct).1).trans
    (Json.sorted_sortedMembers (entry.body previous))
  exact congrArg (fun value : Json F =>
    "sha256:".toList ++ hexdigest (expected ++ value.write format .compact)) hsorted

theorem mem_sortedMembers_of_str {members : List (JsonText × Json F)} {name text : JsonText}
    (h : (name, Json.str text) ∈ members) : (name, Json.str text) ∈ Json.sortedMembers members := by
  rw [Json.sortedMembers_eq]
  exact List.mem_map_of_mem (f := fun member => (member.1, member.2.sorted)) h

/-- A line verifies after the digest that it was written with, and after no other. -/
theorem verifyLine_auditLine (previous expected : List Char) (entry : AuditEntry F) :
    verifyLine format hexdigest expected (auditLine format hexdigest previous entry) =
      if JsonText.ofChars (eventDigest format hexdigest previous (entry.body previous)) =
            JsonText.ofChars (eventDigest format hexdigest expected (entry.body previous)) ∧
          JsonText.ofChars previous = JsonText.ofChars expected
      then some (eventDigest format hexdigest expected (entry.body previous)) else none := by
  obtain ⟨members, digest, hloads, hdistinct, rfl, hperm⟩ :=
    loads_auditLine format hexdigest previous entry
  have hdigest := member?_of_mem hdistinct.1 (hperm.mem_iff.mpr
    (mem_sortedMembers_of_str (List.mem_append_right _ List.mem_cons_self)))
  have hmem : (previousName, Json.str (JsonText.ofChars previous)) ∈
      popMember members digestName := by
    refine List.mem_filter.mpr ⟨hperm.mem_iff.mpr (mem_sortedMembers_of_str
      (List.mem_append_left _ ?_)), decide_eq_true (by decide : previousName ≠ digestName)⟩
    simp [AuditEntry.body]
  have hprevious := member?_of_mem (popMember_distinct hdistinct).1 hmem
  rw [verifyLine, hloads]
  dsimp only
  rw [eventDigest_popMember hdistinct hperm, hdigest, hprevious]
  simp only [Option.any_some, Json.isText, Bool.and_eq_true, decide_eq_true_eq]

theorem verifyLines_append (lines more : List (List Char)) (state : List Char × Nat) :
    verifyLines format hexdigest (lines ++ more) state =
      (verifyLines format hexdigest lines state).bind (verifyLines format hexdigest more) := by
  induction lines generalizing state with
  | nil => rfl
  | cons line lines ih =>
      obtain ⟨previous, count⟩ := state
      simp only [List.cons_append, verifyLines, Option.bind_assoc, ih]

/-- A file of whole lines that verifies, with its last digest and the number of its events. -/
structure Chained (format : FloatFormat F) (hexdigest : List Char → List Char) (text : List Char)
    (digest : List Char) (count : Nat) : Prop where
  terminated : Terminated text
  noReturn : '\r' ∉ text
  verified : verifyLines format hexdigest (auditLines text) (zeroDigest, 0) = some (digest, count)
  last : lastDigest format text = some digest

theorem Chained.verifyLog_eq {text digest : List Char} {count : Nat}
    (h : Chained format hexdigest text digest count) :
    verifyLog format hexdigest text = some count := by
  rw [verifyLog, h.verified]
  rfl

theorem chained_empty (format : FloatFormat F) (hexdigest : List Char → List Char) :
    Chained format hexdigest [] zeroDigest 0 :=
  ⟨.inl rfl, List.not_mem_nil, rfl, rfl⟩

theorem auditLine_printable (previous : List Char) (entry : AuditEntry F) :
    (auditLine format hexdigest previous entry).all JsonText.isPrintable = true :=
  Json.write_printable rfl _

theorem auditLines_auditLine {text : List Char} (hterminated : Terminated text)
    (hreturn : '\r' ∉ text) (previous : List Char) (entry : AuditEntry F) :
    auditLines (text ++ auditLine format hexdigest previous entry ++ ['\n']) =
      auditLines text ++ [auditLine format hexdigest previous entry] := by
  refine auditLines_append hterminated hreturn (auditLine_printable previous entry) ?_
  obtain ⟨tail, htail⟩ := Json.dumps_obj_head format .spaced (entry.body previous ++
    [(digestName, Json.str
      (JsonText.ofChars (eventDigest format hexdigest previous (entry.body previous))))])
  rw [auditLine, htail]
  rfl

theorem lastDigest_auditLine {text : List Char}
    (hhex : ∀ text, ∀ c ∈ hexdigest text, c ∈ "0123456789abcdef".toList)
    (hterminated : Terminated text) (hreturn : '\r' ∉ text) (previous : List Char)
    (entry : AuditEntry F) :
    lastDigest format (text ++ auditLine format hexdigest previous entry ++ ['\n']) =
      some (eventDigest format hexdigest previous (entry.body previous)) := by
  obtain ⟨members, digest, hloads, hdistinct, rfl, hperm⟩ :=
    loads_auditLine format hexdigest previous entry
  have hdigest := member?_of_mem hdistinct.1 (hperm.mem_iff.mpr
    (mem_sortedMembers_of_str (List.mem_append_right _ List.mem_cons_self)))
  rw [lastDigest, auditLines_auditLine hterminated hreturn, List.getLast?_concat]
  dsimp only
  rw [hloads]
  dsimp only
  rw [hdigest]
  exact JsonText.ascii?_ofChars (ascii_eventDigest hhex _ _)

/-- An event that is written after the last digest is one more in the chain. -/
theorem Chained.append {text digest : List Char} {count : Nat}
    (hhex : ∀ text, ∀ c ∈ hexdigest text, c ∈ "0123456789abcdef".toList)
    (h : Chained format hexdigest text digest count) (entry : AuditEntry F) :
    Chained format hexdigest (text ++ auditLine format hexdigest digest entry ++ ['\n'])
      (eventDigest format hexdigest digest (entry.body digest)) (count + 1) := by
  refine ⟨.inr ⟨_, rfl⟩, ?_, ?_, lastDigest_auditLine hhex h.terminated h.noReturn digest entry⟩
  · have hline : '\r' ∉ auditLine format hexdigest digest entry := by
      intro hmem
      have hprintable := List.all_eq_true.mp (auditLine_printable digest entry) '\r' hmem
      cases hprintable
    simp only [List.mem_append, List.mem_singleton, not_or]
    exact ⟨⟨h.noReturn, hline⟩, by decide⟩
  · rw [auditLines_auditLine h.terminated h.noReturn, verifyLines_append, h.verified,
      Option.bind_some, verifyLines, verifyLine_auditLine, if_pos ⟨rfl, rfl⟩]
    rfl

/-- What one process appends verifies. -/
theorem chained_foldlM (hhex : ∀ text, ∀ c ∈ hexdigest text, c ∈ "0123456789abcdef".toList)
    (entries : List (AuditEntry F)) {text digest : List Char} {count : Nat}
    (h : Chained format hexdigest text digest count) :
    ∃ text' digest', entries.foldlM (appendEvent format hexdigest) text = some text' ∧
      Chained format hexdigest text' digest' (count + entries.length) := by
  induction entries generalizing text digest count with
  | nil => exact ⟨text, digest, rfl, h⟩
  | cons entry entries ih =>
      obtain ⟨text', digest', hfold, hchained⟩ := ih (h.append hhex entry)
      refine ⟨text', digest', ?_, ?_⟩
      · rw [List.foldlM_cons, appendEvent, h.last]
        exact hfold
      · rw [List.length_cons, Nat.add_comm entries.length 1, ← Nat.add_assoc]
        exact hchained

end Append

/-! ## What the last digest determines -/

section Determined

variable {F : Type u} {format : FloatFormat F} {hexdigest : List Char → List Char}

theorem verifyLine_eq_some {previous line digest : List Char}
    (h : verifyLine format hexdigest previous line = some digest) :
    ∃ members, Json.loads format line = some (.obj members) ∧ DistinctObject members ∧
      digest = eventDigest format hexdigest previous (popMember members digestName) ∧
      (digestName, Json.str (JsonText.ofChars digest)) ∈ members := by
  unfold verifyLine at h
  split at h
  · next members hloads =>
      dsimp only at h
      split at h
      · next hchecks =>
          cases h
          refine ⟨members, hloads, Json.distinct_obj.mp (Json.loads_distinct hloads), rfl, ?_⟩
          obtain ⟨value, hvalue, htext⟩ :=
            (Option.any_eq_true _ _).mp (Bool.and_eq_true_iff.mp hchecks).1
          have hmem := mem_of_member? hvalue
          cases value with
          | str text =>
              rw [Json.isText, decide_eq_true_eq] at htext
              exact htext ▸ hmem
          | null | bool | int | float | arr | obj => cases htext
      · cases h
  · cases h

/-- A digest of the chain has no brace. -/
theorem brace_notMem_eventDigest
    (hhex : ∀ text, ∀ c ∈ hexdigest text, c ∈ "0123456789abcdef".toList) (previous : List Char)
    (members : List (JsonText × Json F)) :
    '{' ∉ eventDigest format hexdigest previous members := by
  have hprefix : '{' ∉ "sha256:".toList := by decide
  have hdigits : '{' ∉ "0123456789abcdef".toList := by decide
  intro hmem
  rcases List.mem_append.mp hmem with hmem | hmem
  · exact hprefix hmem
  · exact hdigits (hhex _ _ hmem)

theorem append_cons_inj {brace : Char} {a a' b b' : List Char} (ha : brace ∉ a) (ha' : brace ∉ a')
    (h : a ++ brace :: b = a' ++ brace :: b') : a = a' ∧ b = b' := by
  have htake : ∀ {a b : List Char}, brace ∉ a →
      (a ++ brace :: b).takeWhile (fun c => c ≠ brace) = a := by
    intro a b hnot
    rw [List.takeWhile_append_of_pos]
    · simp
    · exact fun c hc => decide_eq_true fun heq => hnot (heq ▸ hc)
  obtain rfl : a = a' := by rw [← htake (b := b) ha, h, htake ha']
  exact ⟨rfl, (List.cons.inj (List.append_cancel_left h)).2⟩

/-- Equal digests come from equal digests before them and equal events. -/
theorem eventDigest_inj (hinj : Function.Injective hexdigest) {previous previous' : List Char}
    {members members' : List (JsonText × Json F)} (hprevious : '{' ∉ previous)
    (hprevious' : '{' ∉ previous') (hmembers : DistinctObject members)
    (hmembers' : DistinctObject members')
    (h : eventDigest format hexdigest previous members =
      eventDigest format hexdigest previous' members') :
    previous = previous' ∧ (Json.obj members).sorted = (Json.obj members').sorted := by
  have hhashed := hinj (List.append_cancel_left h)
  obtain ⟨tail, htail⟩ := Json.dumps_obj_head format .compact members
  obtain ⟨tail', htail'⟩ := Json.dumps_obj_head format .compact members'
  rw [canonical, canonical, htail, htail'] at hhashed
  obtain ⟨heq, hrest⟩ := append_cons_inj hprevious hprevious' hhashed
  refine ⟨heq, Json.sorted_of_dumps_eq format .compact
    (Json.distinct_obj.mpr hmembers) (Json.distinct_obj.mpr hmembers') ?_⟩
  rw [htail, htail', hrest]

theorem perm_of_sorted_eq {members members' : List (JsonText × Json F)}
    (h : (Json.obj members).sorted = (Json.obj members').sorted) :
    (Json.sortedMembers members).Perm (Json.sortedMembers members') := by
  have hperm := List.perm_insertionSort (fun a b => memberLe a b = true)
    (Json.sortedMembers members)
  rw [Json.sorted, Json.sorted, Json.obj.injEq] at h
  rw [h] at hperm
  exact hperm.symm.trans (List.perm_insertionSort _ _)

/-- Events with one digest that are the same without it are the same. -/
theorem sorted_of_popMember {members members' : List (JsonText × Json F)} {digest : JsonText}
    (hmembers : DistinctObject members) (hmembers' : DistinctObject members')
    (hmem : (digestName, Json.str digest) ∈ members)
    (hmem' : (digestName, Json.str digest) ∈ members')
    (h : (Json.obj (popMember members digestName)).sorted =
      (Json.obj (popMember members' digestName)).sorted) :
    (Json.obj members).sorted = (Json.obj members').sorted := by
  have hperm := perm_popMember hmembers.1 hmem
  have hperm' := perm_popMember hmembers'.1 hmem'
  have hnodup := (hperm.map Prod.fst).nodup_iff.mp hmembers.1
  rw [Json.sorted_congr hperm hmembers.1, Json.sorted_congr hperm' hmembers'.1,
    ← Json.sorted_sortedMembers, ← Json.sorted_sortedMembers (_ ++ _)]
  refine Json.sorted_congr ?_ ?_
  · rw [Json.sortedMembers_append, Json.sortedMembers_append]
    exact (perm_of_sorted_eq h).append_right _
  · rw [Json.sortedMembers_eq, List.map_map]
    exact hnodup

theorem verifyLines_concat {lines : List (List Char)} {line digest : List Char} {count : Nat}
    {state : List Char × Nat}
    (h : verifyLines format hexdigest (lines ++ [line]) state = some (digest, count)) :
    ∃ previous before, verifyLines format hexdigest lines state = some (previous, before) ∧
      verifyLine format hexdigest previous line = some digest ∧ count = before + 1 := by
  rw [verifyLines_append] at h
  obtain ⟨⟨previous, before⟩, hlines, h⟩ := Option.bind_eq_some_iff.mp h
  obtain ⟨found, hline, h⟩ := Option.bind_eq_some_iff.mp h
  cases h
  exact ⟨previous, before, hlines, hline, rfl⟩

/-- The digest of the chain has no brace at any point. -/
theorem brace_notMem_verifyLines
    (hhex : ∀ text, ∀ c ∈ hexdigest text, c ∈ "0123456789abcdef".toList)
    {lines : List (List Char)} {digest : List Char} {count : Nat}
    (h : verifyLines format hexdigest lines (zeroDigest, 0) = some (digest, count)) :
    '{' ∉ digest := by
  rcases List.eq_nil_or_concat' lines with rfl | ⟨lines, line, rfl⟩
  · cases h
    decide
  · obtain ⟨previous, before, -, hline, -⟩ := verifyLines_concat h
    obtain ⟨members, -, -, rfl, -⟩ := verifyLine_eq_some hline
    exact brace_notMem_eventDigest hhex _ _

/-- By induction from the last line: the digest determines the lines before it. -/
theorem verifyLines_determined
    (hhex : ∀ text, ∀ c ∈ hexdigest text, c ∈ "0123456789abcdef".toList)
    (hinj : Function.Injective hexdigest) (hzero : ∀ text, hexdigest text ≠ List.replicate 64 '0')
    {lines lines' : List (List Char)} {digest : List Char} {count count' : Nat}
    (h : verifyLines format hexdigest lines (zeroDigest, 0) = some (digest, count))
    (h' : verifyLines format hexdigest lines' (zeroDigest, 0) = some (digest, count')) :
    count = count' ∧ ∃ events events', lines.mapM (Json.loads format) = some events ∧
      lines'.mapM (Json.loads format) = some events' ∧
      events.map Json.sorted = events'.map Json.sorted := by
  have hnotZero : ∀ {previous line : List Char},
      verifyLine format hexdigest previous line ≠ some zeroDigest := by
    intro previous line hline
    obtain ⟨members, -, -, heq, -⟩ := verifyLine_eq_some hline
    exact hzero _ (List.append_cancel_left heq).symm
  induction lines using List.reverseRecOn generalizing lines' digest count count' with
  | nil =>
      cases h
      rcases List.eq_nil_or_concat' lines' with rfl | ⟨lines', line', rfl⟩
      · cases h'
        exact ⟨rfl, [], [], rfl, rfl, rfl⟩
      · obtain ⟨previous', before', -, hline', -⟩ := verifyLines_concat h'
        exact absurd hline' hnotZero
  | append_singleton lines line ih =>
      obtain ⟨previous, before, hlines, hline, rfl⟩ := verifyLines_concat h
      rcases List.eq_nil_or_concat' lines' with rfl | ⟨lines', line', rfl⟩
      · cases h'
        exact absurd hline hnotZero
      · obtain ⟨previous', before', hlines', hline', rfl⟩ := verifyLines_concat h'
        obtain ⟨members, hloads, hdistinct, rfl, hmem⟩ := verifyLine_eq_some hline
        obtain ⟨members', hloads', hdistinct', heq, hmem'⟩ := verifyLine_eq_some hline'
        obtain ⟨rfl, hsorted⟩ := eventDigest_inj hinj (brace_notMem_verifyLines hhex hlines)
          (brace_notMem_verifyLines hhex hlines') (popMember_distinct hdistinct)
          (popMember_distinct hdistinct') heq
        obtain ⟨rfl, events, events', hevents, hevents', hsame⟩ := ih hlines hlines'
        refine ⟨rfl, events ++ [.obj members], events' ++ [.obj members'], ?_, ?_, ?_⟩
        · rw [List.mapM_append, hevents, List.mapM_cons, hloads]
          rfl
        · rw [List.mapM_append, hevents', List.mapM_cons, hloads']
          rfl
        · rw [List.map_append, List.map_append, hsame, List.map_singleton, List.map_singleton,
            sorted_of_popMember hdistinct hdistinct' hmem hmem' hsorted]

theorem lastDigest_of_verified
    (hhex : ∀ text, ∀ c ∈ hexdigest text, c ∈ "0123456789abcdef".toList)
    {text digest : List Char} {count : Nat}
    (h : verifyLines format hexdigest (auditLines text) (zeroDigest, 0) = some (digest, count)) :
    lastDigest format text = some digest := by
  rw [lastDigest]
  rcases List.eq_nil_or_concat' (auditLines text) with hlines | ⟨lines, line, hlines⟩
  · rw [hlines] at h ⊢
    cases h
    rfl
  · rw [hlines] at h ⊢
    obtain ⟨previous, before, -, hline, -⟩ := verifyLines_concat h
    obtain ⟨members, hloads, hdistinct, rfl, hmem⟩ := verifyLine_eq_some hline
    rw [List.getLast?_concat]
    dsimp only
    rw [hloads]
    dsimp only
    rw [member?_of_mem hdistinct.1 hmem]
    exact JsonText.ascii?_ofChars (ascii_eventDigest hhex _ _)

/-- What one process appends to a file verifies with the number of appended events; and two
files that verify and end with one digest have the same events, up to the order of members.
The digest function stands for SHA-256. -/
theorem audit_chain_exposes (format : FloatFormat F) {hexdigest : List Char → List Char}
    (hhex : ∀ text, ∀ c ∈ hexdigest text, c ∈ "0123456789abcdef".toList)
    (hinj : Function.Injective hexdigest)
    (hzero : ∀ text, hexdigest text ≠ List.replicate 64 '0') :
    (∀ entries : List (AuditEntry F), ∃ text,
      entries.foldlM (appendEvent format hexdigest) [] = some text ∧
        verifyLog format hexdigest text = some entries.length) ∧
    ∀ text text' count count', verifyLog format hexdigest text = some count →
      verifyLog format hexdigest text' = some count' →
      lastDigest format text = lastDigest format text' →
        count = count' ∧ ∃ events events', auditEvents format text = some events ∧
          auditEvents format text' = some events' ∧
          events.map Json.sorted = events'.map Json.sorted := by
  refine ⟨fun entries => ?_, fun text text' count count' h h' hlast => ?_⟩
  · obtain ⟨text, digest, hfold, hchained⟩ :=
      chained_foldlM hhex entries (chained_empty format hexdigest)
    rw [Nat.zero_add] at hchained
    exact ⟨text, hfold, hchained.verifyLog_eq⟩
  · obtain ⟨⟨digest, count⟩, hverified, rfl⟩ := Option.map_eq_some_iff.mp h
    obtain ⟨⟨digest', count'⟩, hverified', rfl⟩ := Option.map_eq_some_iff.mp h'
    rw [lastDigest_of_verified hhex hverified, lastDigest_of_verified hhex hverified'] at hlast
    cases hlast
    exact verifyLines_determined hhex hinj hzero hverified hverified'

end Determined

/-! ## A sample -/

/-- A format without finite numbers. -/
def noFloats : FloatFormat Empty where
  repr := nofun
  parse _ := .nan
  scan_repr := nofun
  parse_repr := nofun

def sampleEntry : AuditEntry Empty where
  timestamp := JsonText.ofString "2026-01-01T00:00:00Z"
  actor := JsonText.ofString "operator"
  action := JsonText.ofString "run.submit"
  resource := JsonText.ofString "run-1"
  outcome := JsonText.ofString "allowed"
  details := ⟨[], .nil⟩

/-- Six hexadecimal digits. -/
def codeDigits (c : Char) : List Char :=
  Nat.digitChar (c.toNat / 0x100000 % 16) :: Nat.digitChar (c.toNat / 0x10000 % 16) ::
    JsonText.hexDigits c.toNat

/-- The SHA-256 digest of the sample's text; other texts are spelled out. -/
def sampleHash (text : List Char) : List Char :=
  if text = zeroDigest ++ canonical noFloats (sampleEntry.body zeroDigest) then
    "5d2fa8da52a64ef39c035dff6c50b38479cffba5931c5aace1c326dd957009a7".toList
  else '1' :: text.flatMap codeDigits

theorem codeDigits_injective : Function.Injective codeDigits := by
  intro c d h
  have hdigit : ∀ {m n : Nat}, Nat.digitChar (m % 16) = Nat.digitChar (n % 16) →
      m % 16 = n % 16 := by
    intro m n heq
    have hvalue := congrArg JsonText.hexValue? heq
    rw [JsonText.hexValue?_digitChar (Nat.mod_lt _ (by decide)),
      JsonText.hexValue?_digitChar (Nat.mod_lt _ (by decide))] at hvalue
    exact Option.some.inj hvalue
  simp only [codeDigits, JsonText.hexDigits, List.cons.injEq, and_true] at h
  obtain ⟨h5, h4, h3, h2, h1, h0⟩ := h
  have hbound : ∀ e : Char, e.toNat < 0x110000 := by
    intro e
    rcases e.valid with hlow | ⟨-, hhigh⟩
    · exact lt_trans hlow (by decide)
    · exact hhigh
  have hc := hbound c
  have hd := hbound d
  have h5 := hdigit h5
  have h4 := hdigit h4
  have h3 := hdigit h3
  have h2 := hdigit h2
  have h1 := hdigit h1
  have h0 := hdigit h0
  exact Char.toNat_inj.mp (by omega)

theorem flatMap_codeDigits_injective :
    Function.Injective fun text : List Char => text.flatMap codeDigits := by
  intro a b h
  induction a generalizing b with
  | nil =>
      cases b with
      | nil => rfl
      | cons d b => cases h
  | cons c a ih =>
      cases b with
      | nil => cases h
      | cons d b =>
          simp only [List.flatMap_cons] at h
          obtain ⟨hhead, htail⟩ := List.append_inj h rfl
          rw [codeDigits_injective hhead, ih htail]

theorem sampleHash_hex (text : List Char) :
    ∀ c ∈ sampleHash text, c ∈ "0123456789abcdef".toList := by
  have hdigit : ∀ n : Nat, Nat.digitChar (n % 16) ∈ "0123456789abcdef".toList := by
    have hall : ∀ m : Fin 16, Nat.digitChar m ∈ "0123456789abcdef".toList := by decide
    exact fun n => hall ⟨n % 16, Nat.mod_lt n (by decide)⟩
  unfold sampleHash
  split
  · have hall : ("5d2fa8da52a64ef39c035dff6c50b38479cffba5931c5aace1c326dd957009a7".toList.all
        "0123456789abcdef".toList.contains) = true := by decide
    simpa only [List.all_eq_true, List.contains_iff_mem] using hall
  · refine List.forall_mem_cons.mpr ⟨by decide, fun c hc => ?_⟩
    obtain ⟨d, -, hc⟩ := List.mem_flatMap.mp hc
    simp only [codeDigits, JsonText.hexDigits, List.mem_cons, List.not_mem_nil, or_false] at hc
    rcases hc with rfl | rfl | rfl | rfl | rfl | rfl <;> exact hdigit _

theorem sampleHash_injective : Function.Injective sampleHash := by
  have hlength : ∀ text : List Char, (text.flatMap codeDigits).length = 6 * text.length := by
    intro text
    rw [List.length_flatMap]
    induction text with
    | nil => rfl
    | cons c text ih =>
        rw [List.map_cons, List.sum_cons, ih, List.length_cons]
        simp only [codeDigits, JsonText.hexDigits, List.length_cons, List.length_nil]
        omega
  -- the digest of the sample has a length that no other has
  have hother : ∀ text : List Char,
      "5d2fa8da52a64ef39c035dff6c50b38479cffba5931c5aace1c326dd957009a7".toList ≠
        '1' :: text.flatMap codeDigits := by
    intro text heq
    have hlengths := congrArg List.length heq
    rw [List.length_cons, hlength] at hlengths
    have hsample : "5d2fa8da52a64ef39c035dff6c50b38479cffba5931c5aace1c326dd957009a7".toList.length =
        64 := by decide
    omega
  intro a b h
  unfold sampleHash at h
  split at h <;> split at h
  · next ha hb => rw [ha, hb]
  · exact absurd h (hother b)
  · exact absurd h.symm (hother a)
  · exact flatMap_codeDigits_injective (List.cons.inj h).2

theorem sampleHash_ne_zero (text : List Char) : sampleHash text ≠ List.replicate 64 '0' := by
  unfold sampleHash
  split
  · decide
  · intro h
    exact absurd (List.cons.inj h).1 (by decide)

theorem audit_chain_exposes_sample : ∃ text,
    [sampleEntry].foldlM (appendEvent noFloats sampleHash) [] = some text ∧
      verifyLog noFloats sampleHash text = some 1 ∧
      ∀ other count, verifyLog noFloats sampleHash other = some count →
        lastDigest noFloats other = lastDigest noFloats text → count = 1 := by
  obtain ⟨hverifies, hdetermined⟩ :=
    audit_chain_exposes noFloats sampleHash_hex sampleHash_injective sampleHash_ne_zero
  obtain ⟨text, hfold, hverified⟩ := hverifies [sampleEntry]
  exact ⟨text, hfold, hverified, fun other count hother hlast =>
    (hdetermined other text count 1 hother hverified hlast).1⟩

end QhpcEcosystem
