/-
Concurrent appends to one audit log.  A call reads the last digest in one step and writes
its line in another, without a lock; the chain is kept as long as the digest that a call has
read is still the last one when it writes.
-/
import QhpcEcosystem.AuditChain
import QhpcEcosystem.TransitionSystem

namespace QhpcEcosystem

universe u

/-- A call of `append`: before it reads the last digest, before it writes, and after. -/
inductive AppendCall (F : Type u) where
  | started (entry : AuditEntry F)
  | ready (entry : AuditEntry F) (previous : List Char)
  | returned

def AppendCall.isReturned {F : Type u} : AppendCall F → Bool
  | .returned => true
  | _ => false

/-- The file, and the calls of all threads and processes in the order in which they start. -/
structure AuditStore (F : Type u) where
  text : List Char := []
  calls : List (AppendCall F) := []

inductive AppendEvent (F : Type u) where
  | start (entry : AuditEntry F)
  | readLast (id : Nat)
  | write (id : Nat)

namespace AuditStore

variable {F : Type u} (format : FloatFormat F) (hexdigest : List Char → List Char)

def step (s : AuditStore F) : AppendEvent F → Option (AuditStore F)
  | .start entry => some { s with calls := s.calls ++ [.started entry] }
  | .readLast id => match s.calls[id]? with
      | some (.started entry) => (lastDigest format s.text).map fun previous =>
          { s with calls := s.calls.set id (.ready entry previous) }
      | _ => none
  | .write id => match s.calls[id]? with
      | some (.ready entry previous) => some {
          text := s.text ++ auditLine format hexdigest previous entry ++ ['\n']
          calls := s.calls.set id .returned }
      | _ => none

/-- A call writes only while the digest that it has read is the last one. -/
def writesFresh (s : AuditStore F) : AppendEvent F → Bool
  | .write id => match s.calls[id]? with
      | some (.ready _ previous) => lastDigest format s.text = some previous
      | _ => true
  | _ => true

/-- The number of calls that have returned. -/
def returned (s : AuditStore F) : Nat := s.calls.countP AppendCall.isReturned

end AuditStore

/-- The calls on one file, which is not there at first. -/
def auditAppends {F : Type u} (format : FloatFormat F) (hexdigest : List Char → List Char) :
    TransitionSystem (AuditStore F) (AppendEvent F) where
  Initial s := s = {}
  step := AuditStore.step format hexdigest

section Chain

variable {F : Type u} {format : FloatFormat F} {hexdigest : List Char → List Char}
  {s s' : AuditStore F}

/-- The file is a chain of the events whose calls have returned. -/
def AuditStore.Verified (format : FloatFormat F) (hexdigest : List Char → List Char)
    (s : AuditStore F) : Prop :=
  ∃ digest, Chained format hexdigest s.text digest s.returned

theorem countP_set_of_eq {calls : List (AppendCall F)} {id : Nat} {call : AppendCall F}
    (hcall : calls[id]? = some call) (next : AppendCall F) :
    (calls.set id next).countP AppendCall.isReturned + (if call.isReturned then 1 else 0) =
      calls.countP AppendCall.isReturned + (if next.isReturned then 1 else 0) := by
  obtain ⟨hlt, hget⟩ := List.getElem?_eq_some_iff.mp hcall
  have hsplit := List.countP_set (p := AppendCall.isReturned) (a := next) hlt
  have hle := List.boole_getElem_le_countP (p := AppendCall.isReturned) hlt
  rw [hget] at hsplit hle
  omega

/-- One step keeps the chain, when what it writes is fresh. -/
theorem AuditStore.Verified.step
    (hhex : ∀ text, ∀ c ∈ hexdigest text, c ∈ "0123456789abcdef".toList)
    (h : s.Verified format hexdigest) {event : AppendEvent F}
    (hfresh : s.writesFresh format event = true)
    (hstep : s.step format hexdigest event = some s') : s'.Verified format hexdigest := by
  obtain ⟨digest, hchained⟩ := h
  cases event with
  | start entry =>
      cases hstep
      refine ⟨digest, ?_⟩
      rw [AuditStore.returned, List.countP_append]
      exact hchained
  | readLast id =>
      simp only [AuditStore.step] at hstep
      split at hstep
      · next entry hcall =>
          obtain ⟨previous, -, rfl⟩ := Option.map_eq_some_iff.mp hstep
          have hcount := countP_set_of_eq hcall (.ready entry previous)
          refine ⟨digest, ?_⟩
          rw [AuditStore.returned, Nat.add_right_cancel hcount]
          exact hchained
      · cases hstep
  | write id =>
      simp only [AuditStore.step] at hstep
      split at hstep
      · next entry previous hcall =>
          cases hstep
          simp only [AuditStore.writesFresh, hcall, decide_eq_true_eq] at hfresh
          obtain rfl : digest = previous := Option.some.inj (hchained.last.symm.trans hfresh)
          have hcount : _ = _ + 1 := countP_set_of_eq hcall .returned
          refine ⟨eventDigest format hexdigest digest (entry.body digest), ?_⟩
          rw [AuditStore.returned, show List.countP _ _ = s.returned + 1 from hcount]
          exact hchained.append hhex entry
      · cases hstep

open TransitionSystem in
/-- In a run in which every line is written after the last digest, the file verifies with the
number of calls that have returned. -/
theorem appends_keep_chain
    (hhex : ∀ text, ∀ c ∈ hexdigest text, c ∈ "0123456789abcdef".toList)
    (hreach : (auditAppends format hexdigest).Reachable
      (fun s event => s.writesFresh format event = true) s) :
    verifyLog format hexdigest s.text = some s.returned := by
  have hverified : s.Verified format hexdigest := by
    refine hreach.invariant (AuditStore.Verified format hexdigest) ?_ ?_
    · rintro s rfl
      exact ⟨zeroDigest, chained_empty format hexdigest⟩
    · intro s event s' _ h hfresh hstep
      exact h.step hhex hfresh hstep
  obtain ⟨digest, hchained⟩ := hverified
  exact hchained.verifyLog_eq

/-- Two lines that were written after the same digest do not verify. -/
theorem verifyLog_twice (hhex : ∀ text, ∀ c ∈ hexdigest text, c ∈ "0123456789abcdef".toList)
    (hzero : ∀ text, hexdigest text ≠ List.replicate 64 '0') (entry other : AuditEntry F) :
    verifyLog format hexdigest ([] ++ auditLine format hexdigest zeroDigest entry ++ ['\n'] ++
      auditLine format hexdigest zeroDigest other ++ ['\n']) = none := by
  have hfirst := (chained_empty format hexdigest).append hhex entry
  have hstale : JsonText.ofChars zeroDigest ≠
      JsonText.ofChars (eventDigest format hexdigest zeroDigest (entry.body zeroDigest)) := by
    intro heq
    have hdigest := JsonText.ofChars_inj_of_ascii ascii_zeroDigest (ascii_eventDigest hhex _ _) heq
    exact hzero _ (List.append_cancel_left hdigest).symm
  rw [verifyLog, auditLines_auditLine hfirst.terminated hfirst.noReturn, verifyLines_append,
    hfirst.verified, Option.bind_some, verifyLines, verifyLine_auditLine,
    if_neg fun hboth => hstale hboth.2]
  rfl

end Chain

def appendsAfter (check : AuditStore Empty → AppendEvent Empty → Bool)
    (events : List (AppendEvent Empty)) : AuditStore Empty :=
  (auditAppends noFloats sampleHash).after check {} events

theorem appendsAfter_reachable (check : AuditStore Empty → AppendEvent Empty → Bool)
    (events : List (AppendEvent Empty)) :
    (auditAppends noFloats sampleHash).Reachable (fun s event => check s event = true)
      (appendsAfter check events) :=
  TransitionSystem.Reachable.after
    (TransitionSystem.Reachable.initial (T := auditAppends noFloats sampleHash) rfl) events

/-- A call that appends alone. -/
theorem appends_keep_chain_alone :
    (appendsAfter (AuditStore.writesFresh noFloats)
      [.start sampleEntry, .readLast 0, .write 0]).returned = 1 ∧
    verifyLog noFloats sampleHash (appendsAfter (AuditStore.writesFresh noFloats)
      [.start sampleEntry, .readLast 0, .write 0]).text =
        some (appendsAfter (AuditStore.writesFresh noFloats)
          [.start sampleEntry, .readLast 0, .write 0]).returned :=
  ⟨by decide, appends_keep_chain sampleHash_hex (appendsAfter_reachable _ _)⟩

/-- Two calls read the same digest before either of them writes. -/
def appendsTogether : List (AppendEvent Empty) :=
  [.start sampleEntry, .start sampleEntry, .readLast 0, .readLast 1, .write 0, .write 1]

open TransitionSystem in
/-- Both calls have returned, and the file does not verify. -/
theorem appends_break_chain : ∃ s, (auditAppends noFloats sampleHash).Reachable anyStep s ∧
    s.returned = 2 ∧ s.calls.length = 2 ∧ verifyLog noFloats sampleHash s.text = none := by
  refine ⟨_, (appendsAfter_reachable (fun _ _ => true) appendsTogether).unguarded, by decide,
    by decide, ?_⟩
  exact verifyLog_twice sampleHash_hex sampleHash_ne_zero sampleEntry sampleEntry

end QhpcEcosystem
