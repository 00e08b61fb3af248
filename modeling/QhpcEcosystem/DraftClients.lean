/-
Clients that create, read, update and delete workflow drafts.  A call is one
transaction or several with gaps in which other clients act; the state records
the rows that were written and the replies that were received.
-/
import QhpcEcosystem.TransitionSystem
import QhpcEcosystem.WorkflowDrafts
import Mathlib.Data.Fintype.Basic

namespace QhpcEcosystem

/-! ## Calls of clients -/

inductive DraftCall where
  | create (workflow : Value) (layout : Option Value) (createdBy : String)
  | get (draftId : Uuid)
  | update (draftId : Uuid) (workflow layout : Value) (expectedRevision : Int)
  | delete (draftId : Uuid) (expectedRevision : Int)

inductive DraftAnswer where
  | draft (row : WorkflowDraft)
  | deleted (draftId : Uuid) (revision : Int)

/-- What a call has done to the drafts. -/
inductive DraftEffect where
  | none
  | wrote (row : WorkflowDraft)
  | removed (draftId : Uuid)

/-- Where a client stands: between calls, before the `UPDATE` of a call, or before
the final read of a call that has written its row. -/
inductive DraftPc where
  | idle
  | prepared (call : DraftCall) (candidate : WorkflowDraft) (expectedRevision : Int)
  | stored (call : DraftCall) (row : WorkflowDraft)

/-- A call that ended. -/
structure DraftReply (κ : Type) where
  client : κ
  call : DraftCall
  effect : DraftEffect
  outcome : Except Exn DraftAnswer

structure DraftState (κ : Type) where
  drafts : Table WorkflowDraft := Table.empty
  draftIds : Uuid := 0
  pc : κ → DraftPc := fun _ => .idle
  written : List (κ × WorkflowDraft) := []
  replies : List (DraftReply κ) := []

/-- A client begins a call, takes the next transaction of its call, or stops. -/
inductive DraftLabel (κ : Type) where
  | begin (client : κ) (call : DraftCall) (now : Time)
  | advance (client : κ)
  | stop (client : κ)

namespace DraftState

variable {κ : Type} [DecidableEq κ]

def setPc (s : DraftState κ) (client : κ) (pc : DraftPc) : DraftState κ :=
  { s with pc := Function.update s.pc client pc }

/-- The call of a client ends. -/
def reply (s : DraftState κ) (client : κ) (call : DraftCall) (effect : DraftEffect)
    (outcome : Except Exn DraftAnswer) : DraftState κ :=
  { s.setPc client .idle with
    replies := s.replies ++ [⟨client, call, effect, outcome⟩] }

/-- A client has written a row. -/
def store (s : DraftState κ) (client : κ) (call : DraftCall) (row : WorkflowDraft)
    (drafts : Table WorkflowDraft) : DraftState κ :=
  { s.setPc client (.stored call row) with
    drafts := drafts
    written := s.written ++ [(client, row)] }

/-- The first transaction of a call. -/
def begin (contracts : DocumentContracts) (s : DraftState κ) (client : κ) (now : Time)
    (call : DraftCall) : DraftState κ :=
  match call with
  | .create workflow layout createdBy =>
      let drawn := { s with draftIds := s.draftIds + 1 }
      match insertDraft contracts s.drafts s.draftIds now workflow layout createdBy with
      | .error error => drawn.reply client call .none (.error error)
      | .ok (row, drafts) => drawn.store client call row drafts
  | .get draftId =>
      s.reply client call .none ((getWorkflowDraft s.drafts draftId).map .draft)
  | .update draftId workflow layout expectedRevision =>
      match prepareUpdate contracts s.drafts now draftId workflow layout expectedRevision with
      | .error error => s.reply client call .none (.error error)
      | .ok candidate => s.setPc client (.prepared call candidate expectedRevision)
  | .delete draftId expectedRevision =>
      match deleteWorkflowDraft s.drafts draftId expectedRevision with
      | .error error => s.reply client call .none (.error error)
      | .ok drafts => { s with drafts := drafts }.reply client call (.removed draftId)
          (.ok (.deleted draftId expectedRevision))

/-- The next transaction of a call that has begun. -/
def advance (s : DraftState κ) (client : κ) : Option (DraftState κ) :=
  match s.pc client with
  | .idle => none
  | .prepared call candidate expectedRevision =>
      match saveDraft s.drafts candidate expectedRevision with
      | .error error => some (s.reply client call .none (.error error))
      | .ok (row, drafts) => some (s.store client call row drafts)
  | .stored call row => some (s.reply client call (.wrote row)
      ((getWorkflowDraft s.drafts row.id).map .draft))

end DraftState

/-- Any number of clients over one table of drafts. -/
def draftSystem (contracts : DocumentContracts) (κ : Type) [DecidableEq κ] :
    TransitionSystem (DraftState κ) (DraftLabel κ) where
  Initial s := s = {}
  step s label :=
    match label with
    | .begin client call now =>
        match s.pc client with
        | .idle => some (s.begin contracts client now call)
        | _ => none
    | .advance client => s.advance client
    | .stop client => some (s.setPc client .idle)

/-! ## What a step can do -/

/-- The call can write the row. -/
def DraftCall.Writes (call : DraftCall) (row : WorkflowDraft) : Prop :=
  match call with
  | .create workflow layout _ =>
      row.revision = 1 ∧ row.workflow = workflow ∧ row.layout = chosenLayout layout
  | .update draftId workflow layout expectedRevision =>
      row.id = draftId ∧ row.revision = expectedRevision + 1 ∧ row.workflow = workflow ∧
        row.layout = layout
  | _ => False

/-- The possible steps of a client. -/
inductive DraftState.Change {κ : Type} [DecidableEq κ] (s : DraftState κ) :
    DraftLabel κ → DraftState κ → Prop
  | failed {label : DraftLabel κ} {client : κ} {call : DraftCall} {error : Exn}
      {ids : Uuid} : s.draftIds ≤ ids →
      s.Change label ({ s with draftIds := ids }.reply client call .none (.error error))
  | answered {client : κ} {draftId : Uuid} {now : Time} {row : WorkflowDraft} :
      s.drafts.row? draftId = some row →
      s.Change (.begin client (.get draftId) now)
        (s.reply client (.get draftId) .none (.ok (.draft row)))
  | prepared {client : κ} {call : DraftCall} {now : Time} {candidate : WorkflowDraft}
      {expectedRevision : Int} : call.Writes candidate →
      candidate.revision = expectedRevision + 1 →
      s.Change (.begin client call now)
        (s.setPc client (.prepared call candidate expectedRevision))
  | inserted {client : κ} {call : DraftCall} {now : Time} {row : WorkflowDraft}
      {drafts : Table WorkflowDraft} : call.Writes row → row.id = s.draftIds →
      row.revision = 1 → s.drafts.insert? row = some drafts →
      s.Change (.begin client call now)
        ({ s with draftIds := s.draftIds + 1 }.store client call row drafts)
  | saved {client : κ} {call : DraftCall} {candidate old : WorkflowDraft}
      {expectedRevision : Int} :
      s.pc client = .prepared call candidate expectedRevision →
      s.drafts.row? candidate.id = some old → old.revision = expectedRevision →
      s.Change (.advance client) (s.store client call (candidate.save.apply old)
        (s.drafts.update candidate.id candidate.save))
  | removed {client : κ} {draftId : Uuid} {expectedRevision : Int} {now : Time}
      {old : WorkflowDraft} : s.drafts.row? draftId = some old →
      old.revision = expectedRevision →
      s.Change (.begin client (.delete draftId expectedRevision) now)
        ({ s with drafts := s.drafts.remove draftId }.reply client
          (.delete draftId expectedRevision) (.removed draftId)
          (.ok (.deleted draftId expectedRevision)))
  | finished {client : κ} {call : DraftCall} {row : WorkflowDraft} :
      s.pc client = .stored call row →
      s.Change (.advance client) (s.reply client call (.wrote row)
        ((getWorkflowDraft s.drafts row.id).map .draft))
  | stopped {client : κ} : s.Change (.stop client) (s.setPc client .idle)

section Step

variable {contracts : DocumentContracts} {κ : Type} [DecidableEq κ] {s s' : DraftState κ}
  {label : DraftLabel κ}

theorem DraftState.change_begin (client : κ) (now : Time) (call : DraftCall) :
    s.Change (.begin client call now) (s.begin contracts client now call) := by
  unfold DraftState.begin
  cases call with
  | create workflow layout createdBy =>
      dsimp only
      split
      · exact .failed (Nat.le_succ _)
      · next row drafts hok =>
          obtain ⟨hinsert, hid, hrevision, hworkflow, hlayout⟩ := insertDraft_ok hok
          exact .inserted ⟨hrevision, hworkflow, hlayout⟩ hid hrevision hinsert
  | get draftId =>
      dsimp only
      cases hget : getWorkflowDraft s.drafts draftId with
      | error error => exact .failed le_rfl
      | ok row => exact .answered (getWorkflowDraft_ok hget)
  | update draftId workflow layout expectedRevision =>
      dsimp only
      split
      · exact .failed le_rfl
      · next candidate hok =>
          obtain ⟨hid, hrevision, hworkflow, hlayout⟩ := prepareUpdate_ok hok
          exact .prepared ⟨hid, hrevision, hworkflow, hlayout⟩ hrevision
  | delete draftId expectedRevision =>
      dsimp only
      split
      · exact .failed le_rfl
      · next drafts hok =>
          obtain ⟨old, hold, hrevision, rfl⟩ := deleteWorkflowDraft_ok hok
          exact .removed hold hrevision

/-- Every step of a client is one of the listed changes. -/
theorem DraftState.change_of_step (h : (draftSystem contracts κ).step s label = some s') :
    s.Change label s' := by
  cases label with
  | begin client call now =>
      simp only [draftSystem] at h
      split at h
      · cases h
        exact DraftState.change_begin client now call
      · cases h
  | advance client =>
      simp only [draftSystem, DraftState.advance] at h
      split at h
      · cases h
      · next call candidate expectedRevision hpc =>
          split at h
          · cases h
            exact .failed le_rfl
          · next row drafts hok =>
              cases h
              obtain ⟨old, hold, hrevision, rfl, rfl⟩ := saveDraft_ok hok
              exact .saved hpc hold hrevision
      · next call row hpc =>
          cases h
          exact .finished hpc
  | stop client =>
      cases h
      exact .stopped

end Step

/-! ## The chain of revisions -/

/-- The rows of a draft in the order in which they were written. -/
def DraftState.rowsOf {κ : Type} (s : DraftState κ) (draftId : Uuid) : List WorkflowDraft :=
  (s.written.map Prod.snd).filter fun row => row.id = draftId

/-- A call has deleted the draft. -/
def DraftState.Deleted {κ : Type} (s : DraftState κ) (draftId : Uuid) : Prop :=
  ∃ reply ∈ s.replies, reply.effect = .removed draftId

/-- The rows written to a draft have the revisions 1, 2, 3, ..., the table holds
the last one until the draft is deleted, and calls and replies name written rows. -/
structure DraftState.Chained {κ : Type} (s : DraftState κ) : Prop where
  drawn : ∀ entry ∈ s.written, entry.2.id < s.draftIds
  deletedDrawn : ∀ draftId, s.Deleted draftId → draftId < s.draftIds
  revisions : ∀ draftId, (s.rowsOf draftId).map WorkflowDraft.revision =
    (List.range (s.rowsOf draftId).length).map fun i : Nat => (i : Int) + 1
  table : ∀ draftId row, s.drafts.row? draftId = some row ↔
    ¬ s.Deleted draftId ∧ (s.rowsOf draftId).getLast? = some row
  prepared : ∀ client call candidate expectedRevision,
    s.pc client = .prepared call candidate expectedRevision →
    call.Writes candidate ∧ candidate.revision = expectedRevision + 1
  stored : ∀ client call row, s.pc client = .stored call row →
    (client, row) ∈ s.written ∧ call.Writes row
  answers : ∀ reply ∈ s.replies, ∀ row, reply.outcome = .ok (.draft row) →
    ∃ client, (client, row) ∈ s.written

namespace DraftState

section Access

variable {κ : Type} [DecidableEq κ] {s : DraftState κ} {client other : κ} {call : DraftCall}
  {effect : DraftEffect} {outcome : Except Exn DraftAnswer} {row : WorkflowDraft}
  {drafts : Table WorkflowDraft} {draftId : Uuid} {pc : DraftPc}

theorem deleted_reply : (s.reply client call effect outcome).Deleted draftId ↔
    s.Deleted draftId ∨ effect = .removed draftId := by
  simp only [Deleted, reply, List.mem_append, List.mem_singleton]
  constructor
  · rintro ⟨found, hfound | rfl, heffect⟩
    · exact .inl ⟨found, hfound, heffect⟩
    · exact .inr heffect
  · rintro (⟨found, hfound, heffect⟩ | heffect)
    · exact ⟨found, .inl hfound, heffect⟩
    · exact ⟨_, .inr rfl, heffect⟩

theorem rowsOf_store : (s.store client call row drafts).rowsOf draftId =
    s.rowsOf draftId ++ if row.id = draftId then [row] else [] := by
  simp only [rowsOf, store, List.map_append, List.filter_append, List.map_cons, List.map_nil,
    List.filter_singleton]
  congr 1
  by_cases hid : row.id = draftId
  · simp [hid]
  · simp [hid]

omit [DecidableEq κ] in
theorem mem_rowsOf : row ∈ s.rowsOf draftId ↔
    (∃ client, (client, row) ∈ s.written) ∧ row.id = draftId := by
  simp [rowsOf]

theorem pc_reply : (s.reply client call effect outcome).pc other =
    if other = client then .idle else s.pc other := by
  simp [reply, setPc, Function.update_apply]

theorem pc_store : (s.store client call row drafts).pc other =
    if other = client then .stored call row else s.pc other := by
  simp [store, setPc, Function.update_apply]

theorem pc_setPc : (s.setPc client pc).pc other = if other = client then pc else s.pc other := by
  simp [setPc, Function.update_apply]

end Access

namespace Chained

variable {κ : Type} {s : DraftState κ} (h : s.Chained)

include h

/-- The revision of the last row counts the rows. -/
theorem revision_last {draftId : Uuid} {row : WorkflowDraft}
    (hlast : (s.rowsOf draftId).getLast? = some row) :
    row.revision = (s.rowsOf draftId).length := by
  have hmap := congrArg List.getLast? (h.revisions draftId)
  rw [List.getLast?_map, hlast] at hmap
  have hpos : 0 < (s.rowsOf draftId).length := by
    cases hrows : s.rowsOf draftId with
    | nil => simp [hrows] at hlast
    | cons head rest => simp
  rw [List.getLast?_map, List.getLast?_range] at hmap
  simp only [if_neg (Nat.pos_iff_ne_zero.mp hpos), Option.map_some, Option.some.injEq] at hmap
  omega

theorem nodup_revisions (draftId : Uuid) :
    ((s.rowsOf draftId).map WorkflowDraft.revision).Nodup := by
  rw [h.revisions draftId]
  refine List.nodup_range.map fun i j heq => ?_
  have heq : (i : Int) + 1 = (j : Int) + 1 := heq
  omega

/-- A draft has one row of each revision. -/
theorem eq_of_revision {draftId : Uuid} {row row' : WorkflowDraft}
    (hrow : row ∈ s.rowsOf draftId) (hrow' : row' ∈ s.rowsOf draftId)
    (hrevision : row.revision = row'.revision) : row = row' :=
  List.inj_on_of_nodup_map (h.nodup_revisions draftId) hrow hrow' hrevision

theorem row_of_table {draftId : Uuid} {row : WorkflowDraft}
    (hrow : s.drafts.row? draftId = some row) : row ∈ s.rowsOf draftId :=
  List.mem_of_getLast? ((h.table draftId row).mp hrow).2

variable [DecidableEq κ] {client : κ} {call : DraftCall}

omit [DecidableEq κ] in
theorem draw {ids : Uuid} (hids : s.draftIds ≤ ids) :
    ({ s with draftIds := ids } : DraftState κ).Chained :=
  { h with
    drawn := fun entry hentry => (h.drawn entry hentry).trans_le hids
    deletedDrawn := fun draftId hdeleted => (h.deletedDrawn draftId hdeleted).trans_le hids }

theorem setPc {pc : DraftPc}
    (hprepared : ∀ call candidate expectedRevision,
      pc = .prepared call candidate expectedRevision →
      call.Writes candidate ∧ candidate.revision = expectedRevision + 1)
    (hstored : ∀ call row, pc ≠ .stored call row) : (s.setPc client pc).Chained where
  drawn := h.drawn
  deletedDrawn := h.deletedDrawn
  revisions := h.revisions
  table := h.table
  prepared other call candidate expectedRevision hpc := by
    rw [pc_setPc] at hpc
    split at hpc
    · exact hprepared call candidate expectedRevision hpc
    · exact h.prepared other call candidate expectedRevision hpc
  stored other call row hpc := by
    rw [pc_setPc] at hpc
    split at hpc
    · exact absurd hpc (hstored call row)
    · exact h.stored other call row hpc
  answers := h.answers

/-- A reply of a call that deletes nothing. -/
theorem reply {effect : DraftEffect} {outcome : Except Exn DraftAnswer}
    (heffect : ∀ draftId, effect ≠ .removed draftId)
    (hanswer : ∀ row, outcome = .ok (.draft row) → ∃ client, (client, row) ∈ s.written) :
    (s.reply client call effect outcome).Chained where
  drawn := h.drawn
  deletedDrawn draftId hdeleted :=
    h.deletedDrawn draftId ((deleted_reply.mp hdeleted).resolve_right (heffect draftId))
  revisions := h.revisions
  table draftId row := by
    rw [deleted_reply, or_iff_left (heffect draftId)]
    exact h.table draftId row
  prepared other call candidate expectedRevision hpc := by
    rw [pc_reply] at hpc
    split at hpc
    · cases hpc
    · exact h.prepared other call candidate expectedRevision hpc
  stored other call row hpc := by
    rw [pc_reply] at hpc
    split at hpc
    · cases hpc
    · exact h.stored other call row hpc
  answers found hfound row hrow := by
    simp only [DraftState.reply, List.mem_append, List.mem_singleton] at hfound
    rcases hfound with hfound | rfl
    · exact h.answers found hfound row hrow
    · exact hanswer row hrow

/-- A reply of a call that has deleted a draft. -/
theorem delete {draftId : Uuid} {old : WorkflowDraft}
    (hold : s.drafts.row? draftId = some old) {expectedRevision : Int} :
    (({ s with drafts := s.drafts.remove draftId } : DraftState κ).reply client call
      (.removed draftId) (.ok (.deleted draftId expectedRevision))).Chained where
  drawn := h.drawn
  deletedDrawn other hdeleted := by
    rcases deleted_reply.mp hdeleted with hdeleted | heffect
    · exact h.deletedDrawn other hdeleted
    · cases heffect
      obtain ⟨⟨client, hmem⟩, hid⟩ := mem_rowsOf.mp (h.row_of_table hold)
      rw [← hid]
      exact h.drawn _ hmem
  revisions := h.revisions
  table other row := by
    rw [deleted_reply]
    change (s.drafts.remove draftId).row? other = some row ↔ _
    rw [Table.row?_remove]
    by_cases hother : other = draftId
    · simp [hother]
    · rw [if_neg hother, h.table other row]
      have hne : ¬ DraftEffect.removed draftId = .removed other := by
        intro heq
        cases heq
        exact hother rfl
      rw [or_iff_left hne]
      rfl
  prepared other call candidate expectedRevision hpc := by
    rw [pc_reply] at hpc
    split at hpc
    · cases hpc
    · exact h.prepared other call candidate expectedRevision hpc
  stored other call row hpc := by
    rw [pc_reply] at hpc
    split at hpc
    · cases hpc
    · exact h.stored other call row hpc
  answers found hfound row hrow := by
    simp only [DraftState.reply, List.mem_append, List.mem_singleton] at hfound
    rcases hfound with hfound | rfl
    · exact h.answers found hfound row hrow
    · cases hrow

/-- A row with the next revision of its draft. -/
theorem store {row : WorkflowDraft} {drafts : Table WorkflowDraft} (hwrites : call.Writes row)
    (hdrawn : row.id < s.draftIds) (hdeleted : ¬ s.Deleted row.id)
    (hrevision : row.revision = (s.rowsOf row.id).length + 1)
    (htable : ∀ draftId found, drafts.row? draftId = some found ↔
      if draftId = row.id then row = found else s.drafts.row? draftId = some found) :
    (s.store client call row drafts).Chained where
  drawn entry hentry := by
    simp only [DraftState.store, List.mem_append, List.mem_singleton] at hentry
    rcases hentry with hold | rfl
    · exact h.drawn entry hold
    · exact hdrawn
  deletedDrawn := h.deletedDrawn
  revisions draftId := by
    rw [rowsOf_store]
    split
    · next hid =>
        subst hid
        rw [List.map_append, h.revisions, List.length_append, List.length_singleton,
          List.range_succ, List.map_append, List.map_singleton, List.map_singleton, hrevision]
    · rw [List.append_nil, h.revisions]
  table draftId found := by
    rw [rowsOf_store]
    change drafts.row? draftId = some found ↔ ¬ s.Deleted draftId ∧ _
    rw [htable]
    by_cases hid : draftId = row.id
    · simp [hid, hdeleted]
    · rw [if_neg hid, if_neg (fun heq => hid heq.symm), List.append_nil]
      exact h.table draftId found
  prepared other call candidate expectedRevision hpc := by
    rw [pc_store] at hpc
    split at hpc
    · cases hpc
    · exact h.prepared other call candidate expectedRevision hpc
  stored other call' row' hpc := by
    rw [pc_store] at hpc
    split at hpc
    · next heq =>
        cases hpc
        refine ⟨?_, hwrites⟩
        rw [heq]
        exact List.mem_append_right _ List.mem_cons_self
    · obtain ⟨hmem, hwrote⟩ := h.stored other call' row' hpc
      exact ⟨List.mem_append_left _ hmem, hwrote⟩
  answers found hfound answer hanswer := by
    obtain ⟨client, hmem⟩ := h.answers found hfound answer hanswer
    exact ⟨client, List.mem_append_left _ hmem⟩

/-- Every step of a client keeps the chain. -/
theorem change {label : DraftLabel κ} {s' : DraftState κ} (hchange : s.Change label s') :
    s'.Chained := by
  cases hchange with
  | failed hids =>
      exact (h.draw hids).reply (fun _ heq => by cases heq) fun _ heq => by cases heq
  | @answered _ draftId _ row hrow =>
      refine h.reply (fun _ heq => by cases heq) fun found hfound => ?_
      cases hfound
      exact (mem_rowsOf.mp (h.row_of_table hrow)).1
  | prepared hwrites hrevision =>
      refine h.setPc (fun _ _ _ heq => ?_) fun _ _ heq => by cases heq
      cases heq
      exact ⟨hwrites, hrevision⟩
  | @inserted client call _ row drafts hwrites hid hrevision hinsert =>
      -- the identifier was not drawn before, so the draft has no rows
      have hempty : s.rowsOf row.id = [] := by
        rw [List.eq_nil_iff_forall_not_mem]
        intro old hold
        obtain ⟨⟨writer, hmem⟩, hsame⟩ := mem_rowsOf.mp hold
        have hlow := h.drawn _ hmem
        rw [hsame, hid] at hlow
        exact lt_irrefl _ hlow
      refine (h.draw (Nat.le_succ _)).store hwrites ?_ ?_ ?_ fun draftId found => ?_
      · rw [hid]
        exact Nat.lt_succ_self _
      · intro hdeleted
        have hlow := h.deletedDrawn _ hdeleted
        rw [hid] at hlow
        exact lt_irrefl _ hlow
      · change row.revision = (s.rowsOf row.id).length + 1
        rw [hempty, hrevision]
        rfl
      · rw [Table.row?_insert? hinsert]
        by_cases hsame : draftId = row.id
        · simp [hsame]
        · have hne : ¬ row.id = draftId := fun heq => hsame heq.symm
          simp [hsame, hne]
  | @saved client call candidate old expectedRevision hpc hold hrevision =>
      obtain ⟨hwrites, hnext⟩ := h.prepared _ _ _ _ hpc
      have hid : old.id = candidate.id := Table.key_of_row? hold
      obtain ⟨hdeleted, hlast⟩ := (h.table candidate.id old).mp hold
      have hcount := h.revision_last hlast
      refine h.store ?_ ?_ ?_ ?_ fun draftId found => ?_
      · cases call with
        | create workflow layout createdBy => exact hwrites
        | update draftId workflow layout expected =>
            exact ⟨hid.trans hwrites.1, hwrites.2⟩
        | get draftId => exact hwrites
        | delete draftId expected => exact hwrites
      · obtain ⟨⟨writer, hmem⟩, -⟩ := mem_rowsOf.mp (h.row_of_table hold)
        exact h.drawn _ hmem
      · change ¬ s.Deleted old.id
        rw [hid]
        exact hdeleted
      · change candidate.revision = (s.rowsOf old.id).length + 1
        rw [hid, ← hcount, hrevision]
        exact hnext
      · change (s.drafts.update candidate.id candidate.save).row? draftId = some found ↔
          if draftId = old.id then candidate.save.apply old = found else _
        rw [hid]
        by_cases hsame : draftId = candidate.id
        · rw [if_pos hsame, hsame, Table.row?_update_self, hold]
          simp
        · rw [if_neg hsame, Table.row?_update_of_ne _ _ hsame]
  | removed hold _ => exact h.delete hold
  | finished hpc =>
      refine h.reply (fun _ heq => by cases heq) fun found hfound => ?_
      cases hget : getWorkflowDraft s.drafts _ with
      | error error =>
          rw [hget] at hfound
          cases hfound
      | ok row =>
          rw [hget] at hfound
          cases hfound
          exact (mem_rowsOf.mp (h.row_of_table (getWorkflowDraft_ok hget))).1
  | stopped => exact h.setPc (fun _ _ _ heq => by cases heq) fun _ _ heq => by cases heq

end Chained

end DraftState

/-! ## Reads that follow their own write -/

/-- The draft whose row the client has written and will read. -/
def DraftPc.awaits : DraftPc → Option Uuid
  | .stored _ row => some row.id
  | _ => none

/-- The draft whose row a step replaces or deletes. -/
def DraftState.replaces {κ : Type} (s : DraftState κ) : DraftLabel κ → Option Uuid
  | .begin _ (.delete draftId expectedRevision) _ =>
      if (s.drafts.row? draftId).any fun row => row.revision = expectedRevision
      then some draftId else none
  | .advance client =>
      match s.pc client with
      | .prepared _ candidate expectedRevision =>
          if (s.drafts.row? candidate.id).any fun row => row.revision = expectedRevision
          then some candidate.id else none
      | _ => none
  | _ => none

/-- No row is replaced or deleted between the write of a call and its final read. -/
def readsSettled {κ : Type} (s : DraftState κ) (label : DraftLabel κ) : Prop :=
  ∀ client, s.replaces label = none ∨ (s.pc client).awaits ≠ s.replaces label

instance {κ : Type} [Fintype κ] (s : DraftState κ) (label : DraftLabel κ) :
    Decidable (readsSettled s label) :=
  inferInstanceAs (Decidable (∀ client, s.replaces label = none ∨
    (s.pc client).awaits ≠ s.replaces label))

/-- What a call that returned has done, and what it returned. -/
def DraftReply.Accords {κ : Type} (reply : DraftReply κ) (written : List (κ × WorkflowDraft))
    (answer : DraftAnswer) : Prop :=
  match reply.call with
  | .create _ _ _ | .update _ _ _ _ => ∃ row, answer = .draft row ∧
      reply.effect = .wrote row ∧ reply.call.Writes row ∧ (reply.client, row) ∈ written
  | .get draftId => ∃ row, answer = .draft row ∧ row.id = draftId ∧ reply.effect = .none
  | .delete draftId expectedRevision =>
      answer = .deleted draftId expectedRevision ∧ reply.effect = .removed draftId

/-- A call between its write and its read finds its row, a call that raised has done
nothing, and a call that returned has done what it returned. -/
structure DraftState.Settled {κ : Type} (s : DraftState κ) : Prop where
  current : ∀ client call row, s.pc client = .stored call row →
    s.drafts.row? row.id = some row
  raised : ∀ reply ∈ s.replies, ∀ error, reply.outcome = .error error → reply.effect = .none
  returned : ∀ reply ∈ s.replies, ∀ answer, reply.outcome = .ok answer →
    reply.Accords s.written answer

theorem DraftReply.Accords.mono {κ : Type} {reply : DraftReply κ}
    {written written' : List (κ × WorkflowDraft)} {answer : DraftAnswer}
    (h : reply.Accords written answer) (hsubset : written ⊆ written') :
    reply.Accords written' answer := by
  obtain ⟨client, call, effect, outcome⟩ := reply
  cases call with
  | create workflow layout createdBy =>
      obtain ⟨row, hanswer, heffect, hwrites, hmem⟩ := h
      exact ⟨row, hanswer, heffect, hwrites, hsubset hmem⟩
  | update draftId workflow layout expectedRevision =>
      obtain ⟨row, hanswer, heffect, hwrites, hmem⟩ := h
      exact ⟨row, hanswer, heffect, hwrites, hsubset hmem⟩
  | get draftId => exact h
  | delete draftId expectedRevision => exact h

/-- A call that writes a row returns it. -/
theorem DraftCall.Writes.accords {κ : Type} {call : DraftCall} {row : WorkflowDraft}
    (h : call.Writes row) {client : κ} {written : List (κ × WorkflowDraft)}
    (hmem : (client, row) ∈ written) {outcome : Except Exn DraftAnswer} :
    (⟨client, call, .wrote row, outcome⟩ : DraftReply κ).Accords written (.draft row) := by
  cases call with
  | create workflow layout createdBy => exact ⟨row, rfl, rfl, h, hmem⟩
  | update draftId workflow layout expectedRevision => exact ⟨row, rfl, rfl, h, hmem⟩
  | get draftId => exact h.elim
  | delete draftId expectedRevision => exact h.elim

namespace DraftState.Settled

variable {κ : Type} [DecidableEq κ] {s : DraftState κ} (h : s.Settled) {client : κ}
  {call : DraftCall}

include h

theorem setPc {pc : DraftPc} (hstored : ∀ call row, pc ≠ .stored call row) :
    (s.setPc client pc).Settled where
  current other call row hpc := by
    rw [pc_setPc] at hpc
    split at hpc
    · exact absurd hpc (hstored call row)
    · exact h.current other call row hpc
  raised := h.raised
  returned := h.returned

/-- A reply that accords with what the call has done. -/
theorem reply {ids : Uuid} {drafts : Table WorkflowDraft} {effect : DraftEffect}
    {outcome : Except Exn DraftAnswer}
    (hdrafts : ∀ other call row, s.pc other = .stored call row → other ≠ client →
      drafts.row? row.id = some row)
    (hraised : ∀ error, outcome = .error error → effect = .none)
    (hreturned : ∀ answer, outcome = .ok answer →
      (⟨client, call, effect, outcome⟩ : DraftReply κ).Accords s.written answer) :
    (({ s with draftIds := ids, drafts := drafts } : DraftState κ).reply client call effect
      outcome).Settled where
  current other call row hpc := by
    rw [pc_reply] at hpc
    split at hpc
    · cases hpc
    · next hne => exact hdrafts other call row hpc hne
  raised found hfound error herror := by
    simp only [DraftState.reply, List.mem_append, List.mem_singleton] at hfound
    rcases hfound with hfound | rfl
    · exact h.raised found hfound error herror
    · exact hraised error herror
  returned found hfound answer hanswer := by
    simp only [DraftState.reply, List.mem_append, List.mem_singleton] at hfound
    rcases hfound with hfound | rfl
    · exact h.returned found hfound answer hanswer
    · exact hreturned answer hanswer

/-- A row that no other call is about to read is written. -/
theorem store {ids : Uuid} {row : WorkflowDraft} {drafts : Table WorkflowDraft}
    (hrow : drafts.row? row.id = some row)
    (hdrafts : ∀ other call row, s.pc other = .stored call row →
      drafts.row? row.id = some row) :
    (({ s with draftIds := ids } : DraftState κ).store client call row drafts).Settled where
  current other call' row' hpc := by
    rw [pc_store] at hpc
    split at hpc
    · cases hpc
      exact hrow
    · exact hdrafts other call' row' hpc
  raised := h.raised
  returned found hfound answer hanswer :=
    (h.returned found hfound answer hanswer).mono (List.subset_append_left _ _)

/-- Every step that leaves the reads settled keeps calls and replies in accord. -/
theorem change (hchained : s.Chained) {label : DraftLabel κ} {s' : DraftState κ}
    (hguard : readsSettled s label) (hchange : s.Change label s') : s'.Settled := by
  cases hchange with
  | failed hids =>
      exact h.reply (fun other call row hpc _ => h.current other call row hpc)
        (fun _ _ => rfl) fun _ heq => by cases heq
  | @answered client draftId _ row hrow =>
      refine h.reply (fun other call row hpc _ => h.current other call row hpc)
        (fun _ heq => by cases heq) fun answer hanswer => ?_
      cases hanswer
      exact ⟨row, rfl, Table.key_of_row? hrow, rfl⟩
  | prepared hwrites hrevision => exact h.setPc fun _ _ heq => by cases heq
  | @inserted client call _ row drafts hwrites hid hrevision hinsert =>
      refine h.store ?_ fun other call' row' hpc => ?_
      · rw [Table.row?_insert? hinsert]
        simp
      · have hlow := hchained.drawn _ (hchained.stored other call' row' hpc).1
        have hne : ¬ row.id = row'.id := by
          rw [hid]
          exact (Nat.ne_of_lt hlow).symm
        rw [Table.row?_insert? hinsert, WorkflowDraft.key_eq, if_neg hne]
        exact h.current other call' row' hpc
  | @saved client call candidate old expectedRevision hpc hold hrevision =>
      have hreplaces : s.replaces (.advance client) = some candidate.id := by
        simp [DraftState.replaces, hpc, hold, hrevision]
      have hid : old.id = candidate.id := Table.key_of_row? hold
      refine h.store ?_ fun other call' row' hstored => ?_
      · change (s.drafts.update candidate.id candidate.save).row? old.id = _
        rw [hid, Table.row?_update_self, hold]
        rfl
      · have hne : row'.id ≠ candidate.id := by
          intro heq
          have hother := hguard other
          simp [hreplaces, hstored, DraftPc.awaits, heq] at hother
        rw [Table.row?_update_of_ne _ _ hne]
        exact h.current other call' row' hstored
  | @removed client draftId expectedRevision now old hold hrevision =>
      have hreplaces : s.replaces (.begin client (.delete draftId expectedRevision) now) =
          some draftId := by
        simp [DraftState.replaces, hold, hrevision]
      refine h.reply (fun other call' row' hstored _ => ?_) (fun _ heq => by cases heq)
        fun answer hanswer => ?_
      · have hne : row'.id ≠ draftId := by
          intro heq
          have hother := hguard other
          simp [hreplaces, hstored, DraftPc.awaits, heq] at hother
        rw [Table.row?_remove, if_neg hne]
        exact h.current other call' row' hstored
      · cases hanswer
        exact ⟨rfl, rfl⟩
  | @finished client call row hpc =>
      obtain ⟨hmem, hwrites⟩ := hchained.stored client call row hpc
      have hget : getWorkflowDraft s.drafts row.id = .ok row := by
        simp [getWorkflowDraft, h.current client call row hpc]
      rw [hget]
      refine h.reply (fun other call' row' hstored _ => h.current other call' row' hstored)
        (fun _ heq => by cases heq) fun answer hanswer => ?_
      cases hanswer
      exact hwrites.accords hmem
  | stopped => exact h.setPc fun _ _ heq => by cases heq

end DraftState.Settled

/-! ## Draft updates are not lost -/

/-- The rows of a draft have the revisions 1, 2, 3, ... and at most one of each, the
table holds what the calls have done, a call that raised has done nothing, an update
that returned has stored what it returned, and a client that passes the revision of a
reply replaces a row of its own or one that it has read. -/
structure DraftState.Kept {κ : Type} (s : DraftState κ) : Prop where
  revisions : ∀ draftId, (s.rowsOf draftId).map WorkflowDraft.revision =
    (List.range (s.rowsOf draftId).length).map fun i : Nat => (i : Int) + 1
  once : ∀ draftId (expectedRevision : Int), ((s.rowsOf draftId).filter fun row =>
    row.revision = expectedRevision + 1).length ≤ 1
  table : ∀ draftId row, s.drafts.row? draftId = some row ↔
    ¬ s.Deleted draftId ∧ (s.rowsOf draftId).getLast? = some row
  raised : ∀ reply ∈ s.replies, ∀ error, reply.outcome = .error error → reply.effect = .none
  returned : ∀ reply ∈ s.replies, ∀ draftId workflow layout expectedRevision answer,
    reply.call = .update draftId workflow layout expectedRevision →
    reply.outcome = .ok answer → ∃ row, answer = .draft row ∧
      reply.effect = .wrote row ∧ (reply.client, row) ∈ s.written ∧ row.id = draftId ∧
      row.revision = expectedRevision + 1 ∧ row.workflow = workflow ∧ row.layout = layout
  informed : ∀ client call candidate expectedRevision old,
    s.pc client = .prepared call candidate expectedRevision →
    s.drafts.row? candidate.id = some old → old.revision = expectedRevision →
    (∃ reply ∈ s.replies, reply.client = client ∧ ∃ row, reply.outcome = .ok (.draft row) ∧
      row.id = candidate.id ∧ row.revision = expectedRevision) →
    (client, old) ∈ s.written ∨ ∃ reply ∈ s.replies, reply.client = client ∧
      reply.call = .get candidate.id ∧ reply.outcome = .ok (.draft old)

section Reachable

variable {contracts : DocumentContracts} {κ : Type} [DecidableEq κ] {s : DraftState κ}

omit [DecidableEq κ] in
theorem DraftState.chained_empty : ({} : DraftState κ).Chained where
  drawn := by simp
  deletedDrawn := by simp [DraftState.Deleted]
  revisions := by simp [DraftState.rowsOf]
  table := by simp [DraftState.rowsOf]
  prepared := by simp
  stored := by simp
  answers := by simp

theorem drafts_chained {guard : DraftState κ → DraftLabel κ → Prop}
    (h : (draftSystem contracts κ).Reachable guard s) : s.Chained := by
  refine h.invariant DraftState.Chained (fun s hs => ?_) fun s label s' _ hs _ hstep =>
    hs.change (DraftState.change_of_step hstep)
  cases hs
  exact DraftState.chained_empty

theorem drafts_settled (h : (draftSystem contracts κ).Reachable readsSettled s) :
    s.Settled := by
  refine h.invariant DraftState.Settled (fun s hs => ?_) fun s label s' hreach hs hguard hstep =>
    hs.change (drafts_chained hreach) hguard (DraftState.change_of_step hstep)
  cases hs
  exact ⟨by simp, by simp, by simp⟩

/-- Draft updates are not lost in runs in which no row is replaced or deleted between
the write of a call and its final read. -/
theorem draft_updates_kept (h : (draftSystem contracts κ).Reachable readsSettled s) :
    s.Kept where
  revisions := (drafts_chained h).revisions
  once draftId expectedRevision := by
    have hcount := List.nodup_iff_count_le_one.mp ((drafts_chained h).nodup_revisions draftId)
      (expectedRevision + 1)
    rw [List.count, List.countP_map, List.countP_eq_length_filter] at hcount
    exact hcount
  table := (drafts_chained h).table
  raised := (drafts_settled h).raised
  returned reply hreply draftId workflow layout expectedRevision answer hcall hok := by
    have haccords := (drafts_settled h).returned reply hreply answer hok
    simp only [DraftReply.Accords, hcall] at haccords
    obtain ⟨row, hanswer, heffect, hwrites, hmem⟩ := haccords
    exact ⟨row, hanswer, heffect, hmem, hwrites⟩
  informed client call candidate expectedRevision old hpc hold hrevision hreply := by
    obtain ⟨reply, hmem, hclient, row, hok, hid, hreplied⟩ := hreply
    have hchained := drafts_chained h
    obtain ⟨writer, hwritten⟩ := hchained.answers reply hmem row hok
    -- the reply shows the row that is about to be replaced
    have hsame : row = old := by
      refine hchained.eq_of_revision (DraftState.mem_rowsOf.mpr ⟨⟨writer, hwritten⟩, hid⟩)
        (hchained.row_of_table hold) (hreplied.trans hrevision.symm)
    subst hsame
    have haccords := (drafts_settled h).returned reply hmem _ hok
    unfold DraftReply.Accords at haccords
    split at haccords
    · obtain ⟨found, hanswer, -, -, hwrote⟩ := haccords
      cases hanswer
      exact .inl (hclient ▸ hwrote)
    · obtain ⟨found, hanswer, -, -, hwrote⟩ := haccords
      cases hanswer
      exact .inl (hclient ▸ hwrote)
    · next draftId hcall =>
        obtain ⟨found, hanswer, hfound, -⟩ := haccords
        cases hanswer
        exact .inr ⟨reply, hmem, hclient, by rw [hcall, ← hfound, hid], hok⟩
    · obtain ⟨hanswer, -⟩ := haccords
      cases hanswer

end Reachable

/-! ## Sample clients -/

/-- A client creates a draft and another one reads and updates it. -/
def savedDraft : List (DraftLabel (Fin 2)) :=
  [.begin 0 (.create (sampleDocument "1.0.0") none "sample") 0, .advance 0,
   .begin 1 (.get 0) 1,
   .begin 1 (.update 0 (sampleDocument "2.0.0") defaultDraftLayout 1) 2, .advance 1,
   .advance 1]

/-- A second update falls between the write of an update and its final read. -/
def overtakenUpdate : List (DraftLabel (Fin 2)) :=
  [.begin 0 (.create (sampleDocument "1.0.0") none "sample") 0, .advance 0,
   .begin 0 (.update 0 (sampleDocument "2.0.0") defaultDraftLayout 1) 1, .advance 0,
   .begin 1 (.update 0 (sampleDocument "3.0.0") defaultDraftLayout 2) 2, .advance 1,
   .advance 0]

/-- The overtaken update returns the revision and the content of the other one. -/
theorem draft_update_misreported :
    let s := (draftSystem sampleContracts (Fin 2)).after (fun _ _ => true) {} overtakenUpdate
    (∃ reply ∈ s.replies, reply.client = 0 ∧
      reply.call = .update 0 (sampleDocument "2.0.0") defaultDraftLayout 1 ∧
      ∃ row, reply.outcome = .ok (.draft row) ∧ row.revision = 3 ∧
        row.workflow = sampleDocument "3.0.0") ∧ ¬ s.Kept := by
  intro s
  have hreply : ∃ reply ∈ s.replies, reply.client = 0 ∧
      reply.call = .update 0 (sampleDocument "2.0.0") defaultDraftLayout 1 ∧
      ∃ row, reply.outcome = .ok (.draft row) ∧ row.revision = 3 ∧
        row.workflow = sampleDocument "3.0.0" := by
    refine ⟨_, List.mem_cons_of_mem _ List.mem_cons_self, rfl, rfl, _, rfl, rfl, rfl⟩
  refine ⟨hreply, fun hkept => ?_⟩
  obtain ⟨reply, hmem, -, hcall, row, hok, hrevision, -⟩ := hreply
  obtain ⟨found, hanswer, -, -, -, hnext, -⟩ :=
    hkept.returned reply hmem _ _ _ _ _ hcall hok
  cases hanswer
  omega

theorem draft_updates_kept_saved :
    let s := (draftSystem sampleContracts (Fin 2)).after
      (fun s label => decide (readsSettled s label)) {} savedDraft
    s.replies.length = 3 ∧ (s.drafts.row? 0).map WorkflowDraft.revision = some 2 ∧ s.Kept := by
  have hreach : (draftSystem sampleContracts (Fin 2)).Reachable readsSettled
      ((draftSystem sampleContracts (Fin 2)).after
        (fun s label => decide (readsSettled s label)) {} savedDraft) :=
    ((TransitionSystem.Reachable.initial rfl).after savedDraft).weaken
      fun _ _ hguard => of_decide_eq_true hguard
  exact ⟨by decide, by decide, draft_updates_kept hreach⟩

end QhpcEcosystem
