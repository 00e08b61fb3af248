/-
Concurrent registrations of workflows.  `register_workflow` reads the stored digest
without a lock, inserts the version unless it is there and reads the row back, three
transactions between which other callers run.  Stored versions never change; the reply
is the row of the caller as long as nobody stores another digest between its check and
its insertion.
-/
import QhpcEcosystem.AttemptChange
import QhpcEcosystem.WorkflowDrafts

namespace QhpcEcosystem

/-! ## The three transactions -/

/-- The arguments of `register_workflow`: a document that meets the contract of
workflows, and the registry. -/
structure RegistrationCall (contracts : DocumentContracts) where
  document : Value
  workflow : Workflow
  read : contracts.readWorkflow document = .ok workflow
  registry : Registry

section Transactions

variable {contracts : DocumentContracts}

/-- The primary key of the version. -/
def RegistrationCall.key (call : RegistrationCall contracts) : String × String :=
  (call.workflow.id, call.workflow.version)

/-- The digest of the document. -/
def RegistrationCall.digest (call : RegistrationCall contracts) : String :=
  contracts.documentDigest call.document

/-- The stored digest, when there is one, has to be the digest of the call. -/
def checkVersion (db : Db) (call : RegistrationCall contracts) : Except Exn Unit :=
  match db.workflowVersions.row? call.key with
  | some existing =>
      if existing.digest ≠ call.digest then
        .error (contractError
          "workflow version is immutable; publish a new semantic version" [])
      else .ok ()
  | none => .ok ()

def RegistrationCall.row (call : RegistrationCall contracts) (resolved : ResolvedWorkflow) :
    WorkflowRow where
  workflowId := call.workflow.id
  version := call.workflow.version
  digest := call.digest
  definition := call.workflow.stored
  resolution := resolved.operations

/-- `INSERT OR IGNORE`. -/
def insertVersion (db : Db) (call : RegistrationCall contracts) (resolved : ResolvedWorkflow) :
    Db :=
  match db.workflowVersions.insert? (call.row resolved) with
  | none => db
  | some rows => { db with workflowVersions := rows }

/-- `get_workflow`. -/
def getWorkflow (db : Db) (key : String × String) : Except Exn WorkflowRow :=
  match db.workflowVersions.row? key with
  | none => .error ⟨.keyError, "workflow not found: " ++ key.1 ++ "@" ++ key.2, []⟩
  | some row => .ok row

/-- Without a call in between the three are the registration in one transaction. -/
theorem registerWorkflow_eq (db : Db) (call : RegistrationCall contracts) :
    registerWorkflow db call.workflow call.registry call.digest =
      (resolveWorkflow call.workflow call.registry).bind fun resolved =>
        (checkVersion db call).map fun _ => insertVersion db call resolved := by
  unfold registerWorkflow checkVersion
  refine congrArg (Except.bind _) (funext fun resolved => ?_)
  cases hrow : db.workflowVersions.row? call.key with
  | none =>
      simp only [RegistrationCall.key] at hrow
      simp only [hrow, insertVersion, RegistrationCall.row, Except.map]
      cases db.workflowVersions.insert? _ <;> rfl
  | some existing =>
      have hnone : db.workflowVersions.insert? (call.row resolved) = none := by
        refine Option.eq_none_iff_forall_ne_some.mpr fun rows hrows => ?_
        have hfresh := Table.row?_key_of_insert? hrows
        rw [show Keyed.key (call.row resolved) = call.key from rfl, hrow] at hfresh
        cases hfresh
      simp only [RegistrationCall.key] at hrow
      simp only [hrow, insertVersion, hnone]
      split <;> rfl

section Insertion

variable {db : Db} {call : RegistrationCall contracts} {resolved : ResolvedWorkflow}

/-- An insertion keeps what is stored. -/
theorem insertVersion_keeps {key : String × String} {row : WorkflowRow}
    (hrow : db.workflowVersions.row? key = some row) :
    (insertVersion db call resolved).workflowVersions.row? key = some row := by
  unfold insertVersion
  split
  · exact hrow
  · next rows hrows =>
      rw [Table.row?_insert? hrows]
      split
      · next hkey =>
          have hfresh := Table.row?_key_of_insert? hrows
          rw [hkey, hrow] at hfresh
          cases hfresh
      · exact hrow

/-- After an insertion there is a row under the key: the one that was there, or the row
of the call. -/
theorem insertVersion_row :
    ∃ row, (insertVersion db call resolved).workflowVersions.row? call.key = some row ∧
      (db.workflowVersions.row? call.key = some row ∨
        db.workflowVersions.row? call.key = none ∧ row = call.row resolved) := by
  unfold insertVersion
  split
  · next hnone =>
      obtain ⟨found, hfound⟩ := Table.row?_of_insert?_eq_none hnone
      exact ⟨found, hfound, .inl hfound⟩
  · next rows hrows =>
      have hfresh := Table.row?_key_of_insert? hrows
      refine ⟨call.row resolved, ?_, .inr ⟨hfresh, rfl⟩⟩
      rw [Table.row?_insert? hrows]
      exact if_pos rfl

end Insertion

end Transactions

/-! ## Callers -/

/-- The next transaction of a caller. -/
inductive RegistrationPc (contracts : DocumentContracts) where
  | idle
  | checking (call : RegistrationCall contracts) (resolved : ResolvedWorkflow)
  | inserting (call : RegistrationCall contracts) (resolved : ResolvedWorkflow)
  | reading (call : RegistrationCall contracts)

/-- The database with a program point for every caller, and what calls have returned. -/
structure Registrations (contracts : DocumentContracts) (ι : Type) where
  db : Db := {}
  pcs : ι → RegistrationPc contracts := fun _ => .idle
  replies : List (RegistrationCall contracts × WorkflowRow) := []

/-- A caller goes on, stops, or the engine performs another operation. -/
inductive RegistrationLabel (ι : Type) where
  | start (caller : ι) (document : Value) (registry : Registry)
  | check (caller : ι)
  | insert (caller : ι)
  | read (caller : ι)
  | crash (caller : ι)
  | engine (operation : Operation) (now : Time)

namespace Registrations

variable {contracts : DocumentContracts} {ι : Type} [DecidableEq ι]

def setPc (s : Registrations contracts ι) (caller : ι) (pc : RegistrationPc contracts) :
    Registrations contracts ι :=
  { s with pcs := Function.update s.pcs caller pc }

def step (s : Registrations contracts ι) :
    RegistrationLabel ι → Option (Registrations contracts ι)
  | .start caller document registry =>
      match s.pcs caller with
      | .idle =>
          match hread : contracts.readWorkflow document with
          | .error _ => some s
          | .ok workflow =>
              match resolveWorkflow workflow registry with
              | .error _ => some s
              | .ok resolved => some (s.setPc caller
                  (.checking ⟨document, workflow, hread, registry⟩ resolved))
      | _ => none
  | .check caller =>
      match s.pcs caller with
      | .checking call resolved =>
          match checkVersion s.db call with
          | .error _ => some (s.setPc caller .idle)
          | .ok _ => some (s.setPc caller (.inserting call resolved))
      | _ => none
  | .insert caller =>
      match s.pcs caller with
      | .inserting call resolved =>
          some { s.setPc caller (.reading call) with db := insertVersion s.db call resolved }
      | _ => none
  | .read caller =>
      match s.pcs caller with
      | .reading call =>
          match getWorkflow s.db call.key with
          | .error _ => some (s.setPc caller .idle)
          | .ok row => some { s.setPc caller .idle with replies := s.replies ++ [(call, row)] }
      | _ => none
  | .crash caller => some (s.setPc caller .idle)
  | .engine operation now => some { s with db := operation.after now s.db }

end Registrations

/-- The callers over an empty database. -/
def registrationSystem (contracts : DocumentContracts) (ι : Type) [DecidableEq ι] :
    TransitionSystem (Registrations contracts ι) (RegistrationLabel ι) where
  Initial s := s = {}
  step := Registrations.step

namespace Registrations

variable {contracts : DocumentContracts} {ι : Type} [DecidableEq ι]
  {s s' : Registrations contracts ι} {label : RegistrationLabel ι}

/-! ## Steps -/

/-- The possible steps of the system. -/
inductive Step (s : Registrations contracts ι) :
    RegistrationLabel ι → Registrations contracts ι → Prop
  | rejected {caller : ι} {document : Value} {registry : Registry} :
      Step s (.start caller document registry) s
  | started {caller : ι} {call : RegistrationCall contracts} {resolved : ResolvedWorkflow} :
      Step s (.start caller call.document call.registry)
        (s.setPc caller (.checking call resolved))
  | conflict {caller : ι} : Step s (.check caller) (s.setPc caller .idle)
  | checked {caller : ι} {call : RegistrationCall contracts} {resolved : ResolvedWorkflow} :
      Step s (.check caller) (s.setPc caller (.inserting call resolved))
  | inserted {caller : ι} {call : RegistrationCall contracts} {resolved : ResolvedWorkflow} :
      s.pcs caller = .inserting call resolved →
      Step s (.insert caller)
        { s.setPc caller (.reading call) with db := insertVersion s.db call resolved }
  | missing {caller : ι} : Step s (.read caller) (s.setPc caller .idle)
  | returned {caller : ι} {call : RegistrationCall contracts} {row : WorkflowRow} :
      s.pcs caller = .reading call → s.db.workflowVersions.row? call.key = some row →
      Step s (.read caller) { s.setPc caller .idle with replies := s.replies ++ [(call, row)] }
  | crashed {caller : ι} : Step s (.crash caller) (s.setPc caller .idle)
  | engine {operation : Operation} {now : Time} :
      Step s (.engine operation now) { s with db := operation.after now s.db }

theorem step_cases (h : s.step label = some s') : Step s label s' := by
  cases label with
  | start caller document registry =>
      simp only [step] at h
      split at h
      · split at h
        · cases h
          exact .rejected
        · next workflow hread =>
            split at h
            · cases h
              exact .rejected
            · next resolved _ =>
                cases h
                exact @Step.started _ _ _ s caller ⟨document, workflow, hread, registry⟩ resolved
      · cases h
  | check caller =>
      simp only [step] at h
      split at h
      · split at h
        · cases h
          exact .conflict
        · cases h
          exact .checked
      · cases h
  | insert caller =>
      simp only [step] at h
      split at h
      · next hpc =>
          cases h
          exact .inserted hpc
      · cases h
  | read caller =>
      simp only [step, getWorkflow] at h
      split at h
      · next hpc =>
          cases hrow : s.db.workflowVersions.row? _ with
          | none =>
              rw [hrow] at h
              cases h
              exact .missing
          | some row =>
              rw [hrow] at h
              cases h
              exact .returned hpc hrow
      · cases h
  | crash caller =>
      cases h
      exact .crashed
  | engine operation now =>
      cases h
      exact .engine

/-- A stored version never changes. -/
theorem Step.keeps (hstep : Step s label s') {key : String × String} {row : WorkflowRow}
    (hrow : s.db.workflowVersions.row? key = some row) :
    s'.db.workflowVersions.row? key = some row := by
  cases hstep with
  | inserted _ => exact insertVersion_keeps hrow
  | engine =>
      rw [Table.row?_eq_some_iff] at hrow ⊢
      exact ⟨(Operation.transition _ _ s.db).grows.workflowVersions hrow.1, hrow.2⟩
  | _ => exact hrow

/-! ## Replies -/

/-- The version that a call is about to insert is not stored with another digest. -/
def uncontested (s : Registrations contracts ι) : RegistrationLabel ι → Bool
  | .insert caller =>
      match s.pcs caller with
      | .inserting call _ =>
          (s.db.workflowVersions.row? call.key).all fun row => row.digest = call.digest
      | _ => true
  | _ => true

/-- The version of the call is stored with its digest. -/
def Stores (s : Registrations contracts ι) (call : RegistrationCall contracts) : Prop :=
  ∃ row, s.db.workflowVersions.row? call.key = some row ∧ row.digest = call.digest

/-- Callers read back, and have returned, what they registered. -/
structure Truthful (s : Registrations contracts ι) : Prop where
  reading : ∀ caller call, s.pcs caller = .reading call → s.Stores call
  replies : ∀ call row, (call, row) ∈ s.replies →
    s.db.workflowVersions.row? call.key = some row ∧ row.digest = call.digest

namespace Truthful

variable (h : s.Truthful)

include h

omit h in
theorem stores_step (hstep : Step s label s') {call : RegistrationCall contracts} (hstores : s.Stores call) :
    s'.Stores call := by
  obtain ⟨row, hrow, hdigest⟩ := hstores
  exact ⟨row, hstep.keeps hrow, hdigest⟩

/-- A caller that does not come to read back anything new. -/
theorem setPc {caller : ι} {pc : RegistrationPc contracts} (hpc : ∀ call, pc ≠ .reading call) :
    (s.setPc caller pc).Truthful where
  reading other call hreading := by
    simp only [Registrations.setPc, Function.update_apply] at hreading
    split at hreading
    · exact absurd hreading (hpc call)
    · exact h.reading other call hreading
  replies := h.replies

theorem step (hguard : s.uncontested label = true) (hstep : Step s label s') :
    s'.Truthful := by
  cases hstep with
  | rejected => exact h
  | started | conflict | checked | missing | crashed => exact h.setPc nofun
  | @inserted caller call resolved hpc =>
      have hstep : Step s (.insert caller) _ := .inserted hpc
      refine ⟨fun other otherCall hreading => ?_, fun otherCall row hreply => ?_⟩
      · simp only [Registrations.setPc, Function.update_apply] at hreading
        split at hreading
        · cases hreading
          obtain ⟨row, hrow, hold | ⟨-, rfl⟩⟩ := @insertVersion_row _ s.db call resolved
          · simp only [uncontested, hpc, hold, Option.all_some, decide_eq_true_eq] at hguard
            exact ⟨row, hrow, hguard⟩
          · exact ⟨_, hrow, rfl⟩
        · exact stores_step hstep (h.reading other otherCall hreading)
      · obtain ⟨hrow, hdigest⟩ := h.replies otherCall row hreply
        exact ⟨hstep.keeps hrow, hdigest⟩
  | @returned caller call row hpc hrow =>
      have hidle : (s.setPc caller .idle).Truthful := h.setPc nofun
      refine ⟨hidle.reading, fun otherCall otherRow hreply => ?_⟩
      rcases List.mem_append.mp hreply with hold | hnew
      · exact h.replies otherCall otherRow hold
      · cases List.mem_singleton.mp hnew
        obtain ⟨found, hfound, hdigest⟩ := h.reading caller call hpc
        obtain rfl := Option.some.inj (hfound.symm.trans hrow)
        exact ⟨hrow, hdigest⟩
  | @engine operation now =>
      have hstep : Step s (.engine operation now) _ := .engine
      refine ⟨fun other call hreading => stores_step hstep (h.reading other call hreading),
        fun call row hreply => ?_⟩
      obtain ⟨hrow, hdigest⟩ := h.replies call row hreply
      exact ⟨hstep.keeps hrow, hdigest⟩

end Truthful

/-- Stored versions never change.  As long as no call inserts a version that was stored
with another digest after its check, every reply is the stored row with the digest of
the document of the call, and no two calls with different documents succeed for one
version. -/
theorem registrations_truthful (hfree : contracts.CollisionFree)
    (h : (registrationSystem contracts ι).Reachable
      (fun s label => s.uncontested label = true) s) :
    (∀ call row, (call, row) ∈ s.replies →
      s.db.workflowVersions.row? call.key = some row ∧
      row.digest = contracts.documentDigest call.document) ∧
    (∀ call row call' row', (call, row) ∈ s.replies → (call', row') ∈ s.replies →
      call.key = call'.key →
        contracts.documentDigest call.document = contracts.documentDigest call'.document ∧
        call.workflow.stored = call'.workflow.stored) ∧
    ∀ s', (registrationSystem contracts ι).Leads TransitionSystem.anyStep s s' → ∀ key row,
      s.db.workflowVersions.row? key = some row →
      s'.db.workflowVersions.row? key = some row := by
  have htruthful : s.Truthful := by
    refine h.invariant Truthful (fun s hs => ?_)
      fun _ _ _ _ hinv hguard hnext => hinv.step hguard (step_cases hnext)
    cases hs
    exact ⟨fun _ _ hreading => (by cases hreading), fun _ _ hreply => (by cases hreply)⟩
  refine ⟨htruthful.replies, ?_, fun s' hleads key row hrow => ?_⟩
  · intro call row call' row' hreply hreply' hkey
    obtain ⟨hrow, hdigest⟩ := htruthful.replies call row hreply
    obtain ⟨hrow', hdigest'⟩ := htruthful.replies call' row' hreply'
    rw [hkey] at hrow
    obtain rfl := Option.some.inj (hrow.symm.trans hrow')
    have hsame : call.digest = call'.digest := hdigest.symm.trans hdigest'
    exact ⟨hsame, hfree _ _ _ _ hsame call.read call'.read⟩
  · exact hleads.invariant
      (fun s' => s'.db.workflowVersions.row? key = some row)
      (fun _ _ _ _ hrow _ hnext => (step_cases hnext).keeps hrow) h.unguarded hrow

/-! ## Two callers -/

/-- The node of a document with one sample node. -/
def sampleNodeId : Value → Option String
  | .obj [_, _, _, (_, .obj [(_, .arr [.obj [(_, .str nodeId), _, _]]), _, _, _])] => some nodeId
  | _ => none

/-- The contracts of the documents with one sample node. -/
def nodeContracts : DocumentContracts where
  draftSchema _ := []
  readWorkflow document :=
    match sampleNodeId document with
    | some nodeId => .ok { sampleWorkflow with
        nodes := [sampleNode nodeId], nonempty := List.cons_ne_nil _ _ }
    | none => .error [⟨"/", "is not a workflow"⟩]
  documentDigest document :=
    match sampleNodeId document with
    | some nodeId => nodeId
    | none => ""

theorem nodeContracts_collisionFree : nodeContracts.CollisionFree := by
  intro document document' workflow workflow' hdigest hread hread'
  simp only [nodeContracts] at hdigest hread hread'
  split at hread
  · next nodeId hnode =>
      split at hread'
      · next nodeId' hnode' =>
          simp only [hnode, hnode'] at hdigest
          cases hread
          cases hread'
          rw [hdigest]
      · cases hread'
  · cases hread

/-- Two callers with different documents of one version. -/
def startBoth : List (RegistrationLabel (Fin 2)) :=
  [.start 0 (nodesDocument "1.0.0" ["a"]) sampleRegistry,
   .start 1 (nodesDocument "1.0.0" ["c"]) sampleRegistry]

/-- The second caller checks after the first has inserted. -/
def checkedInTime : List (RegistrationLabel (Fin 2)) :=
  startBoth ++ [.check 0, .insert 0, .check 1, .read 0]

theorem registrations_truthful_checkedInTime :
    let s := (registrationSystem nodeContracts (Fin 2)).after uncontested {} checkedInTime
    s.replies.map (fun reply => (reply.1.digest, reply.2.digest)) = [("a", "a")] ∧
    (∀ call row, (call, row) ∈ s.replies →
      s.db.workflowVersions.row? call.key = some row ∧
      row.digest = nodeContracts.documentDigest call.document) ∧
    (∀ call row call' row', (call, row) ∈ s.replies → (call', row') ∈ s.replies →
      call.key = call'.key →
        nodeContracts.documentDigest call.document =
          nodeContracts.documentDigest call'.document ∧
        call.workflow.stored = call'.workflow.stored) ∧
    ∀ s', (registrationSystem nodeContracts (Fin 2)).Leads TransitionSystem.anyStep s s' →
      ∀ key row, s.db.workflowVersions.row? key = some row →
        s'.db.workflowVersions.row? key = some row :=
  ⟨by decide, registrations_truthful nodeContracts_collisionFree
    ((TransitionSystem.Reachable.initial rfl).after checkedInTime)⟩

/-- Both callers check before either of them inserts. -/
def checkedTooEarly : List (RegistrationLabel (Fin 2)) :=
  startBoth ++ [.check 0, .check 1, .insert 0, .insert 1, .read 0, .read 1]

/-- Registrations of two workflows under one identifier and version both succeed, and the
second is told the digest of the first. -/
theorem registrations_contested :
    ∃ s, (registrationSystem nodeContracts (Fin 2)).Reachable TransitionSystem.anyStep s ∧
      s.replies.map (fun reply => (reply.1.key, reply.1.workflow.nodeIds)) =
        [(("pair", "1.0.0"), ["a"]), (("pair", "1.0.0"), ["c"])] ∧
      s.replies.map (fun reply =>
        (nodeContracts.documentDigest reply.1.document, reply.2.digest)) =
          [("a", "a"), ("c", "a")] ∧
      ¬ ∀ call row, (call, row) ∈ s.replies →
        row.digest = nodeContracts.documentDigest call.document := by
  have hdigests : ((registrationSystem nodeContracts (Fin 2)).after (fun _ _ => true) {}
      checkedTooEarly).replies.map (fun reply =>
        (nodeContracts.documentDigest reply.1.document, reply.2.digest)) =
          [("a", "a"), ("c", "a")] := by decide
  refine ⟨(registrationSystem nodeContracts (Fin 2)).after (fun _ _ => true) {} checkedTooEarly,
    ((TransitionSystem.Reachable.initial rfl).after checkedTooEarly).unguarded, by decide,
    hdigests, fun h => ?_⟩
  have hsecond : ("c", "a") ∈ ((registrationSystem nodeContracts (Fin 2)).after
      (fun _ _ => true) {} checkedTooEarly).replies.map (fun reply =>
        (nodeContracts.documentDigest reply.1.document, reply.2.digest)) := by
    rw [hdigests]
    exact List.mem_cons_of_mem _ List.mem_cons_self
  obtain ⟨⟨call, row⟩, hreply, heq⟩ := List.mem_map.mp hsecond
  obtain ⟨hcall, hrow⟩ := Prod.mk.inj heq
  have hsame := h call row hreply
  rw [hcall, show row.digest = "a" from hrow] at hsame
  exact absurd hsame (by decide)

end Registrations

end QhpcEcosystem
