/-
Publication of a workflow draft while other clients edit it.  The call validates
one read of the draft, reads it again and registers what it found then.
-/
import QhpcEcosystem.DraftClients

namespace QhpcEcosystem

/-! ## The publishing call -/

/-- What `publish_workflow_draft` returns. -/
structure PublishedDraft where
  draftId : Uuid
  revision : Int
  workflow : WorkflowRow

/-- The arguments of a call with the stored versions when it began. -/
structure PublishCall where
  draftId : Uuid
  registry : Registry
  expectedRevision : Int
  opened : Table WorkflowRow

/-- Where the call stands: none, before its own read of the draft, or before the
registration. -/
inductive PublishPc where
  | idle
  | checked (call : PublishCall)
  | read (call : PublishCall) (draft : WorkflowDraft)

/-- A call that ended: what its last read of the draft found, the stored versions
then, and its outcome. -/
structure Publication where
  call : PublishCall
  found : Option WorkflowDraft
  closed : Table WorkflowRow
  outcome : Except Exn PublishedDraft

structure PublishState (κ : Type) where
  store : DraftState κ := {}
  db : Db := {}
  pc : PublishPc := .idle
  publications : List Publication := []

inductive PublishLabel (κ : Type) where
  | client (label : DraftLabel κ)
  | publish (draftId : Uuid) (registry : Registry) (expectedRevision : Int)
  | advance
  | stop

namespace PublishState

variable {κ : Type}

/-- The call ends. -/
def close (s : PublishState κ) (call : PublishCall) (found : Option WorkflowDraft) (db : Db)
    (outcome : Except Exn PublishedDraft) : PublishState κ :=
  { s with
    db := db
    pc := .idle
    publications := s.publications ++ [⟨call, found, db.workflowVersions, outcome⟩] }

/-- The call begins with the validation of the draft. -/
def begin (contracts : DocumentContracts) (s : PublishState κ) (call : PublishCall) :
    PublishState κ :=
  match checkPublication contracts s.store.drafts call.draftId call.registry
      call.expectedRevision with
  | .error error => s.close call (s.store.drafts.row? call.draftId) s.db (.error error)
  | .ok () => { s with pc := .checked call }

/-- The next transaction of the call. -/
def advance (contracts : DocumentContracts) (s : PublishState κ) : Option (PublishState κ) :=
  match s.pc with
  | .idle => none
  | .checked call =>
      match getWorkflowDraft s.store.drafts call.draftId with
      | .error error => some (s.close call none s.db (.error error))
      | .ok draft => some { s with pc := .read call draft }
  | .read call draft =>
      match registerDocument contracts s.db draft.workflow call.registry with
      | .error error => some (s.close call (some draft) s.db (.error error))
      | .ok (row, db) => some (s.close call (some draft) db
          (.ok ⟨call.draftId, call.expectedRevision, row⟩))

end PublishState

/-- The stored versions have the digests of their documents. -/
def DocumentContracts.Registered (contracts : DocumentContracts) (db : Db) : Prop :=
  ∀ row ∈ db.workflowVersions.rows, ∃ document workflow,
    contracts.readWorkflow document = .ok workflow ∧ row.definition = workflow.stored ∧
    row.digest = contracts.documentDigest document

/-- One client publishes while the others create, read, update and delete drafts. -/
def publishSystem (contracts : DocumentContracts) (κ : Type) [DecidableEq κ] :
    TransitionSystem (PublishState κ) (PublishLabel κ) where
  Initial s := ∃ db, contracts.Registered db ∧ s = { db := db }
  step s label :=
    match label with
    | .client label => ((draftSystem contracts κ).step s.store label).map fun store =>
        { s with store := store }
    | .publish draftId registry expectedRevision =>
        match s.pc with
        | .idle => some (s.begin contracts
            ⟨draftId, registry, expectedRevision, s.db.workflowVersions⟩)
        | _ => none
    | .advance => s.advance contracts
    | .stop => some { s with pc := .idle }

/-- When the call reads the draft again it has the expected revision, or it is
gone. -/
def readsExpected {κ : Type} (s : PublishState κ) (label : PublishLabel κ) : Bool :=
  match label, s.pc with
  | .advance, .checked call => (s.store.drafts.row? call.draftId).all fun draft =>
      draft.revision = call.expectedRevision
  | _, _ => true

/-! ## What a transaction does -/

theorem checkPublication_refuses (contracts : DocumentContracts) (registry : Registry)
    {drafts : Table WorkflowDraft} {draftId : Uuid} {expectedRevision : Int}
    (h : ∀ draft, drafts.row? draftId = some draft → draft.revision ≠ expectedRevision) :
    ∃ error, checkPublication contracts drafts draftId registry expectedRevision =
      .error error ∧ (error.cls = .keyError ∨ error.cls = .other "WorkflowDraftRevisionError") := by
  cases hrow : drafts.row? draftId with
  | none =>
      refine ⟨keyError ("workflow draft not found: " ++ draftText draftId), ?_, .inl rfl⟩
      simp only [checkPublication, validateWorkflowDraft, getWorkflowDraft, hrow, bind,
        Except.bind]
  | some draft =>
      refine ⟨revisionConflict expectedRevision draft.revision, ?_, .inr rfl⟩
      simp only [checkPublication, validateWorkflowDraft, getWorkflowDraft, hrow, bind,
        Except.bind, ne_eq, h draft hrow, not_false_eq_true, if_true]
      rfl

/-- A registration finds the version with the same digest or adds it. -/
theorem registerWorkflow_spec {db db' : Db} {workflow : Workflow} {registry : Registry}
    {digest : String} (h : registerWorkflow db workflow registry digest = .ok db') :
    (∃ resolved, resolveWorkflow workflow registry = .ok resolved) ∧ ∃ row,
      row.workflowId = workflow.id ∧ row.version = workflow.version ∧ row.digest = digest ∧
      (row ∈ db.workflowVersions.rows ∧ db' = db ∨ row.definition = workflow.stored ∧
        db.workflowVersions.insert? row = some db'.workflowVersions) := by
  simp only [registerWorkflow, bind, Except.bind] at h
  split at h
  · cases h
  · next resolved hresolved =>
      refine ⟨⟨resolved, hresolved⟩, ?_⟩
      split at h
      · next existing hexisting =>
          obtain ⟨hid, hversion⟩ := Prod.mk.inj (Table.key_of_row? hexisting)
          simp only [ne_eq, ite_not] at h
          split at h
          · next hdigest =>
              cases h
              exact ⟨existing, hid, hversion, hdigest, .inl ⟨Table.mem_of_row? hexisting, rfl⟩⟩
          · cases h
      · next hnone =>
          split at h
          · next hinsert =>
              obtain ⟨found, hfound⟩ := Table.row?_of_insert?_eq_none hinsert
              cases hnone.symm.trans hfound
          · next rows hrows =>
              cases h
              exact ⟨_, rfl, rfl, rfl, .inr ⟨rfl, hrows⟩⟩

/-- The registration of a document returns the stored version and changes no other. -/
theorem registerDocument_ok {contracts : DocumentContracts} {db db' : Db} {document : Value}
    {registry : Registry} {row : WorkflowRow}
    (h : registerDocument contracts db document registry = .ok (row, db')) :
    ∃ workflow resolved, contracts.readWorkflow document = .ok workflow ∧
      resolveWorkflow workflow registry = .ok resolved ∧
      db'.workflowVersions.row? (workflow.id, workflow.version) = some row ∧
      row.digest = contracts.documentDigest document ∧
      (row ∈ db.workflowVersions.rows ∨ row.definition = workflow.stored) ∧
      db.workflowVersions.rows ⊆ db'.workflowVersions.rows ∧
      ∀ other ∈ db'.workflowVersions.rows, other ∈ db.workflowVersions.rows ∨ other = row := by
  unfold registerDocument at h
  split at h
  · cases h
  · next workflow hread =>
      simp only [bind, Except.bind] at h
      split at h
      · cases h
      · next stored hstored =>
          obtain ⟨⟨resolved, hresolved⟩, version, hid, hversion, hdigest, hcases⟩ :=
            registerWorkflow_spec hstored
          have hmem : version ∈ stored.workflowVersions.rows := by
            rcases hcases with ⟨hold, rfl⟩ | ⟨-, hinsert⟩
            · exact hold
            · rw [Table.insert?_rows hinsert]
              exact List.mem_append_right _ List.mem_cons_self
          have hrow : stored.workflowVersions.row? (workflow.id, workflow.version) =
              some version := by
            rw [← hid, ← hversion]
            exact Table.row?_of_mem hmem
          rw [hrow] at h
          cases h
          refine ⟨workflow, resolved, hread, hresolved, hrow, hdigest, ?_, ?_, ?_⟩
          · exact hcases.imp And.left And.left
          · rcases hcases with ⟨-, rfl⟩ | ⟨-, hinsert⟩
            · exact List.Subset.refl _
            · rw [Table.insert?_rows hinsert]
              exact List.subset_append_left _ _
          · intro other hother
            rcases hcases with ⟨-, rfl⟩ | ⟨-, hinsert⟩
            · exact .inl hother
            · rw [Table.insert?_rows hinsert, List.mem_append, List.mem_singleton] at hother
              exact hother

theorem DocumentContracts.Registered.register {contracts : DocumentContracts} {db db' : Db}
    (h : contracts.Registered db) (hfree : contracts.CollisionFree) {document : Value}
    {registry : Registry} {row : WorkflowRow}
    (hok : registerDocument contracts db document registry = .ok (row, db')) :
    contracts.Registered db' ∧ ∃ workflow, contracts.readWorkflow document = .ok workflow ∧
      row.definition = workflow.stored := by
  obtain ⟨workflow, resolved, hread, -, -, hdigest, hcases, -, hrows⟩ := registerDocument_ok hok
  have hdefinition : row.definition = workflow.stored := by
    rcases hcases with hold | hnew
    · obtain ⟨other, read, hother, hstored, hsame⟩ := h row hold
      exact hstored.trans
        (hfree other document read workflow (hsame.symm.trans hdigest) hother hread)
    · exact hnew
  refine ⟨fun other hother => ?_, workflow, hread, hdefinition⟩
  rcases hrows other hother with hold | rfl
  · exact h other hold
  · exact ⟨document, workflow, hread, hdefinition, hdigest⟩

/-- Rows that were written stay written. -/
theorem DraftState.Change.written {κ : Type} [DecidableEq κ] {s s' : DraftState κ}
    {label : DraftLabel κ} (h : s.Change label s') : s.written ⊆ s'.written := by
  cases h with
  | inserted _ _ _ _ => exact List.subset_append_left _ _
  | saved _ _ _ => exact List.subset_append_left _ _
  | _ => exact List.Subset.refl _

theorem DraftState.rowsOf_mono {κ : Type} {s s' : DraftState κ}
    (h : s.written ⊆ s'.written) (draftId : Uuid) : s.rowsOf draftId ⊆ s'.rowsOf draftId := by
  intro row hrow
  obtain ⟨⟨client, hmem⟩, hid⟩ := DraftState.mem_rowsOf.mp hrow
  exact DraftState.mem_rowsOf.mpr ⟨⟨client, h hmem⟩, hid⟩

/-! ## The publication of the expected revision -/

/-- A call that returned has registered the row that the draft had at the expected
revision, valid against the registry, and returned it with this revision; a call whose
last read did not find the expected revision has raised a conflict; and a call that
raised has registered nothing. -/
structure Publication.Faithful (contracts : DocumentContracts) {κ : Type}
    (store : DraftState κ) (db : Db) (publication : Publication) : Prop where
  returned : ∀ published, publication.outcome = .ok published →
    published.draftId = publication.call.draftId ∧
    published.revision = publication.call.expectedRevision ∧
    ∃ row ∈ store.rowsOf publication.call.draftId,
      row.revision = publication.call.expectedRevision ∧
      ∃ workflow resolved, contracts.readWorkflow row.workflow = .ok workflow ∧
        resolveWorkflow workflow publication.call.registry = .ok resolved ∧
        db.workflowVersions.row? (workflow.id, workflow.version) = some published.workflow ∧
        published.workflow.definition = workflow.stored ∧
        published.workflow.digest = contracts.documentDigest row.workflow
  conflict : (∀ draft, publication.found = some draft →
      draft.revision ≠ publication.call.expectedRevision) →
    ∃ error, publication.outcome = .error error ∧
      (error.cls = .keyError ∨ error.cls = .other "WorkflowDraftRevisionError")
  raised : ∀ error, publication.outcome = .error error →
    publication.closed = publication.call.opened

theorem Publication.Faithful.mono {contracts : DocumentContracts} {κ : Type}
    {store store' : DraftState κ} {db db' : Db} {publication : Publication}
    (h : publication.Faithful contracts store db) (hwritten : store.written ⊆ store'.written)
    (hrows : db.workflowVersions.rows ⊆ db'.workflowVersions.rows) :
    publication.Faithful contracts store' db' where
  returned published hok := by
    obtain ⟨hid, hrevision, row, hrow, hexpected, workflow, resolved, hread, hresolved, hstored,
      hrest⟩ := h.returned published hok
    refine ⟨hid, hrevision, row, DraftState.rowsOf_mono hwritten _ hrow, hexpected, workflow,
      resolved, hread, hresolved, ?_, hrest⟩
    rw [Table.row?_eq_some_iff] at hstored ⊢
    exact ⟨hrows hstored.1, hstored.2⟩
  conflict := h.conflict
  raised := h.raised

/-- The state of the call agrees with the drafts and the stored versions. -/
structure PublishState.Faithful (contracts : DocumentContracts) {κ : Type}
    (s : PublishState κ) : Prop where
  chained : s.store.Chained
  registered : contracts.Registered s.db
  checked : ∀ call, s.pc = .checked call → s.db.workflowVersions = call.opened
  read : ∀ call draft, s.pc = .read call draft → s.db.workflowVersions = call.opened ∧
    draft ∈ s.store.rowsOf call.draftId ∧ draft.revision = call.expectedRevision
  publications : ∀ publication ∈ s.publications,
    publication.Faithful contracts s.store s.db

namespace PublishState.Faithful

variable {contracts : DocumentContracts} {κ : Type} [DecidableEq κ] {s : PublishState κ}
  (h : s.Faithful contracts)

include h

theorem client {label : DraftLabel κ} {store : DraftState κ}
    (hchange : s.store.Change label store) :
    ({ s with store := store } : PublishState κ).Faithful contracts where
  chained := h.chained.change hchange
  registered := h.registered
  checked := h.checked
  read call draft hpc := by
    obtain ⟨hopened, hrow, hrevision⟩ := h.read call draft hpc
    exact ⟨hopened, DraftState.rowsOf_mono hchange.written _ hrow, hrevision⟩
  publications publication hmem :=
    (h.publications publication hmem).mono hchange.written (List.Subset.refl _)

omit [DecidableEq κ] in
theorem close {call : PublishCall} {found : Option WorkflowDraft} {db : Db}
    {outcome : Except Exn PublishedDraft} (hregistered : contracts.Registered db)
    (hrows : s.db.workflowVersions.rows ⊆ db.workflowVersions.rows)
    (hfaithful : Publication.Faithful contracts s.store db
      ⟨call, found, db.workflowVersions, outcome⟩) :
    (s.close call found db outcome).Faithful contracts where
  chained := h.chained
  registered := hregistered
  checked := by simp [PublishState.close]
  read := by simp [PublishState.close]
  publications publication hmem := by
    simp only [PublishState.close, List.mem_append, List.mem_singleton] at hmem
    rcases hmem with hold | rfl
    · exact (h.publications publication hold).mono (List.Subset.refl _) hrows
    · exact hfaithful

omit [DecidableEq κ] in
/-- A call that raises has registered nothing. -/
theorem close_error {call : PublishCall} {found : Option WorkflowDraft} {error : Exn}
    (hopened : s.db.workflowVersions = call.opened)
    (hconflict : (∀ draft, found = some draft → draft.revision ≠ call.expectedRevision) →
      error.cls = .keyError ∨ error.cls = .other "WorkflowDraftRevisionError") :
    (s.close call found s.db (.error error)).Faithful contracts :=
  h.close h.registered (List.Subset.refl _) {
    returned := fun _ => nofun
    conflict := fun hfound => ⟨error, rfl, hconflict hfound⟩
    raised := fun _ _ => hopened }

theorem step (hfree : contracts.CollisionFree) {label : PublishLabel κ}
    {s' : PublishState κ} (hguard : readsExpected s label = true)
    (hstep : (publishSystem contracts κ).step s label = some s') : s'.Faithful contracts := by
  cases label with
  | client label =>
      obtain ⟨store, hstore, rfl⟩ := Option.map_eq_some_iff.mp hstep
      exact h.client (DraftState.change_of_step hstore)
  | publish draftId registry expectedRevision =>
      simp only [publishSystem] at hstep
      split at hstep
      · cases hstep
        unfold PublishState.begin
        dsimp only
        split
        · next error herror =>
            refine h.close_error rfl fun hfound => ?_
            obtain ⟨error', herror', hcls⟩ := checkPublication_refuses contracts registry hfound
            obtain rfl := Except.error.inj (herror.symm.trans herror')
            exact hcls
        · refine { h with checked := ?_, read := nofun }
          intro call hcall
          cases hcall
          rfl
      · cases hstep
  | advance =>
      simp only [publishSystem, PublishState.advance] at hstep
      split at hstep
      · cases hstep
      · next call hpc =>
          split at hstep
          · next error herror =>
              cases hstep
              refine h.close_error (h.checked call hpc) fun _ => .inl ?_
              unfold getWorkflowDraft at herror
              split at herror
              · cases herror
                rfl
              · cases herror
          · next draft hdraft =>
              cases hstep
              have hrow := getWorkflowDraft_ok hdraft
              refine { h with checked := nofun, read := ?_ }
              rintro _ _ hcall
              cases hcall
              refine ⟨h.checked call hpc, h.chained.row_of_table hrow, ?_⟩
              simpa [readsExpected, hpc, hrow] using hguard
      · next call draft hpc =>
          obtain ⟨hopened, hrow, hrevision⟩ := h.read call draft hpc
          split at hstep
          · cases hstep
            exact h.close_error hopened fun hfound => absurd hrevision (hfound draft rfl)
          · next row db hok =>
              cases hstep
              obtain ⟨hregistered, read, hread, hdefinition⟩ := h.registered.register hfree hok
              obtain ⟨workflow, resolved, hworkflow, hresolved, hstored, hdigest, -, hrows, -⟩ :=
                registerDocument_ok hok
              refine h.close hregistered hrows {
                returned := ?_
                conflict := fun hfound => absurd hrevision (hfound draft rfl)
                raised := fun _ => nofun }
              intro published hpublished
              cases hpublished
              obtain rfl := Except.ok.inj (hworkflow.symm.trans hread)
              exact ⟨rfl, rfl, draft, hrow, hrevision, _, resolved, hread, hresolved, hstored,
                hdefinition, hdigest⟩
  | stop =>
      cases hstep
      exact { h with checked := nofun, read := nofun }

end PublishState.Faithful

/-- In runs in which the call never reads another revision than the expected one,
every publication is faithful. -/
theorem publication_faithful {contracts : DocumentContracts} (hfree : contracts.CollisionFree)
    {κ : Type} [DecidableEq κ] {s : PublishState κ}
    (hreach : (publishSystem contracts κ).Reachable
      (fun s label => readsExpected s label = true) s) :
    ∀ publication ∈ s.publications, publication.Faithful contracts s.store s.db := by
  suffices s.Faithful contracts from this.publications
  refine hreach.invariant (PublishState.Faithful contracts) (fun s hs => ?_)
    fun s label s' _ hs hguard hstep => hs.step hfree hguard hstep
  obtain ⟨db, hdb, rfl⟩ := hs
  exact ⟨DraftState.chained_empty, hdb, nofun, nofun, by simp⟩

/-- A client creates a draft; the publication of its first revision begins. -/
def begunPublication : List (PublishLabel (Fin 1)) :=
  [.client (.begin 0 (.create (sampleDocument "1.0.0") none "sample") 0),
   .client (.advance 0), .publish 0 sampleRegistry 1]

/-- The draft is updated between the two reads of the publication. -/
def overtakenPublication : List (PublishLabel (Fin 1)) :=
  begunPublication ++
    [.client (.begin 0 (.update 0 (sampleDocument "2.0.0") defaultDraftLayout 1) 1),
     .client (.advance 0), .client (.advance 0), .advance, .advance]

/-- The publication of revision 1 registers the content of revision 2. -/
theorem publication_of_other_revision :
    let s := (publishSystem sampleContracts (Fin 1)).after (fun _ _ => true) {}
      overtakenPublication
    (∃ publication ∈ s.publications, ∃ published, publication.outcome = .ok published ∧
      published.revision = 1 ∧ published.workflow.version = "2.0.0") ∧
    (∃ row ∈ s.store.rowsOf 0, row.revision = 1 ∧ row.workflow = sampleDocument "1.0.0") ∧
    ¬ ∀ publication ∈ s.publications, publication.Faithful sampleContracts s.store s.db := by
  intro s
  have hrows : (s.store.rowsOf 0).map (fun row => (row.revision, sampleVersion row.workflow)) =
      [(1, some "1.0.0"), (2, some "2.0.0")] := rfl
  refine ⟨⟨_, List.mem_cons_self, _, rfl, rfl, rfl⟩, ⟨_, List.mem_cons_self, rfl, rfl⟩,
    fun hall => ?_⟩
  obtain ⟨-, -, row, hrow, hrevision, workflow, resolved, hread, -, -, hdefinition, -⟩ :=
    (hall _ List.mem_cons_self).returned _ rfl
  have hversion : workflow.version = "2.0.0" := (congrArg Workflow.version hdefinition).symm
  have hmem := List.mem_map_of_mem (f := fun row : WorkflowDraft =>
    (row.revision, sampleVersion row.workflow)) hrow
  change _ ∈ (s.store.rowsOf 0).map _ at hmem
  rw [hrows] at hmem
  have hrevision : row.revision = 1 := hrevision
  have hfirst : sampleVersion row.workflow = some "1.0.0" := by
    simpa [hrevision] using hmem
  simp only [sampleContracts, hfirst] at hread
  rw [← Except.ok.inj hread] at hversion
  exact absurd hversion (by decide)

theorem publication_faithful_begun :
    let s := (publishSystem sampleContracts (Fin 1)).after readsExpected {}
      (begunPublication ++ [.advance, .advance])
    (s.publications.map fun publication => publication.outcome.toOption.map
      PublishedDraft.revision) = [some 1] ∧
    ∀ publication ∈ s.publications, publication.Faithful sampleContracts s.store s.db := by
  refine ⟨by decide, publication_faithful sampleContracts_collisionFree ?_⟩
  have hinitial : (publishSystem sampleContracts (Fin 1)).Initial {} :=
    ⟨{}, by simp [DocumentContracts.Registered], rfl⟩
  exact (TransitionSystem.Reachable.initial hinitial).after _

end QhpcEcosystem
