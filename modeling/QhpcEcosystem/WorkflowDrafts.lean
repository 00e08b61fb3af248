/-
Workflow drafts: editable documents with a revision.  Every function here is one
transaction of the engine with the checks around it; what lies between two
transactions of one call is the business of the clients.
-/
import QhpcEcosystem.Engine

namespace QhpcEcosystem

/-! ## Documents -/

structure WorkflowDraft where
  id : Uuid
  name : String
  owner : String
  revision : Int
  workflow : Value
  layout : Value
  createdAt : Time
  updatedAt : Time

instance : Keyed WorkflowDraft Uuid := ⟨WorkflowDraft.id⟩

@[simp] theorem WorkflowDraft.key_eq (row : WorkflowDraft) :
    (Keyed.key row : Uuid) = row.id := rfl

/-- The JSON schemas and the document digest, which other packages compute. -/
structure DocumentContracts where
  /-- The issues of a draft under the schema of workflow drafts. -/
  draftSchema : WorkflowDraft → List ContractIssue
  /-- A document that meets the schema of workflows, or its issues. -/
  readWorkflow : Value → Except (List ContractIssue) Workflow
  documentDigest : Value → String

/-- Two workflow documents with one digest are the same workflow, up to the order of the
members of their objects. -/
def DocumentContracts.CollisionFree (contracts : DocumentContracts) : Prop :=
  ∀ document document' workflow workflow',
    contracts.documentDigest document = contracts.documentDigest document' →
    contracts.readWorkflow document = .ok workflow →
    contracts.readWorkflow document' = .ok workflow' → workflow.stored = workflow'.stored

def draftText (draftId : Uuid) : String := "draft-" ++ toString draftId

/-- `WorkflowDraftRevisionError`. -/
def draftRevisionError (message : String) : Exn :=
  ⟨.other "WorkflowDraftRevisionError", message, []⟩

def ContractIssue.text (issue : ContractIssue) : String := issue.path ++ ": " ++ issue.message

/-- `str(error)` of a `ContractError`. -/
def Exn.contractText (error : Exn) : String :=
  if error.issues = [] then error.message
  else error.message ++ "\n" ++ "\n".intercalate (error.issues.map fun issue =>
    "  - " ++ issue.text)

/-- `str.strip`. -/
def stripped (text : String) : String :=
  String.ofList (trimmed isSpace text.toList)

/-- `_draft_name`. -/
def draftName (workflow : Value) : String :=
  match workflow with
  | .obj members =>
      match members.lookup "metadata" with
      | some (.obj metadata) =>
          match metadata.lookup "name" with
          | some (.str name) => if stripped name ≠ "" then stripped name else "Untitled workflow"
          | _ => "Untitled workflow"
      | _ => "Untitled workflow"
  | _ => "Untitled workflow"

/-- `_default_draft_layout`. -/
def defaultDraftLayout : Value :=
  .obj [("nodes", .arr []), ("viewport", .obj [("x", .number (.int 0)),
    ("y", .number (.int 0)), ("zoom", .number (.int 1))])]

/-- `layout or self._default_draft_layout()`. -/
def chosenLayout : Option Value → Value
  | none | some (.obj []) => defaultDraftLayout
  | some layout => layout

/-- `[node["id"] for node in layout["nodes"]]` of a layout that meets the schema. -/
def layoutNodeIds (layout : Value) : List String :=
  match layout with
  | .obj members =>
      match members.lookup "nodes" with
      | some (.arr nodes) => nodes.filterMap fun node =>
          match node with
          | .obj fields =>
              match fields.lookup "id" with
              | some (.str id) => some id
              | _ => none
          | _ => none
      | _ => []
  | _ => []

/-- `validate_contract_data("workflow-draft", draft)`. -/
def checkDraft (contracts : DocumentContracts) (draft : WorkflowDraft) : Except Exn Unit :=
  let issues :=
    if contracts.draftSchema draft ≠ [] then contracts.draftSchema draft
    else duplicateIssues (layoutNodeIds draft.layout) "/spec/layout/nodes" "canvas node IDs"
  if issues ≠ [] then .error (contractError "invalid workflow-draft contract" issues) else .ok ()

/-! ## Transactions -/

/-- `get_workflow_draft`. -/
def getWorkflowDraft (drafts : Table WorkflowDraft) (draftId : Uuid) :
    Except Exn WorkflowDraft :=
  match drafts.row? draftId with
  | none => .error (keyError ("workflow draft not found: " ++ draftText draftId))
  | some row => .ok row

/-- `create_workflow_draft` up to its final read. -/
def insertDraft (contracts : DocumentContracts) (drafts : Table WorkflowDraft)
    (draftId : Uuid) (now : Time) (workflow : Value) (layout : Option Value)
    (createdBy : String) : Except Exn (WorkflowDraft × Table WorkflowDraft) := do
  let draft : WorkflowDraft := {
    id := draftId
    name := draftName workflow
    owner := createdBy
    revision := 1
    workflow := workflow
    layout := chosenLayout layout
    createdAt := now
    updatedAt := now }
  checkDraft contracts draft
  match drafts.insert? draft with
  | none => throw ⟨.integrityError, "UNIQUE constraint failed", []⟩
  | some drafts => pure (draft, drafts)

/-- The conflict of an expected revision with the stored one. -/
def revisionConflict (expectedRevision current : Int) : Exn :=
  draftRevisionError ("workflow draft revision conflict: expected " ++
    toString expectedRevision ++ ", current " ++ toString current)

/-- `update_workflow_draft` up to its `UPDATE`: the row it will store. -/
def prepareUpdate (contracts : DocumentContracts) (drafts : Table WorkflowDraft) (now : Time)
    (draftId : Uuid) (workflow layout : Value) (expectedRevision : Int) :
    Except Exn WorkflowDraft := do
  let current ← getWorkflowDraft drafts draftId
  if current.revision ≠ expectedRevision then
    throw (revisionConflict expectedRevision current.revision)
  let candidate := { current with
    name := draftName workflow
    revision := expectedRevision + 1
    workflow := workflow
    layout := layout
    updatedAt := now }
  checkDraft contracts candidate
  pure candidate

/-- The columns that the `UPDATE` writes. -/
def WorkflowDraft.save (candidate : WorkflowDraft) : RowUpdate WorkflowDraft where
  apply row := { row with
    name := candidate.name
    revision := candidate.revision
    workflow := candidate.workflow
    layout := candidate.layout
    updatedAt := candidate.updatedAt }

/-- The `UPDATE` of `update_workflow_draft` with the check of its row count. -/
def saveDraft (drafts : Table WorkflowDraft) (candidate : WorkflowDraft)
    (expectedRevision : Int) : Except Exn (WorkflowDraft × Table WorkflowDraft) :=
  match drafts.row? candidate.id with
  | some row =>
      if row.revision = expectedRevision then
        .ok (candidate.save.apply row, drafts.update candidate.id candidate.save)
      else .error (draftRevisionError "workflow draft changed while it was being saved")
  | none => .error (draftRevisionError "workflow draft changed while it was being saved")

/-- `delete_workflow_draft`. -/
def deleteWorkflowDraft (drafts : Table WorkflowDraft) (draftId : Uuid)
    (expectedRevision : Int) : Except Exn (Table WorkflowDraft) :=
  match drafts.row? draftId with
  | none => .error (keyError ("workflow draft not found: " ++ draftText draftId))
  | some row =>
      if row.revision = expectedRevision then .ok (drafts.remove draftId)
      else .error (revisionConflict expectedRevision row.revision)

theorem getWorkflowDraft_ok {drafts : Table WorkflowDraft} {draftId : Uuid}
    {row : WorkflowDraft} (h : getWorkflowDraft drafts draftId = .ok row) :
    drafts.row? draftId = some row := by
  unfold getWorkflowDraft at h
  split at h
  · cases h
  · next found hfound =>
      cases h
      exact hfound

theorem insertDraft_ok {contracts : DocumentContracts} {drafts drafts' : Table WorkflowDraft}
    {draftId : Uuid} {now : Time} {workflow : Value} {layout : Option Value}
    {createdBy : String} {row : WorkflowDraft}
    (h : insertDraft contracts drafts draftId now workflow layout createdBy =
      .ok (row, drafts')) :
    drafts.insert? row = some drafts' ∧ row.id = draftId ∧ row.revision = 1 ∧
      row.workflow = workflow ∧ row.layout = chosenLayout layout := by
  simp only [insertDraft, bind, Except.bind] at h
  split at h
  · cases h
  · split at h
    · cases h
    · next stored hstored =>
        cases h
        exact ⟨hstored, rfl, rfl, rfl, rfl⟩

theorem prepareUpdate_ok {contracts : DocumentContracts} {drafts : Table WorkflowDraft}
    {now : Time} {draftId : Uuid} {workflow layout : Value} {expectedRevision : Int}
    {candidate : WorkflowDraft}
    (h : prepareUpdate contracts drafts now draftId workflow layout expectedRevision =
      .ok candidate) :
    candidate.id = draftId ∧ candidate.revision = expectedRevision + 1 ∧
      candidate.workflow = workflow ∧ candidate.layout = layout := by
  simp only [prepareUpdate, bind, Except.bind, ne_eq, ite_not] at h
  split at h
  · cases h
  · next current hcurrent =>
      have hid : current.id = draftId := Table.key_of_row? (getWorkflowDraft_ok hcurrent)
      split at h
      · split at h
        · cases h
        · cases h
          exact ⟨hid, rfl, rfl, rfl⟩
      · cases h

theorem saveDraft_ok {drafts drafts' : Table WorkflowDraft} {candidate row : WorkflowDraft}
    {expectedRevision : Int} (h : saveDraft drafts candidate expectedRevision =
      .ok (row, drafts')) :
    ∃ old, drafts.row? candidate.id = some old ∧ old.revision = expectedRevision ∧
      row = candidate.save.apply old ∧ drafts' = drafts.update candidate.id candidate.save := by
  unfold saveDraft at h
  split at h
  · next old hold =>
      split at h
      · next hrevision =>
          cases h
          exact ⟨old, hold, hrevision, rfl, rfl⟩
      · cases h
  · cases h

theorem deleteWorkflowDraft_ok {drafts drafts' : Table WorkflowDraft} {draftId : Uuid}
    {expectedRevision : Int}
    (h : deleteWorkflowDraft drafts draftId expectedRevision = .ok drafts') :
    ∃ old, drafts.row? draftId = some old ∧ old.revision = expectedRevision ∧
      drafts' = drafts.remove draftId := by
  unfold deleteWorkflowDraft at h
  split at h
  · cases h
  · next old hold =>
      split at h
      · next hrevision =>
          cases h
          exact ⟨old, hold, hrevision, rfl⟩
      · cases h

/-! ## Validation and publication -/

/-- What `validate_workflow_draft` returns; the digest of a valid draft, the message
of an invalid one. -/
structure DraftValidation where
  draftId : Uuid
  revision : Int
  valid : Bool
  digest : Option String := none
  nodeIds : List String := []
  issues : List ContractIssue := []
  message : Option String := none

mutual

/-- Every integer inside has at most so many decimal digits. -/
def Value.digitsWithin (limit : ℕ) : Value → Bool
  | .number (.int n) => n.natAbs < 10 ^ limit
  | .arr items => digitsWithinItems limit items
  | .obj members => digitsWithinMembers limit members
  | _ => true

def digitsWithinItems (limit : ℕ) : List Value → Bool
  | [] => true
  | value :: rest => value.digitsWithin limit && digitsWithinItems limit rest

def digitsWithinMembers (limit : ℕ) : List (String × Value) → Bool
  | [] => true
  | (_, value) :: rest => value.digitsWithin limit && digitsWithinMembers limit rest

end

/-- `resolve_workflow` of a document. -/
def resolveDocument (contracts : DocumentContracts) (document : Value) (registry : Registry) :
    Except Exn ResolvedWorkflow :=
  match contracts.readWorkflow document with
  | .error issues => .error (contractError "invalid workflow contract" issues)
  | .ok workflow => do
      let resolved ← resolveWorkflow workflow registry
      -- `document_digest` writes the integers of the document
      if document.digitsWithin intDigitLimit then pure resolved
      else throw (valueError ("Exceeds the limit (" ++ toString intDigitLimit ++
        " digits) for integer string conversion; use sys.set_int_max_str_digits() to " ++
        "increase the limit"))

/-- `validate_workflow_draft`. -/
def validateWorkflowDraft (contracts : DocumentContracts) (drafts : Table WorkflowDraft)
    (draftId : Uuid) (registry : Registry) (expectedRevision : Option Int) :
    Except Exn DraftValidation := do
  let draft ← getWorkflowDraft drafts draftId
  match expectedRevision with
  | some expected =>
      if draft.revision ≠ expected then throw (revisionConflict expected draft.revision)
  | none => pure ()
  match resolveDocument contracts draft.workflow registry with
  | .ok resolved => pure {
      draftId := draftId
      revision := draft.revision
      valid := true
      digest := some (contracts.documentDigest draft.workflow)
      nodeIds := sortedStrings (resolved.operations.rows.map Prod.fst) }
  | .error error =>
      if error.cls = .contractError then pure {
        draftId := draftId
        revision := draft.revision
        valid := false
        issues := error.issues
        message := some error.contractText }
      else throw error

/-- `publish_workflow_draft` up to its own read of the draft. -/
def checkPublication (contracts : DocumentContracts) (drafts : Table WorkflowDraft)
    (draftId : Uuid) (registry : Registry) (expectedRevision : Int) : Except Exn Unit := do
  let validation ← validateWorkflowDraft contracts drafts draftId registry
    (some expectedRevision)
  if validation.valid = false then
    throw (contractError "workflow draft is not publishable" validation.issues)

/-- `register_workflow` of a document, with the stored version that it returns. -/
def registerDocument (contracts : DocumentContracts) (db : Db) (document : Value)
    (registry : Registry) : Except Exn (WorkflowRow × Db) :=
  match contracts.readWorkflow document with
  | .error issues => .error (contractError "invalid workflow contract" issues)
  | .ok workflow => do
      let db ← registerWorkflow db workflow registry (contracts.documentDigest document)
      match db.workflowVersions.row? (workflow.id, workflow.version) with
      | none => throw (keyError ("workflow not found: " ++ workflow.id ++ "@" ++
          workflow.version))
      | some row => pure (row, db)

/-! ## A sample document -/

def sampleNodeDocument (id : String) : Value :=
  .obj [("id", .str id), ("operation", .obj [("capability", .str "sample"),
    ("version", .str "1.0.0"), ("operation", .str "work")]), ("parameters", .obj [])]

/-- A workflow document of any version, with sample nodes and no edges. -/
def nodesDocument (version : String) (nodeIds : List String) : Value :=
  .obj [("api_version", .str "qhpc/v1"), ("kind", .str "Workflow"),
    ("metadata", .obj [("id", .str "pair"), ("name", .str "Pair"), ("version", .str version),
      ("owner", .str "sample"), ("visibility", .str "internal")]),
    ("spec", .obj [("nodes", .arr (nodeIds.map sampleNodeDocument)),
      ("edges", .arr []), ("inputs", .obj []), ("outputs", .obj [])])]

/-- The sample workflow as a document, with any version. -/
def sampleDocument (version : String) : Value := nodesDocument version ["a", "b"]

/-- The version of a sample document. -/
def sampleVersion : Value → Option String
  | .obj [_, _, (_, .obj [_, _, (_, .str version), _, _]), _] => some version
  | _ => none

/-- The contracts of the sample documents. -/
def sampleContracts : DocumentContracts where
  draftSchema _ := []
  readWorkflow document :=
    match sampleVersion document with
    | some version => .ok { sampleWorkflow with version := version }
    | none => .error [⟨"/", "is not a workflow"⟩]
  documentDigest document :=
    match sampleVersion document with
    | some version => version
    | none => ""

theorem sampleContracts_collisionFree : sampleContracts.CollisionFree := by
  intro document document' workflow workflow' hdigest hread hread'
  simp only [sampleContracts] at hdigest hread hread'
  split at hread
  · next version hversion =>
      split at hread'
      · next version' hversion' =>
          simp only [hversion, hversion'] at hdigest
          cases hread
          cases hread'
          rw [hdigest]
      · cases hread'
  · cases hread

end QhpcEcosystem
