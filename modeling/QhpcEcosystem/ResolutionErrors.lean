/-
What `resolve_workflow` raises.  Its checks report issues and end in one
`ContractError`, but a parameter that is declared as a text may have a bound, and
comparing a text with a number raises; so do the lookup of a version with a number that
`int` refuses, and the digest of a document with an integer that is too long to be written.
-/
import QhpcEcosystem.GraphChecks
import QhpcEcosystem.ParameterBounds
import QhpcEcosystem.WorkflowDrafts

namespace QhpcEcosystem

/-! ## Computations that may raise -/

/-- The computation raises `TypeError` or `ValueError` exactly when the condition holds,
and nothing else. -/
def RaisesIff {α : Type} (bad : Prop) (result : Except Exn α) : Prop :=
  (¬bad ∧ ∃ value, result = .ok value) ∨
    (bad ∧ ∃ error, result = .error error ∧ (error.cls = .typeError ∨ error.cls = .valueError))

namespace RaisesIff

variable {α β : Type} {bad bad' : Prop} {result : Except Exn α}

theorem congr (h : RaisesIff bad result) (hiff : bad ↔ bad') : RaisesIff bad' result := by
  unfold RaisesIff
  rwa [← hiff]

theorem pure (h : ¬bad) (value : α) : RaisesIff bad (.ok value) :=
  .inl ⟨h, value, rfl⟩

/-- One computation after the other. -/
theorem bind {next : α → Except Exn β} (h : RaisesIff bad result)
    (hnext : ∀ value, result = .ok value → RaisesIff bad' (next value)) :
    RaisesIff (bad ∨ bad') (result >>= next) := by
  rcases h with ⟨hgood, value, rfl⟩ | ⟨hbad, error, rfl, hcls⟩
  · exact (hnext value rfl).congr (by simp [hgood])
  · exact .inr ⟨.inl hbad, error, rfl, hcls⟩

theorem mapM {ι : Type} {wrong : ι → Prop} {f : ι → Except Exn α} (items : List ι)
    (h : ∀ item ∈ items, RaisesIff (wrong item) (f item)) :
    RaisesIff (∃ item ∈ items, wrong item) (items.mapM f) := by
  induction items with
  | nil => exact .pure (by simp) []
  | cons item rest ih =>
      rw [List.mapM_cons]
      have hrest := ih fun other hother => h other (List.mem_cons_of_mem _ hother)
      have hboth := (h item List.mem_cons_self).bind fun value _ =>
        hrest.bind fun values _ => RaisesIff.pure not_false (value :: values)
      exact hboth.congr (by simp)

end RaisesIff

/-! ## The checks of a node -/

/-- A parameter that is declared as a text and has a bound. -/
def ParameterDefinition.TextBounded (parameter : ParameterDefinition) : Prop :=
  parameter.type = .string ∧ (parameter.minimum.isSome ∨ parameter.maximum.isSome)

/-- The node supplies a text for a text parameter with a bound. -/
def Node.BoundsText (node : Node) (declared : Dict String ParameterDefinition) : Prop :=
  ∃ parameter ∈ declared.rows, parameter.2.TextBounded ∧
    ∃ text, node.parameters.row? parameter.1 = some (parameter.1, .str text)

/-- Some node of the workflow does so for the operation that the registry publishes. -/
def Workflow.BoundsText (workflow : Workflow) (registry : Registry) : Prop :=
  ∃ node ∈ workflow.nodes, ∃ item, registry.operation? node = some item ∧
    node.BoundsText item.operation.parameters

/-- The node pins a published version with a number that `int` refuses. -/
def Node.PinsOverlong (node : Node) (registry : Registry) : Prop :=
  (registry.entryAt node.operation.capability node.operation.version).isSome ∧
    OverlongVersion node.operation.version

def Workflow.PinsOverlong (workflow : Workflow) (registry : Registry) : Prop :=
  ∃ node ∈ workflow.nodes, node.PinsOverlong registry

section Checks

variable {registry : Registry}

/-- A value of its declared type is a text or compares as a number. -/
theorem valid_cases {value : Value} {parameter : ParameterDefinition}
    (h : parameterValid value parameter = true) :
    (parameter.type = .string ∧ ∃ text, value = .str text) ∨
      (parameter.type ≠ .string ∧ ∃ n, value.number? = some n) := by
  unfold parameterValid at h
  split at h
  · next b htype => exact .inr ⟨by simp [htype], _, rfl⟩
  · next n htype => exact .inr ⟨by simp [htype], _, rfl⟩
  · next n htype => exact .inr ⟨by simp [htype], _, rfl⟩
  · next text htype => exact .inl ⟨htype, text, rfl⟩
  · cases h

/-- The check of a declared parameter. -/
theorem parameterIssues_raises (path : String) (supplied : Dict String Value)
    (declared : String × ParameterDefinition) :
    RaisesIff (declared.2.TextBounded ∧
      ∃ text, supplied.row? declared.1 = some (declared.1, .str text))
      (parameterIssues path supplied declared) := by
  cases hsupplied : supplied.row? declared.1 with
  | none =>
      simp only [parameterIssues, hsupplied]
      split
      · exact .pure (by simp) _
      · exact .pure (by simp) _
  | some item =>
      obtain ⟨name, value⟩ := item
      have hname : name = declared.1 := Table.key_of_row? hsupplied
      subst hname
      simp only [parameterIssues, hsupplied]
      split
      · next hinvalid =>
          refine .pure ?_ _
          rintro ⟨⟨htype, -⟩, text, hvalue⟩
          obtain rfl : value = .str text := congrArg Prod.snd (Option.some.inj hvalue)
          simp [parameterValid, htype] at hinvalid
      · next hvalid =>
          rcases valid_cases (by simpa using hvalid) with ⟨htype, text, rfl⟩ | ⟨htype, n, hnumber⟩
          · cases hminimum : declared.2.minimum with
            | some bound =>
                refine .inr ⟨⟨⟨htype, ?_⟩, text, rfl⟩, ?_⟩
                · simp [hminimum]
                · exact ⟨_, rfl, .inl rfl⟩
            | none =>
                cases hmaximum : declared.2.maximum with
                | some bound =>
                    refine .inr ⟨⟨⟨htype, ?_⟩, text, rfl⟩, ?_⟩
                    · simp [hmaximum]
                    · exact ⟨_, rfl, .inl rfl⟩
                | none =>
                    refine .pure ?_ _
                    rintro ⟨⟨-, hbound⟩, -⟩
                    simp [hminimum, hmaximum] at hbound
          · have hgood : ¬(declared.2.TextBounded ∧ ∃ text, some (declared.1, value) =
                some (declared.1, Value.str text)) := fun hbad => htype hbad.1.1
            simp only [compareBound, hnumber]
            cases hminimum : declared.2.minimum with
            | some bound =>
                cases hmaximum : declared.2.maximum with
                | some bound => exact .pure hgood _
                | none => exact .pure hgood _
            | none =>
                cases hmaximum : declared.2.maximum with
                | some bound => exact .pure hgood _
                | none => exact .pure hgood _

theorem resolveNode_raises (node : Node) (registry : Registry) :
    RaisesIff (node.PinsOverlong registry ∨ ∃ item, registry.operation? node = some item ∧
      node.BoundsText item.operation.parameters) (resolveNode node registry) := by
  unfold resolveNode
  simp only
  split
  · next error herror =>
      rcases findRegistryEntry_error herror with ⟨hentry, hclass⟩ | ⟨hentry, hlong, hvalue⟩
      · rw [if_pos hclass]
        refine .pure ?_ _
        simp [Registry.operation?, Node.PinsOverlong, hentry]
      · rw [if_neg (by rw [hvalue]; decide)]
        exact .inr ⟨.inl ⟨hentry, hlong⟩, error, rfl, .inr hvalue⟩
  · next entry hfound =>
      obtain ⟨hentry, hshort⟩ := findRegistryEntry_ok hfound
      split
      · next hoperation =>
          refine .pure ?_ _
          simp [Registry.operation?, Node.PinsOverlong, hentry, hshort, hoperation]
      · next operation hoperation =>
          have hchecks := RaisesIff.mapM operation.parameters.rows fun declared _ =>
            parameterIssues_raises ("/spec/nodes/" ++ node.id) node.parameters declared
          refine (hchecks.bind fun issues _ => RaisesIff.pure not_false _).congr ?_
          simp [Registry.operation?, Node.PinsOverlong, hentry, hshort, hoperation,
            Node.BoundsText]

/-- The node loop. -/
theorem resolveNodes_raises (nodes : List Node) (issues : List ContractIssue)
    (resolved : Dict String ResolvedOperation) :
    RaisesIff (∃ node ∈ nodes, node.PinsOverlong registry ∨
        ∃ item, registry.operation? node = some item ∧ node.BoundsText item.operation.parameters)
      (resolveNodes registry nodes issues resolved) := by
  induction nodes generalizing issues resolved with
  | nil => exact .pure (by simp) _
  | cons node rest ih =>
      have hnode := resolveNode_raises node registry
      exact (hnode.bind fun pair _ => ih (issues ++ pair.1) _).congr (by simp)

theorem Workflow.raises_iff (workflow : Workflow) (registry : Registry) :
    (∃ node ∈ workflow.nodes, node.PinsOverlong registry ∨
      ∃ item, registry.operation? node = some item ∧ node.BoundsText item.operation.parameters) ↔
    workflow.BoundsText registry ∨ workflow.PinsOverlong registry := by
  simp only [and_or_left, exists_or, Workflow.BoundsText, Workflow.PinsOverlong]
  exact or_comm

end Checks

/-- A workflow that is not well formed ends in a `ContractError` with its issues. -/
theorem resolveWorkflow_invalid {workflow : Workflow} {registry : Registry}
    (h : validateWorkflow workflow ≠ []) : resolveWorkflow workflow registry =
      .error (contractError "invalid workflow contract" (validateWorkflow workflow)) := by
  simp only [resolveWorkflow, bind, Except.bind, if_pos h]
  rfl

/-- The checks after the node loop return or end in one `ContractError`. -/
theorem resolveWorkflow_checked {workflow : Workflow} {registry : Registry}
    (hvalid : validateWorkflow workflow = [])
    {pair : List ContractIssue × Dict String ResolvedOperation}
    (hnodes : resolveNodes registry workflow.nodes [] Table.empty = .ok pair) :
    (∃ resolved, resolveWorkflow workflow registry = .ok resolved) ∨
      ∃ error, resolveWorkflow workflow registry = .error error ∧
        error.cls = .contractError ∧ error.issues ≠ [] := by
  simp only [resolveWorkflow, bind, Except.bind, hvalid, hnodes, ne_eq, not_true_eq_false,
    if_false]
  split
  · next hissues => exact .inr ⟨_, rfl, rfl, hissues⟩
  · exact .inl ⟨_, rfl⟩

theorem resolveWorkflow_raises {workflow : Workflow} {registry : Registry}
    (hvalid : validateWorkflow workflow = []) {error : Exn}
    (hnodes : resolveNodes registry workflow.nodes [] Table.empty = .error error) :
    resolveWorkflow workflow registry = .error error := by
  simp [resolveWorkflow, bind, Except.bind, hvalid, hnodes]

/-- The checks of the nodes and of the graph have no issue. -/
def Workflow.PassesChecks (workflow : Workflow) (registry : Registry) : Prop :=
  (∃ operations, resolveNodes registry workflow.nodes [] Table.empty = .ok ([], operations)) ∧
    GraphChecks registry workflow

theorem Workflow.PassesChecks.not_raises {workflow : Workflow} {registry : Registry}
    (h : workflow.PassesChecks registry) :
    ¬(workflow.BoundsText registry ∨ workflow.PinsOverlong registry) := by
  obtain ⟨⟨operations, hnodes⟩, -⟩ := h
  rcases (resolveNodes_raises workflow.nodes [] Table.empty).congr
    (workflow.raises_iff registry) with ⟨hgood, -⟩ | ⟨-, error, hother, -⟩
  · exact hgood
  · cases hnodes.symm.trans hother

/-- An error of the resolution of a valid workflow is a `ContractError` with an issue,
unless a node raises. -/
theorem resolveWorkflow_error_iff {workflow : Workflow} {registry : Registry} {error : Exn}
    (hvalid : validateWorkflow workflow = [])
    (hraised : resolveWorkflow workflow registry = .error error) :
    (error.cls = .contractError ∧ error.issues ≠ []) ↔
      ¬(workflow.BoundsText registry ∨ workflow.PinsOverlong registry) := by
  rcases (resolveNodes_raises workflow.nodes [] Table.empty).congr
    (workflow.raises_iff registry) with ⟨hgood, pair, hnodes⟩ | ⟨hbad, other, hnodes, hcls⟩
  · refine iff_of_true ?_ hgood
    rcases resolveWorkflow_checked hvalid hnodes with ⟨resolved, hok⟩ | ⟨other, hother, h⟩
    · cases hraised.symm.trans hok
    · rwa [Except.error.inj (hraised.symm.trans hother)]
  · refine iff_of_false ?_ (not_not_intro hbad)
    obtain rfl := Except.error.inj ((resolveWorkflow_raises hvalid hnodes).symm.trans hraised)
    rintro ⟨hcontract, -⟩
    simp [hcontract] at hcls

/-- The digest of a document raises when an integer of it is too long. -/
theorem resolveDocument_of_read {contracts : DocumentContracts} {document : Value}
    {workflow : Workflow} {registry : Registry}
    (hread : contracts.readWorkflow document = .ok workflow) :
    (∃ error, resolveWorkflow workflow registry = .error error ∧
      resolveDocument contracts document registry = .error error) ∨
    ∃ resolved, resolveWorkflow workflow registry = .ok resolved ∧
      (document.digitsWithin intDigitLimit = true ∧
          resolveDocument contracts document registry = .ok resolved ∨
        document.digitsWithin intDigitLimit = false ∧ ∃ error,
          resolveDocument contracts document registry = .error error ∧
          error.cls = .valueError) := by
  simp only [resolveDocument, hread, bind, Except.bind]
  cases resolveWorkflow workflow registry with
  | error error => exact .inl ⟨error, rfl, rfl⟩
  | ok resolved =>
      refine .inr ⟨resolved, rfl, ?_⟩
      cases document.digitsWithin intDigitLimit with
      | true => exact .inl ⟨rfl, rfl⟩
      | false => exact .inr ⟨rfl, _, rfl, rfl⟩

/-- `resolve_workflow` returns with every node resolved or raises `ContractError` with
an issue, exactly when the document does not pass the contract of workflows, or no node
supplies a text for a text parameter with a bound, none pins a published version with a
number that `int` refuses, and a document without other issues has no integer that is too
long to be written. -/
theorem resolveDocument_contractError_exactly {contracts : DocumentContracts}
    (hschema : ∀ document issues, contracts.readWorkflow document = .error issues → issues ≠ [])
    (document : Value) (registry : Registry) :
    ((∃ resolved, resolveDocument contracts document registry = .ok resolved ∧
        ∀ node ∈ resolved.definition.nodes, ∃ item,
          resolved.operations.row? node.id = some (node.id, item)) ∨
      ∃ error, resolveDocument contracts document registry = .error error ∧
        error.cls = .contractError ∧ error.issues ≠ []) ↔
    ∀ workflow, contracts.readWorkflow document = .ok workflow →
      validateWorkflow workflow = [] →
        ¬workflow.BoundsText registry ∧ ¬workflow.PinsOverlong registry ∧
        (workflow.PassesChecks registry → document.digitsWithin intDigitLimit = true) := by
  cases hread : contracts.readWorkflow document with
  | error issues =>
      have hissues := hschema document issues hread
      simp [resolveDocument, hread, contractError, hissues]
  | ok workflow =>
      simp only [Except.ok.injEq, forall_eq']
      have hchecks : (∃ resolved, resolveWorkflow workflow registry = .ok resolved) ↔
          workflow.PassesChecks registry := resolveWorkflow_ok_iff
      rcases resolveDocument_of_read hread with
        ⟨error, hraised, hdocument⟩ | ⟨resolved, hok, hdigits⟩
      · -- the resolution raises, and its error is the one of the document
        have hfails : ¬workflow.PassesChecks registry := by
          intro hpasses
          obtain ⟨resolved, hok⟩ := hchecks.mpr hpasses
          cases hraised.symm.trans hok
        rw [hdocument]
        by_cases hvalid : validateWorkflow workflow = []
        · have herror := resolveWorkflow_error_iff hvalid hraised
          constructor
          · rintro (⟨resolved, hok, -⟩ | ⟨found, hfound, hissues⟩) -
            · cases hok
            · cases hfound
              have hgood := not_or.mp (herror.mp hissues)
              exact ⟨hgood.1, hgood.2, fun hpasses => absurd hpasses hfails⟩
          · intro hgood
            obtain ⟨hbounds, hpins, -⟩ := hgood hvalid
            exact .inr ⟨error, rfl, herror.mpr (not_or.mpr ⟨hbounds, hpins⟩)⟩
        · obtain rfl := Except.error.inj (hraised.symm.trans (resolveWorkflow_invalid hvalid))
          exact iff_of_true (.inr ⟨_, rfl, rfl, hvalid⟩) fun hnone => absurd hnone hvalid
      · have hpasses : workflow.PassesChecks registry := hchecks.mp ⟨resolved, hok⟩
        have hgood := not_or.mp hpasses.not_raises
        have hcontract := hpasses.2.contract
        obtain ⟨rfl, hsound⟩ := resolveWorkflow_sound hok
        rcases hdigits with ⟨hwithin, hdocument⟩ | ⟨hbeyond, error, hdocument, hcls⟩
        · exact iff_of_true (.inl ⟨resolved, hdocument, hsound.nodes⟩)
            fun _ => ⟨hgood.1, hgood.2, fun _ => hwithin⟩
        · refine iff_of_false ?_ fun h => ?_
          · rw [hdocument]
            rintro (⟨found, hfound, -⟩ | ⟨found, hfound, hcontract, -⟩)
            · cases hfound
            · cases hfound
              rw [hcontract] at hcls
              cases hcls
          · have hwithin := (h hcontract).2.2 hpasses
            rw [hbeyond] at hwithin
            cases hwithin

theorem resolveDocument_contractError_sample :
    (∃ resolved, resolveDocument sampleContracts (sampleDocument "1.0.0") sampleRegistry =
        .ok resolved ∧ ∀ node ∈ resolved.definition.nodes, ∃ item,
          resolved.operations.row? node.id = some (node.id, item)) ∨
      ∃ error, resolveDocument sampleContracts (sampleDocument "1.0.0") sampleRegistry =
        .error error ∧ error.cls = .contractError ∧ error.issues ≠ [] := by
  have hschema : ∀ document issues,
      sampleContracts.readWorkflow document = .error issues → issues ≠ [] := by
    intro document issues h
    simp only [sampleContracts] at h
    split at h
    · cases h
    · cases h
      exact List.cons_ne_nil _ _
  apply (resolveDocument_contractError_exactly hschema (sampleDocument "1.0.0")
    sampleRegistry).mpr
  intro workflow hread _
  obtain rfl : sampleWorkflow = workflow := Except.ok.inj hread
  have hparameters : ∀ node ∈ sampleWorkflow.nodes, node.parameters = Table.empty := by
    intro node hnode
    simp only [sampleWorkflow, List.mem_cons, List.not_mem_nil, or_false] at hnode
    rcases hnode with rfl | rfl
    · rfl
    · rfl
  constructor
  · rintro ⟨node, hnode, item, hitem, parameter, -, -, text, htext⟩
    rw [hparameters node hnode] at htext
    cases htext
  · refine ⟨?_, fun _ => rfl⟩
    rintro ⟨node, hnode, -, hlong⟩
    have hversion : ∀ node ∈ sampleWorkflow.nodes, ¬ OverlongVersion node.operation.version := by
      decide
    exact hversion node hnode hlong

/-- The sample operation with a text parameter that has a minimum. -/
def labelRegistry : Registry where
  entries := [⟨"catalog", {
    id := "sample", version := "1.0.0", project := "project",
    operations := [{ sampleOperation with parameters := Table.empty.set ("label",
      { type := .string, minimum := some (.int 0) }) }] }⟩]

/-- A workflow whose node supplies a text for it. -/
def labelWorkflow (label : String) : Workflow where
  id := "pair"
  version := "1.0.0"
  nodes := [{ sampleNode "a" with parameters := Table.empty.set ("label", .str label) }]
  nonempty := by simp
  edges := []
  inputs := Table.empty
  outputs := Table.empty

def labelDocument (label : String) : Value :=
  .obj [("api_version", .str "qhpc/v1"), ("kind", .str "Workflow"),
    ("metadata", .obj [("id", .str "pair"), ("name", .str "Pair"), ("version", .str "1.0.0"),
      ("owner", .str "sample"), ("visibility", .str "internal")]),
    ("spec", .obj [
      ("nodes", .arr [.obj [("id", .str "a"), ("operation", .obj [("capability", .str "sample"),
        ("version", .str "1.0.0"), ("operation", .str "work")]),
        ("parameters", .obj [("label", .str label)])]]),
      ("edges", .arr []), ("inputs", .obj []), ("outputs", .obj [])])]

/-- The label in such a document. -/
def documentLabel : Value → Option String
  | .obj [_, _, _, (_, .obj [(_, .arr [.obj [_, _, (_, .obj [(_, .str label)])]]), _, _, _])] =>
      some label
  | _ => none

/-- The contracts of these documents. -/
def labelContracts : DocumentContracts where
  draftSchema _ := []
  readWorkflow document :=
    match documentLabel document with
    | some label => .ok (labelWorkflow label)
    | none => .error [⟨"/", "is not a workflow"⟩]
  documentDigest _ := ""

/-- A text for a text parameter with a minimum raises `TypeError`. -/
theorem resolveDocument_raises_typeError :
    labelRegistry.Valid ∧ labelRegistry.DefaultsValid ∧
    resolveDocument labelContracts (labelDocument "x") labelRegistry = .error ⟨.typeError,
      "'<' not supported between instances of 'str' and 'int'", []⟩ := by
  refine ⟨⟨by decide, by decide⟩, fun entry hentry => ?_, rfl⟩
  rw [List.mem_singleton.mp hentry]
  rfl

end QhpcEcosystem
