/-
The parameters of a task.  `_resolve_node` checks the values of a node,
`_validate_parameter_defaults` the defaults of an operation, and `_task_request`
merges the two.
-/
import QhpcEcosystem.GraphChecks
import QhpcEcosystem.RegistryAdmission
import QhpcEcosystem.RunMeaning

namespace QhpcEcosystem

/-! ## Numbers -/

/-- Python's `<=` on numbers. -/
def Number.le (m n : Number) : Bool := m.lt n || m.eq n

/-- Away from NaN a number that is not below a bound reaches it. -/
theorem Number.le_iff {bound n : Number} :
    bound.le n = true ↔ n.lt bound = false ∧ n ≠ .nan ∧ bound ≠ .nan := by
  cases bound <;> cases n <;> simp [Number.le, Number.lt, Number.eq, le_iff_lt_or_eq.symm]

/-! ## Defaults -/

/-- `isinstance(value, python_types[type])`; a boolean is an `int`. -/
def Value.isInstance : Value → ParameterType → Bool
  | .str _, .string => true
  | .bool _, .integer | .bool _, .number | .bool _, .boolean => true
  | .number (.int _), .integer => true
  | .number _, .number => true
  | _, _ => false

def Value.isBool : Value → Bool
  | .bool _ => true
  | _ => false

/-- The type check of `_validate_parameter_defaults`. -/
def defaultValid (value : Value) (parameter : ParameterDefinition) : Bool :=
  if (parameter.type = .integer ∨ parameter.type = .number) ∧ value.isBool then false
  else value.isInstance parameter.type

/-- The loop body of `_validate_parameter_defaults`. -/
def defaultIssues (path : String) (parameter : ParameterDefinition) : List ContractIssue :=
  (match parameter.default with
    | none => []
    | some value =>
        (if defaultValid value parameter then []
          else [⟨path ++ "/default", "does not match parameter type"⟩]) ++
        (match parameter.enum with
          | some choices =>
              if choices.any (fun choice => value.pyEq choice) then []
              else [⟨path ++ "/default", "is not present in enum"⟩]
          | none => [])) ++
  (match parameter.minimum, parameter.maximum with
    | some minimum, some maximum =>
        if maximum.lt minimum then [⟨path, "minimum must not be greater than maximum"⟩] else []
    | _, _ => [])

/-- `_validate_parameter_defaults`. -/
def validateParameterDefaults (operations : List OperationDefinition) : List ContractIssue :=
  operations.zipIdx.flatMap fun item =>
    item.1.parameters.rows.flatMap fun declared =>
      defaultIssues ("/spec/operations/" ++ toString item.2 ++ "/parameters/" ++ declared.1)
        declared.2

/-- The defaults of every capability of the registry are valid. -/
def Registry.DefaultsValid (registry : Registry) : Prop :=
  ∀ entry ∈ registry.entries, validateParameterDefaults entry.capability.operations = []

/-- The two type checks agree. -/
theorem defaultValid_eq (value : Value) (parameter : ParameterDefinition) :
    defaultValid value parameter = parameterValid value parameter := by
  obtain ⟨type, _, _, _, _, _⟩ := parameter
  cases value with
  | number n => cases n <;> cases type <;> rfl
  | _ => cases type <;> rfl

/-! ## What a value has to satisfy -/

def ParameterDefinition.InEnum (parameter : ParameterDefinition) (value : Value) : Prop :=
  ∀ choices, parameter.enum = some choices → ∃ choice ∈ choices, value.pyEq choice = true

/-- The value compares with the bounds of the parameter and keeps to them. -/
structure ParameterDefinition.InBounds (parameter : ParameterDefinition) (value : Value) :
    Prop where
  minimum : ∀ bound, parameter.minimum = some bound →
    ∃ n, value.number? = some n ∧ bound.le n = true
  maximum : ∀ bound, parameter.maximum = some bound →
    ∃ n, value.number? = some n ∧ n.le bound = true

/-- The value has the declared type and satisfies the enum and the bounds. -/
structure ParameterDefinition.Accepts (parameter : ParameterDefinition) (value : Value) :
    Prop where
  type : parameterValid value parameter = true
  enum : parameter.InEnum value
  bounds : parameter.InBounds value

/-- The parameters of a request against their declarations. -/
structure ParametersSound (declared : Dict String ParameterDefinition)
    (parameters : Dict String Value) : Prop where
  known : ∀ item ∈ parameters.rows, ∃ parameter,
    declared.row? item.1 = some (item.1, parameter)
  required : ∀ item ∈ declared.rows, item.2.required.getD false = true →
    ∃ value, parameters.row? item.1 = some (item.1, value)
  accepted : ∀ item ∈ parameters.rows, ∀ parameter,
    declared.row? item.1 = some (item.1, parameter) → parameter.Accepts item.2

/-- Neither the value nor a bound of the parameter is a NaN, where it has bounds. -/
def ParameterDefinition.Ordered (parameter : ParameterDefinition) (value : Value) : Prop :=
  ∀ bound, parameter.minimum = some bound ∨ parameter.maximum = some bound →
    bound ≠ .nan ∧ value.number? ≠ some .nan

theorem ParameterDefinition.InBounds.ordered {parameter : ParameterDefinition} {value : Value}
    (h : parameter.InBounds value) : parameter.Ordered value := by
  intro bound hbound
  rcases hbound with hminimum | hmaximum
  · obtain ⟨n, hnumber, hle⟩ := h.minimum bound hminimum
    obtain ⟨-, hn, hbound⟩ := Number.le_iff.mp hle
    exact ⟨hbound, by simpa [hnumber] using hn⟩
  · obtain ⟨n, hnumber, hle⟩ := h.maximum bound hmaximum
    obtain ⟨-, hbound, hn⟩ := Number.le_iff.mp hle
    exact ⟨hbound, by simpa [hnumber] using hn⟩

/-- A supplied value is not compared with a NaN, and a default that is used keeps to
the bounds. -/
def BoundsKept (declared : Dict String ParameterDefinition) (supplied : Dict String Value) :
    Prop :=
  ∀ item ∈ declared.rows,
    (∀ value, supplied.row? item.1 = some (item.1, value) → item.2.Ordered value) ∧
    (supplied.row? item.1 = none → ∀ value, item.2.default = some value → item.2.InBounds value)

/-! ## The checks -/

section Checks

variable {registry : Registry}

theorem inEnum_of_issues {parameter : ParameterDefinition} {value : Value} {issue : ContractIssue}
    (h : (match parameter.enum with
      | some choices => if choices.any (fun choice => value.pyEq choice) then [] else [issue]
      | none => []) = []) : parameter.InEnum value := by
  intro choices hchoices
  simp only [hchoices] at h
  by_contra hnone
  rw [if_neg fun hany => hnone (List.any_eq_true.mp hany)] at h
  cases h

theorem defaultIssues_eq_nil {path : String} {parameter : ParameterDefinition}
    (h : defaultIssues path parameter = []) {value : Value}
    (hdefault : parameter.default = some value) :
    parameterValid value parameter = true ∧ parameter.InEnum value := by
  simp only [defaultIssues, hdefault, List.append_eq_nil_iff] at h
  obtain ⟨⟨htype, henum⟩, -⟩ := h
  constructor
  · rw [← defaultValid_eq]
    by_contra hinvalid
    rw [if_neg hinvalid] at htype
    cases htype
  · exact inEnum_of_issues henum

theorem Registry.Resolves.operation? {node : Node} {item : ResolvedOperation}
    (h : registry.Resolves node item) : registry.operation? node = some item := by
  obtain ⟨entry, operation, hentry, hoperation, rfl⟩ := h
  simp [Registry.operation?, hentry, hoperation]

/-- The defaults of a published operation have their types and are in their enums. -/
theorem Registry.DefaultsValid.default (h : registry.DefaultsValid) {node : Node}
    {item : ResolvedOperation} (hresolves : registry.Resolves node item)
    {declared : String × ParameterDefinition} (hmem : declared ∈ item.operation.parameters.rows)
    {value : Value} (hdefault : declared.2.default = some value) :
    parameterValid value declared.2 = true ∧ declared.2.InEnum value := by
  obtain ⟨entry, operation, hentry, hoperation, rfl⟩ := hresolves
  have hissues := h entry (Registry.entryAt_eq_some hentry).1
  obtain ⟨index, hindex⟩ := List.getElem?_of_mem (List.mem_of_find?_eq_some hoperation)
  have hpublished := List.flatMap_eq_nil_iff.mp hissues (operation, index)
    (List.mk_mem_zipIdx_iff_getElem?.mpr hindex)
  exact defaultIssues_eq_nil (List.flatMap_eq_nil_iff.mp hpublished declared hmem) hdefault

/-- Checks that collect no issues have each passed. -/
theorem mapM_eq_nil {ε α β : Type} {f : α → Except ε (List β)} {items : List α}
    {results : List (List β)} (h : items.mapM f = .ok results) (hnone : results.flatten = []) :
    ∀ item ∈ items, f item = .ok [] := by
  induction items generalizing results with
  | nil => simp
  | cons item rest ih =>
      rw [List.mapM_cons] at h
      simp only [bind, Except.bind, pure, Except.pure] at h
      split at h
      · cases h
      · next found hfound =>
          split at h
          · cases h
          · next results hresults =>
              cases h
              rw [List.flatten_cons, List.append_eq_nil_iff] at hnone
              obtain ⟨rfl, hrest⟩ := hnone
              intro other hother
              rcases List.mem_cons.mp hother with rfl | hother
              · exact hfound
              · exact ih hresults hrest other hother

/-- What a node without issues has passed. -/
theorem resolveNode_checked {node : Node} {item : ResolvedOperation}
    (h : resolveNode node registry = .ok ([], some item)) :
    (∀ name ∈ node.parameters.rows.map Prod.fst, (item.operation.parameters.row? name).isSome) ∧
    ∀ declared ∈ item.operation.parameters.rows,
      parameterIssues ("/spec/nodes/" ++ node.id) node.parameters declared = .ok [] := by
  unfold resolveNode at h
  simp only at h
  split at h
  · split at h <;> cases h
  · next entry hentry =>
      split at h
      · cases h
      · next operation hoperation =>
          simp only [bind, Except.bind] at h
          split at h
          · cases h
          · next issues hissues =>
              simp only [pure, Except.pure, Except.ok.injEq, Prod.mk.injEq,
                List.append_eq_nil_iff, List.map_eq_nil_iff, Option.some.injEq] at h
              obtain ⟨⟨⟨-, hunknown⟩, hdeclared⟩, rfl⟩ := h
              constructor
              · intro name hname
                by_contra hnone
                have hmem : name ∈ sortedStrings ((node.parameters.rows.map Prod.fst).filter
                    fun name => (operation.parameters.row? name).isNone) := by
                  rw [(sortedStrings_perm _).mem_iff, List.mem_filter]
                  exact ⟨hname, by simpa using hnone⟩
                rw [hunknown] at hmem
                cases hmem
              · exact mapM_eq_nil hissues hdeclared

/-- The node loop without issues has resolved every node without issues. -/
theorem resolveNodes_checked (nodes : List Node) {issues issues' : List ContractIssue}
    {resolved resolved' : Dict String ResolvedOperation}
    (h : resolveNodes registry nodes issues resolved = .ok (issues', resolved'))
    (hnone : issues' = []) :
    issues = [] ∧ ∀ node ∈ nodes, ∃ item, registry.Resolves node item ∧
      resolveNode node registry = .ok ([], some item) := by
  induction nodes generalizing issues resolved with
  | nil =>
      cases h
      exact ⟨hnone, by simp⟩
  | cons node rest ih =>
      simp only [resolveNodes, bind, Except.bind] at h
      split at h
      · cases h
      · next pair hpair =>
          obtain ⟨found, operation⟩ := pair
          obtain ⟨hempty, hrest⟩ := ih h
          obtain ⟨hold, rfl⟩ := List.append_eq_nil_iff.mp hempty
          obtain ⟨item, rfl, hresolves⟩ := resolveNode_ok hpair rfl
          refine ⟨hold, fun other hother => ?_⟩
          rcases List.mem_cons.mp hother with rfl | hother
          · exact ⟨item, hresolves, hpair⟩
          · exact hrest other hother

theorem parameterIssues_absent {path : String} {supplied : Dict String Value}
    {declared : String × ParameterDefinition}
    (h : parameterIssues path supplied declared = .ok [])
    (habsent : supplied.row? declared.1 = none)
    (hrequired : declared.2.required.getD false = true) :
    ∃ value, declared.2.default = some value := by
  simp only [parameterIssues, habsent, hrequired, true_and] at h
  by_contra hnone
  simp only [not_exists, ← Option.eq_none_iff_forall_ne_some] at hnone
  simp [hnone] at h

/-- A supplied value without issues has its type, is in its enum and is on no wrong
side of a bound. -/
theorem parameterIssues_supplied {path : String} {supplied : Dict String Value}
    {declared : String × ParameterDefinition}
    (h : parameterIssues path supplied declared = .ok []) {name : String} {value : Value}
    (hvalue : supplied.row? declared.1 = some (name, value)) :
    parameterValid value declared.2 = true ∧ declared.2.InEnum value ∧
      (∀ bound, declared.2.minimum = some bound →
        ∃ n, value.number? = some n ∧ n.lt bound = false) ∧
      (∀ bound, declared.2.maximum = some bound →
        ∃ n, value.number? = some n ∧ bound.lt n = false) := by
  simp only [parameterIssues, hvalue] at h
  split at h
  · cases h
  · next hvalid =>
      have hlt : ∀ {below : Bool} {issue : ContractIssue},
          (if below = true then [issue] else []) = [] → below = false := by
        intro below issue hissue
        cases below with
        | false => rfl
        | true => cases hissue
      -- a bound is compared with a number, or the comparison raises
      cases hnumber : value.number? with
      | none =>
          cases hminimum : declared.2.minimum with
          | some bound => simp [hminimum, hnumber, compareBound, bind, Except.bind] at h
          | none =>
              cases hmaximum : declared.2.maximum with
              | some bound =>
                  simp [hminimum, hmaximum, hnumber, compareBound, bind, Except.bind, pure,
                    Except.pure] at h
              | none =>
                  simp only [hminimum, hmaximum, bind, Except.bind, pure, Except.pure,
                    Except.ok.injEq, List.append_nil] at h
                  exact ⟨by simpa using hvalid, inEnum_of_issues h, by simp, by simp⟩
      | some n =>
          cases hminimum : declared.2.minimum with
          | some minimum =>
              cases hmaximum : declared.2.maximum with
              | some maximum =>
                  simp only [hminimum, hmaximum, hnumber, compareBound, bind, Except.bind, pure,
                    Except.pure, Except.ok.injEq, List.append_eq_nil_iff] at h
                  obtain ⟨⟨henum, hbelow⟩, habove⟩ := h
                  exact ⟨by simpa using hvalid, inEnum_of_issues henum,
                    by simpa using hlt hbelow, by simpa using hlt habove⟩
              | none =>
                  simp only [hminimum, hmaximum, hnumber, compareBound, bind, Except.bind, pure,
                    Except.pure, Except.ok.injEq, List.append_eq_nil_iff] at h
                  obtain ⟨⟨henum, hbelow⟩, -⟩ := h
                  exact ⟨by simpa using hvalid, inEnum_of_issues henum,
                    by simpa using hlt hbelow, by simp⟩
          | none =>
              cases hmaximum : declared.2.maximum with
              | some maximum =>
                  simp only [hminimum, hmaximum, hnumber, compareBound, bind, Except.bind, pure,
                    Except.pure, Except.ok.injEq, List.append_eq_nil_iff] at h
                  obtain ⟨⟨henum, -⟩, habove⟩ := h
                  exact ⟨by simpa using hvalid, inEnum_of_issues henum, by simp,
                    by simpa using hlt habove⟩
              | none =>
                  simp only [hminimum, hmaximum, bind, Except.bind, pure, Except.pure,
                    Except.ok.injEq, List.append_nil] at h
                  exact ⟨by simpa using hvalid, inEnum_of_issues h, by simp, by simp⟩

end Checks

/-! ## The request -/

/-- The defaults of an operation. -/
def defaultParameters (declared : Dict String ParameterDefinition) : List (String × Value) :=
  declared.rows.filterMap fun item => item.2.default.map fun value => (item.1, value)

theorem key_defaultParameters {item : String × ParameterDefinition} {default : String × Value}
    (h : (item.2.default.map fun value => (item.1, value)) = some default) :
    default.1 = item.1 := by
  obtain ⟨value, -, rfl⟩ := Option.map_eq_some_iff.mp h
  rfl

theorem find?_defaultParameters (declared : Dict String ParameterDefinition) (name : String) :
    (defaultParameters declared).find? (fun item => decide (item.1 = name)) =
      (declared.row? name).bind fun item => item.2.default.map fun value => (name, value) := by
  cases hrow : declared.row? name with
  | some item =>
      have hname : item.1 = name := Table.key_of_row? hrow
      subst hname
      exact Table.find?_filterMap declared _ Prod.fst (fun _ _ _ h => key_defaultParameters h)
        (Table.mem_of_row? hrow)
  | none =>
      rw [Option.bind_none, List.find?_eq_none]
      intro default hdefault hname
      obtain ⟨item, hitem, hdraw⟩ := List.mem_filterMap.mp hdefault
      exact Table.row?_eq_none_iff.mp hrow item hitem
        ((key_defaultParameters hdraw).symm.trans (of_decide_eq_true hname))

theorem nodup_defaultParameters (declared : Dict String ParameterDefinition) :
    ((defaultParameters declared).map Prod.fst).Nodup :=
  declared.nodup.sublist (Table.sublist_map_filterMap declared.rows _ Prod.fst
    fun _ _ _ h => key_defaultParameters h)

/-- A request holds the value of the node, else the default. -/
theorem row?_requestParameters (operation : TaskOperation) (name : String) :
    (requestParameters operation).row? name =
      (operation.parameters.row? name).or
        ((operation.definition.parameters.row? name).bind fun item =>
          item.2.default.map fun value => (name, value)) := by
  have hdefaults := find?_defaultParameters operation.definition.parameters name
  have hmerged : requestParameters operation = operation.parameters.rows.foldl Table.set
      ((defaultParameters operation.definition.parameters).foldl Table.set Table.empty) :=
    List.foldl_append
  rw [hmerged, Table.row?_foldl_set _ operation.parameters.nodup,
    Table.row?_foldl_set _ (nodup_defaultParameters operation.definition.parameters),
    Table.row?_empty, Option.or_none]
  exact congrArg _ hdefaults

/-- Values that passed the two checks are sound in a request exactly when they keep to
the bounds. -/
theorem parametersSound_iff {operation : TaskOperation} {path : String}
    (hknown : ∀ name ∈ operation.parameters.rows.map Prod.fst,
      (operation.definition.parameters.row? name).isSome)
    (hsupplied : ∀ declared ∈ operation.definition.parameters.rows,
      parameterIssues path operation.parameters declared = .ok [])
    (hdefaults : ∀ declared ∈ operation.definition.parameters.rows, ∀ value,
      declared.2.default = some value →
        parameterValid value declared.2 = true ∧ declared.2.InEnum value) :
    ParametersSound operation.definition.parameters (requestParameters operation) ↔
      BoundsKept operation.definition.parameters operation.parameters := by
  constructor
  · intro h declared hdeclared
    have hrow : operation.definition.parameters.row? declared.1 = some (declared.1, declared.2) :=
      Table.row?_of_mem hdeclared
    constructor
    · intro value hvalue
      have hrequest := row?_requestParameters operation declared.1
      rw [hvalue, Option.some_or] at hrequest
      have haccepted := h.accepted _ (Table.mem_of_row? hrequest) declared.2 hrow
      exact haccepted.bounds.ordered
    · intro habsent value hdefault
      have hrequest := row?_requestParameters operation declared.1
      rw [habsent, Option.none_or, hrow, Option.bind_some, hdefault, Option.map_some] at hrequest
      exact (h.accepted _ (Table.mem_of_row? hrequest) declared.2 hrow).bounds
  · intro h
    -- a value of the request is the one supplied, or else the default
    have hsource : ∀ item ∈ (requestParameters operation).rows,
        operation.parameters.row? item.1 = some item ∨
        (operation.parameters.row? item.1 = none ∧ ∃ parameter,
          operation.definition.parameters.row? item.1 = some (item.1, parameter) ∧
          parameter.default = some item.2) := by
      intro item hitem
      have hrequest := row?_requestParameters operation item.1
      rw [show (requestParameters operation).row? item.1 = some item from
        Table.row?_of_mem hitem] at hrequest
      cases hsupply : operation.parameters.row? item.1 with
      | some found =>
          rw [hsupply, Option.some_or] at hrequest
          exact .inl hrequest.symm
      | none =>
          rw [hsupply, Option.none_or] at hrequest
          obtain ⟨⟨name, parameter⟩, hparameter, hdefault⟩ :=
            Option.bind_eq_some_iff.mp hrequest.symm
          obtain ⟨value, hvalue, hdrawn⟩ := Option.map_eq_some_iff.mp hdefault
          have hname : name = item.1 := Table.key_of_row? hparameter
          have hstored : value = item.2 := congrArg Prod.snd hdrawn
          subst hname hstored
          exact .inr ⟨rfl, parameter, hparameter, hvalue⟩
    refine ⟨fun item hitem => ?_, fun declared hdeclared hrequired => ?_,
      fun item hitem parameter hparameter => ?_⟩
    · rcases hsource item hitem with hsupply | ⟨-, parameter, hparameter, -⟩
      · obtain ⟨⟨name, parameter⟩, hparameter⟩ := Option.isSome_iff_exists.mp
          (hknown item.1 (List.mem_map_of_mem (Table.mem_of_row? hsupply)))
        have hname : name = item.1 := Table.key_of_row? hparameter
        subst hname
        exact ⟨parameter, hparameter⟩
      · exact ⟨parameter, hparameter⟩
    · have hrow : operation.definition.parameters.row? declared.1 = some declared :=
        Table.row?_of_mem hdeclared
      rw [row?_requestParameters]
      cases hsupply : operation.parameters.row? declared.1 with
      | some item =>
          have hname : item.1 = declared.1 := Table.key_of_row? hsupply
          exact ⟨item.2, by rw [Option.some_or, ← hname]⟩
      | none =>
          obtain ⟨value, hvalue⟩ :=
            parameterIssues_absent (hsupplied declared hdeclared) hsupply hrequired
          exact ⟨value, by rw [Option.none_or, hrow, Option.bind_some, hvalue, Option.map_some]⟩
    · have hdeclared : (item.1, parameter) ∈ operation.definition.parameters.rows :=
        Table.mem_of_row? hparameter
      obtain ⟨hordered, hdefaulted⟩ := h _ hdeclared
      rcases hsource item hitem with hsupply | ⟨habsent, other, hother, hvalue⟩
      · obtain ⟨htype, henum, hminimum, hmaximum⟩ :=
          parameterIssues_supplied (hsupplied _ hdeclared) hsupply
        have hapart := hordered item.2 hsupply
        refine ⟨htype, henum, fun bound hbound => ?_, fun bound hbound => ?_⟩
        · obtain ⟨n, hnumber, hlt⟩ := hminimum bound hbound
          obtain ⟨hbound, hn⟩ := hapart bound (.inl hbound)
          exact ⟨n, hnumber, Number.le_iff.mpr ⟨hlt, by simpa [hnumber] using hn, hbound⟩⟩
        · obtain ⟨n, hnumber, hlt⟩ := hmaximum bound hbound
          obtain ⟨hbound, hn⟩ := hapart bound (.inr hbound)
          exact ⟨n, hnumber, Number.le_iff.mpr ⟨hlt, hbound, by simpa [hnumber] using hn⟩⟩
      · have hsame := hother.symm.trans hparameter
        obtain ⟨-, rfl⟩ := Prod.mk.inj (Option.some.inj hsame)
        obtain ⟨htype, henum⟩ := hdefaults _ hdeclared item.2 hvalue
        exact ⟨htype, henum, hdefaulted habsent item.2 hvalue⟩

theorem taskRequestFor_parameters {db : Db} {runId attemptId : Uuid} {nodeId : String}
    {request : TaskRequest} (h : taskRequestFor db runId nodeId attemptId = .ok request) :
    ∃ task, db.task? runId nodeId = some task ∧
      request.parameters = requestParameters task.operation := by
  obtain ⟨_, _, task, _, _, -, -, htask, -, -, rfl⟩ := taskRequestFor_eq_ok h
  exact ⟨task, htask, rfl⟩

/-- The parameters of every request for a run of a workflow that a valid registry
resolved are sound exactly when the values of the node are not compared with a
NaN and the defaults that are used keep to their bounds. -/
theorem request_parameters_sound_exactly {db : Db}
    (hreach : engine.Reachable TransitionSystem.anyStep db) {run : Run} {row : WorkflowRow}
    {registry : Registry} {attemptId : Uuid} {nodeId : String} {request : TaskRequest}
    (hrun : run ∈ db.runs.rows)
    (hrow : db.workflowVersions.row? (run.workflowId, run.workflowVersion) = some row)
    (hresolved : row.ResolvedBy registry) (hdefaults : registry.DefaultsValid)
    (hrequest : taskRequestFor db run.id nodeId attemptId = .ok request) :
    ∃ node item, row.definition.node? nodeId = some node ∧
      registry.operation? node = some item ∧
      (ParametersSound item.operation.parameters request.parameters ↔
        BoundsKept item.operation.parameters node.parameters) := by
  obtain ⟨task, htask, hparameters⟩ := taskRequestFor_parameters hrequest
  obtain ⟨hid, rfl⟩ := Db.place_of_task? htask
  obtain ⟨stored, node, executionTarget, executionClass, hstored, hnode, hoperation⟩ :=
    engine_built hreach task (Table.mem_of_row? htask) run
      (by rw [hid]; exact Table.row?_of_mem hrun) row hrow
  have hmem : node ∈ row.definition.nodes := List.mem_of_find?_eq_some hnode
  have hname : node.id = task.nodeId := by simpa using List.find?_some hnode
  obtain ⟨-, hwf, hnodes, -⟩ := resolveWorkflow_ok hresolved
  obtain ⟨item, hresolves, hchecked⟩ := (resolveNodes_checked _ hnodes rfl).2 node hmem
  have hsame : stored = item := by
    obtain ⟨other, hother, hfound⟩ := resolveWorkflow_resolves hresolved node hmem
    rw [hname] at hother
    obtain ⟨-, rfl⟩ := Prod.mk.inj (Option.some.inj (hstored.symm.trans hother))
    exact Option.some.inj (hfound.operation?.symm.trans hresolves.operation?)
  subst hsame
  refine ⟨node, stored, hnode, hresolves.operation?, ?_⟩
  have hdefinition : task.operation.definition = stored.operation := by rw [hoperation]; rfl
  have hnodeParameters : task.operation.parameters = node.parameters := by rw [hoperation]; rfl
  rw [hparameters, ← hdefinition, ← hnodeParameters]
  obtain ⟨hknown, hsupplied⟩ := resolveNode_checked hchecked
  rw [← hdefinition, ← hnodeParameters] at hknown hsupplied
  exact parametersSound_iff hknown hsupplied fun declared hdeclared value hdefault =>
    hdefaults.default hresolves (hdefinition ▸ hdeclared) hdefault

/-- A number of shots of at least one, with a default. -/
def shotsParameter (shots : Int) : Dict String ParameterDefinition :=
  Table.empty.set ("shots",
    { type := .integer, default := some (.number (.int shots)), minimum := some (.int 1) })

def shotsRegistry (shots : Int) : Registry where
  entries := [⟨"catalog", {
    id := "sample", version := "1.0.0", project := "project",
    operations := [{ sampleOperation with parameters := shotsParameter shots }] }⟩]

/-- A run whose nodes leave the number of shots to the default. -/
def shotsRun (shots : Int) : Db :=
  engine.after (fun _ _ => true) {}
    [(.registerWorkflow sampleWorkflow (shotsRegistry shots) "digest", 0),
     (.submitRun "pair" "1.0.0" none Table.empty "cluster" none, 0)]

/-- The run of the default. -/
def newShotsRun : Run :=
  newRun 0 ⟨"pair", "1.0.0", "digest", sampleWorkflow, Table.empty⟩ "cluster" 0 Table.empty

/-- The stored workflow with the operations that the registry resolves it to. -/
def shotsRow (shots : Int) : WorkflowRow where
  workflowId := "pair"
  version := "1.0.0"
  digest := "digest"
  definition := sampleWorkflow
  resolution := (shotsRegistry shots).resolvedOperations sampleWorkflow

theorem shotsRegistry_defaultsValid (shots : Int) : (shotsRegistry shots).DefaultsValid := by
  intro entry hentry
  rw [List.mem_singleton.mp hentry]
  rfl

theorem shotsRegistry_parameters {shots : Int} {item : ResolvedOperation}
    (h : (shotsRegistry shots).operation? (sampleNode "a") = some item) :
    item.operation.parameters = shotsParameter shots := by
  obtain rfl := Option.some.inj h
  rfl

theorem shotsRun_reachable (shots : Int) :
    engine.Reachable TransitionSystem.anyStep (shotsRun shots) := by
  have hempty : engine.Reachable (fun _ _ => true = true) {} := .initial rfl
  exact (hempty.after _).unguarded

/-- With a default that keeps to its bounds the parameters of a request are sound. -/
theorem request_parameters_sound_shots : ∃ item request,
    taskRequestFor (shotsRun 5) 0 "a" 0 = .ok request ∧
    (shotsRegistry 5).operation? (sampleNode "a") = some item ∧
    ParametersSound item.operation.parameters request.parameters := by
  obtain ⟨request, hrequest⟩ : ∃ request,
    taskRequestFor (shotsRun 5) newShotsRun.id "a" 0 = .ok request := ⟨_, rfl⟩
  have hrun : newShotsRun ∈ (shotsRun 5).runs.rows := List.mem_singleton_self newShotsRun
  have hrow : (shotsRun 5).workflowVersions.row?
    (newShotsRun.workflowId, newShotsRun.workflowVersion) = some (shotsRow 5) := rfl
  have hresolved : (shotsRow 5).ResolvedBy (shotsRegistry 5) := rfl
  obtain ⟨node, item, hnode, hitem, hsound⟩ := request_parameters_sound_exactly
    (shotsRun_reachable 5) hrun hrow hresolved (shotsRegistry_defaultsValid 5) hrequest
  obtain rfl : sampleNode "a" = node := Option.some.inj hnode
  refine ⟨item, request, hrequest, hitem, hsound.mpr ?_⟩
  have hdeclared : item.operation.parameters = shotsParameter 5 := shotsRegistry_parameters hitem
  intro declared hmem
  rw [hdeclared] at hmem
  obtain rfl : declared = _ := List.mem_singleton.mp hmem
  refine ⟨fun value hvalue => (by cases hvalue), fun _ value hvalue => ?_⟩
  obtain rfl : Value.number (.int 5) = value := Option.some.inj hvalue
  refine ⟨fun bound hbound => ?_, fun bound hbound => (by cases hbound)⟩
  obtain rfl : Number.int 1 = bound := Option.some.inj hbound
  exact ⟨.int 5, rfl, by decide⟩

/-- A default below the minimum is valid and reaches the request. -/
theorem request_below_minimum : ∃ item request,
    engine.Reachable TransitionSystem.anyStep (shotsRun 0) ∧
    (shotsRegistry 0).Valid ∧ (shotsRegistry 0).DefaultsValid ∧
    (shotsRow 0).ResolvedBy (shotsRegistry 0) ∧
    (shotsRun 0).workflowVersions.row? ("pair", "1.0.0") = some (shotsRow 0) ∧
    taskRequestFor (shotsRun 0) 0 "a" 0 = .ok request ∧
    (shotsRegistry 0).operation? (sampleNode "a") = some item ∧
    ¬ParametersSound item.operation.parameters request.parameters := by
  obtain ⟨request, hrequest, hparameter⟩ : ∃ request,
    taskRequestFor (shotsRun 0) 0 "a" 0 = .ok request ∧
      request.parameters.rows = [("shots", .number (.int 0))] := ⟨_, rfl, rfl⟩
  obtain ⟨item, hitem⟩ : ∃ item, (shotsRegistry 0).operation? (sampleNode "a") = some item :=
    ⟨_, rfl⟩
  refine ⟨item, request, shotsRun_reachable 0, ⟨by decide, by decide⟩,
    shotsRegistry_defaultsValid 0, rfl, rfl, hrequest, hitem, fun hsound => ?_⟩
  have hdeclared : item.operation.parameters = shotsParameter 0 := shotsRegistry_parameters hitem
  have haccepted := hsound.accepted ("shots", .number (.int 0))
    (by rw [hparameter]; exact List.mem_singleton_self _)
    { type := .integer, default := some (.number (.int 0)), minimum := some (.int 1) }
    (by rw [hdeclared]; rfl)
  obtain ⟨n, hnumber, hle⟩ := haccepted.bounds.minimum (.int 1) rfl
  obtain rfl : Number.int 0 = n := Option.some.inj hnumber
  exact absurd hle (by decide)

end QhpcEcosystem
