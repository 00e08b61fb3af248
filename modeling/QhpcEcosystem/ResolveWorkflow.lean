/-
Resolution of a workflow against a capability registry: every node to one
operation, every edge and every workflow port to a declared port of the right
artifact type.  A document is accepted when the collected issues are empty.
-/
import QhpcEcosystem.WorkflowGraph
import QhpcEcosystem.CapabilityLookup

namespace QhpcEcosystem

structure ResolvedOperation where
  nodeId : String
  capabilityId : String
  capabilityVersion : String
  project : String
  operation : OperationDefinition

structure ResolvedWorkflow where
  definition : Workflow
  operations : Dict String ResolvedOperation

/-- `_parameter_valid`. -/
def parameterValid (value : Value) (parameter : ParameterDefinition) : Bool :=
  match parameter.type, value with
  | .boolean, .bool _ => true
  | .integer, .number (.int _) => true
  | .number, .number _ => true
  | .string, .str _ => true
  | _, _ => false

/-- Comparison of a parameter value with a bound; text does not compare with a
number. -/
def compareBound (symbol : String) (compare : Number → Number → Bool) (value : Value)
    (bound : Number) : Except Exn Bool :=
  match value.number? with
  | some n => .ok (compare n bound)
  | none => .error ⟨.typeError, "'" ++ symbol ++
      "' not supported between instances of 'str' and '" ++ bound.typeName ++ "'", []⟩

/-- The issues `_resolve_node` reports for one declared parameter. -/
def parameterIssues (path : String) (supplied : Dict String Value)
    (declared : String × ParameterDefinition) : Except Exn (List ContractIssue) :=
  let parameterPath := path ++ "/parameters/" ++ declared.1
  let parameter := declared.2
  match supplied.row? declared.1 with
  | none =>
      if parameter.required.getD false = true ∧ parameter.default.isNone then
        .ok [⟨parameterPath, "required parameter missing"⟩]
      else .ok []
  | some (_, value) =>
      if parameterValid value parameter = false then
        .ok [⟨parameterPath, "value does not match declared type " ++ parameter.type.name⟩]
      else do
        let enumIssues : List ContractIssue :=
          match parameter.enum with
          | some choices =>
              if choices.any (fun choice => value.pyEq choice) then []
              else [⟨parameterPath, "value is not in enum"⟩]
          | none => []
        let minimumIssues : List ContractIssue ←
          match parameter.minimum with
          | some bound => do
              let below ← compareBound "<" Number.lt value bound
              pure (if below then [⟨parameterPath, "value is below minimum"⟩] else [])
          | none => pure []
        let maximumIssues : List ContractIssue ←
          match parameter.maximum with
          | some bound => do
              let above ← compareBound ">" (fun n limit => limit.lt n) value bound
              pure (if above then [⟨parameterPath, "value is above maximum"⟩] else [])
          | none => pure []
        pure (enumIssues ++ minimumIssues ++ maximumIssues)

/-- `_resolve_node`: the issues it appends and the operation it returns. -/
def resolveNode (node : Node) (registry : Registry) :
    Except Exn (List ContractIssue × Option ResolvedOperation) :=
  let reference := node.operation
  let path := "/spec/nodes/" ++ node.id
  match findRegistryEntry registry reference.capability (some reference.version) with
  | .error error =>
      if error.cls = .other "RegistryError" then
        .ok ([⟨path ++ "/operation", error.message⟩], none)
      else .error error
  | .ok entry =>
      let capability := entry.capability
      match capability.operations.find? fun operation =>
          operation.id = reference.operation with
      | none =>
          .ok ([⟨path ++ "/operation/operation",
            "operation not found: " ++ reference.operation⟩], none)
      | some operation => do
          let deprecatedIssues : List ContractIssue :=
            if capability.deprecated.getD false then
              [⟨path ++ "/operation", "capability is deprecated"⟩] else []
          let targetIssues : List ContractIssue :=
            match node.executionTarget with
            | some target =>
                if target ≠ "" ∧ target ∉ operation.executionTargets then
                  [⟨path ++ "/execution_target",
                    "operation does not support execution target " ++ target⟩] else []
            | none => []
          let unknown := sortedStrings ((node.parameters.rows.map Prod.fst).filter
            fun name => (operation.parameters.row? name).isNone)
          let unknownIssues := unknown.map fun name =>
            ContractIssue.mk (path ++ "/parameters/" ++ name) "unknown parameter"
          let declaredIssues ← operation.parameters.rows.mapM
            (parameterIssues path node.parameters)
          pure (deprecatedIssues ++ targetIssues ++ unknownIssues ++ declaredIssues.flatten,
            some ⟨node.id, capability.id, capability.version, capability.project, operation⟩)

/-- The node loop of `resolve_workflow`. -/
def resolveNodes (registry : Registry) :
    List Node → List ContractIssue → Dict String ResolvedOperation →
      Except Exn (List ContractIssue × Dict String ResolvedOperation)
  | [], issues, resolved => .ok (issues, resolved)
  | node :: rest, issues, resolved => do
      let (found, operation) ← resolveNode node registry
      resolveNodes registry rest (issues ++ found)
        (match operation with
          | some operation => resolved.set (node.id, operation)
          | none => resolved)

section Ports

variable (resolved : Dict String ResolvedOperation)

/-- Check a reference to an output port of a resolved node. -/
def outputIssues (node port artifactType portPath typePath : String) :
    List ContractIssue :=
  match resolved.row? node with
  | none => []
  | some (_, operation) =>
      match operation.operation.outputs.row? port with
      | none => [⟨portPath, "output port not found"⟩]
      | some (_, output) =>
          if output.artifactType ≠ artifactType then
            [⟨typePath, "does not match output port"⟩] else []

/-- Check a reference to an input port of a resolved node. -/
def inputIssues (node port artifactType portPath typePath : String) :
    List ContractIssue :=
  match resolved.row? node with
  | none => []
  | some (_, operation) =>
      match operation.operation.inputs.row? port with
      | none => [⟨portPath, "input port not found"⟩]
      | some (_, input) =>
          if input.artifactType ≠ artifactType then
            [⟨typePath, "does not match input port"⟩] else []

/-- A second artifact for a port that accepts one; `incoming` lists the ports
connected so far, this connection included. -/
def multipleIssues (incoming : List (String × String)) (node port path : String) :
    List ContractIssue :=
  match resolved.row? node with
  | none => []
  | some (_, operation) =>
      match operation.operation.inputs.row? port with
      | none => []
      | some (_, input) =>
          if input.isMultiple = false ∧ 1 < incoming.count (node, port) then
            [⟨path, "input accepts only one artifact"⟩] else []

/-- `incoming[key] = incoming.get(key, 0) + 1`, for a resolved target. -/
def countIncoming (incoming : List (String × String)) (node port : String) :
    List (String × String) :=
  if (resolved.row? node).isSome then incoming ++ [(node, port)] else incoming

/-- The edge loop of `resolve_workflow`. -/
def resolveEdges : List (Edge × Nat) → List (String × String) →
    List ContractIssue × List (String × String)
  | [], incoming => ([], incoming)
  | (edge, index) :: rest, incoming =>
      let path := "/spec/edges/" ++ toString index
      let incoming := countIncoming resolved incoming edge.target.node edge.target.port
      let found :=
        outputIssues resolved edge.source.node edge.source.port edge.source.artifactType
          (path ++ "/from/port") (path ++ "/from/artifact_type") ++
        inputIssues resolved edge.target.node edge.target.port edge.target.artifactType
          (path ++ "/to/port") (path ++ "/to/artifact_type") ++
        multipleIssues resolved incoming edge.target.node edge.target.port (path ++ "/to")
      let (issues, final) := resolveEdges rest incoming
      (found ++ issues, final)

/-- The workflow input loop of `resolve_workflow`. -/
def resolveInputs : List (String × WorkflowInput) → List (String × String) →
    List ContractIssue × List (String × String)
  | [], incoming => ([], incoming)
  | (name, input) :: rest, incoming =>
      let path := "/spec/inputs/" ++ name
      let found := inputIssues resolved input.target.node input.target.port
        input.artifactType (path ++ "/to/port") (path ++ "/artifact_type")
      let (issues, final) := resolveInputs rest
        (countIncoming resolved incoming input.target.node input.target.port)
      (found ++ issues, final)

/-- The workflow output loop of `resolve_workflow`. -/
def resolveOutputs (outputs : List (String × WorkflowOutput)) : List ContractIssue :=
  outputs.flatMap fun item =>
    let path := "/spec/outputs/" ++ item.1
    outputIssues resolved item.2.source.node item.2.source.port item.2.artifactType
      (path ++ "/from/port") (path ++ "/artifact_type")

/-- Required input ports without a connection. -/
def unconnectedIssues (incoming : List (String × String)) : List ContractIssue :=
  resolved.rows.flatMap fun item =>
    item.2.operation.inputs.rows.flatMap fun port =>
      if port.2.isRequired ∧ incoming.count (item.1, port.1) = 0 then
        [⟨"/spec/nodes/" ++ item.1 ++ "/inputs/" ++ port.1,
          "required input is not connected"⟩] else []

end Ports

/-- `resolve_workflow`. -/
def resolveWorkflow (workflow : Workflow) (registry : Registry) :
    Except Exn ResolvedWorkflow := do
  let invalid := validateWorkflow workflow
  if invalid ≠ [] then throw (contractError "invalid workflow contract" invalid)
  let (nodeIssues, resolved) ← resolveNodes registry workflow.nodes [] Table.empty
  let (edgeIssues, incoming) := resolveEdges resolved workflow.edges.zipIdx []
  let (inputIssues, incoming) := resolveInputs resolved workflow.inputs.rows incoming
  let issues := nodeIssues ++ edgeIssues ++ inputIssues ++
    resolveOutputs resolved workflow.outputs.rows ++ unconnectedIssues resolved incoming
  if issues ≠ [] then throw (contractError "workflow is incompatible with registry" issues)
  pure ⟨workflow, resolved⟩

/-! ## What acceptance establishes -/

/-- An output port that a resolved node declares. -/
def ResolvedWorkflow.HasOutput (resolved : ResolvedWorkflow)
    (node port artifactType : String) : Prop :=
  ∃ operation output, resolved.operations.row? node = some (node, operation) ∧
    operation.operation.outputs.row? port = some (port, output) ∧
    output.artifactType = artifactType

/-- An input port that a resolved node declares. -/
def ResolvedWorkflow.HasInput (resolved : ResolvedWorkflow)
    (node port artifactType : String) : Prop :=
  ∃ operation input, resolved.operations.row? node = some (node, operation) ∧
    operation.operation.inputs.row? port = some (port, input) ∧
    input.artifactType = artifactType

/-- Every node has its operation and every reference meets a declared port. -/
structure ResolvedWorkflow.Sound (resolved : ResolvedWorkflow) : Prop where
  wellFormed : resolved.definition.WellFormed
  nodes : ∀ node ∈ resolved.definition.nodes, ∃ operation,
    resolved.operations.row? node.id = some (node.id, operation)
  known : ∀ item ∈ resolved.operations.rows, item.1 ∈ resolved.definition.nodeIds
  edgeSources : ∀ edge ∈ resolved.definition.edges,
    resolved.HasOutput edge.source.node edge.source.port edge.source.artifactType
  edgeTargets : ∀ edge ∈ resolved.definition.edges,
    resolved.HasInput edge.target.node edge.target.port edge.target.artifactType
  inputs : ∀ item ∈ resolved.definition.inputs.rows,
    resolved.HasInput item.2.target.node item.2.target.port item.2.artifactType
  outputs : ∀ item ∈ resolved.definition.outputs.rows,
    resolved.HasOutput item.2.source.node item.2.source.port item.2.artifactType

/-- The registry publishes the operation that the node refers to. -/
def Registry.Resolves (registry : Registry) (node : Node) (item : ResolvedOperation) : Prop :=
  ∃ entry operation,
    registry.entryAt node.operation.capability node.operation.version = some entry ∧
    entry.capability.operations.find? (fun operation =>
      operation.id = node.operation.operation) = some operation ∧
    item = ⟨node.id, entry.capability.id, entry.capability.version, entry.capability.project,
      operation⟩

theorem resolveNode_ok {node : Node} {registry : Registry} {issues : List ContractIssue}
    {operation : Option ResolvedOperation}
    (h : resolveNode node registry = .ok (issues, operation)) (hissues : issues = []) :
    ∃ found, operation = some found ∧ registry.Resolves node found := by
  unfold resolveNode at h
  simp only at h
  split at h
  · split at h
    · cases h
      cases hissues
    · cases h
  · next entry hentry =>
      split at h
      · cases h
        cases hissues
      · next published hpublished =>
          simp only [bind, Except.bind] at h
          split at h
          · cases h
          · simp only [pure, Except.pure, Except.ok.injEq, Prod.mk.injEq] at h
            exact ⟨_, h.2.symm, entry, published, (findRegistryEntry_ok hentry).1, hpublished, rfl⟩

/-- The node loop keeps the entries it has and adds one for every node without
issues. -/
theorem resolveNodes_ok {registry : Registry} (nodes : List Node)
    (hnodup : (nodes.map Node.id).Nodup) {issues issues' : List ContractIssue}
    {resolved resolved' : Dict String ResolvedOperation}
    (h : resolveNodes registry nodes issues resolved = .ok (issues', resolved'))
    (hissues : issues' = []) :
    issues = [] ∧
    (∀ node ∈ nodes, ∃ operation, resolved'.row? node.id = some (node.id, operation) ∧
      registry.Resolves node operation) ∧
    (∀ name, name ∉ nodes.map Node.id → resolved'.row? name = resolved.row? name) := by
  induction nodes generalizing issues resolved with
  | nil =>
      simp only [resolveNodes, Except.ok.injEq, Prod.mk.injEq] at h
      obtain ⟨rfl, rfl⟩ := h
      exact ⟨hissues, by simp, fun _ _ => rfl⟩
  | cons node rest ih =>
      obtain ⟨hfresh, hrest⟩ := List.nodup_cons.mp hnodup
      simp only [resolveNodes, bind, Except.bind] at h
      split at h
      · cases h
      · next pair hpair =>
          obtain ⟨found, operation⟩ := pair
          obtain ⟨hempty, hnodes, hframe⟩ := ih hrest h
          obtain ⟨hold, hfound⟩ := List.append_eq_nil_iff.mp hempty
          obtain ⟨found', rfl, hresolves⟩ := resolveNode_ok hpair hfound
          refine ⟨hold, ?_, ?_⟩
          · intro other hother
            rcases List.mem_cons.mp hother with rfl | hother
            · refine ⟨found', ?_, hresolves⟩
              rw [hframe other.id hfresh, Table.row?_set]
              simp [Keyed.key]
            · exact hnodes other hother
          · intro name hname
            simp only [List.map_cons, List.mem_cons, not_or] at hname
            rw [hframe name hname.2, Table.row?_set]
            have hne : ¬ node.id = name := fun h => hname.1 h.symm
            simp [Keyed.key, hne]

theorem outputIssues_eq_nil (resolved : ResolvedWorkflow)
    {node port artifactType portPath typePath : String} {operation : ResolvedOperation}
    (hnode : resolved.operations.row? node = some (node, operation))
    (h : outputIssues resolved.operations node port artifactType portPath typePath = []) :
    resolved.HasOutput node port artifactType := by
  simp only [outputIssues, hnode] at h
  split at h
  · cases h
  · next name output hfound =>
      have hname : name = port := Table.key_of_row? hfound
      subst hname
      refine ⟨operation, output, hnode, hfound, ?_⟩
      by_contra hne
      simp [hne] at h

theorem inputIssues_eq_nil (resolved : ResolvedWorkflow)
    {node port artifactType portPath typePath : String} {operation : ResolvedOperation}
    (hnode : resolved.operations.row? node = some (node, operation))
    (h : inputIssues resolved.operations node port artifactType portPath typePath = []) :
    resolved.HasInput node port artifactType := by
  simp only [inputIssues, hnode] at h
  split at h
  · cases h
  · next name input hfound =>
      have hname : name = port := Table.key_of_row? hfound
      subst hname
      refine ⟨operation, input, hnode, hfound, ?_⟩
      by_contra hne
      simp [hne] at h

theorem resolveEdges_eq_nil {resolved : Dict String ResolvedOperation}
    (edges : List (Edge × Nat)) (incoming : List (String × String))
    (h : (resolveEdges resolved edges incoming).1 = []) :
    ∀ item ∈ edges, ∃ portPath typePath portPath' typePath',
      outputIssues resolved item.1.source.node item.1.source.port
        item.1.source.artifactType portPath typePath = [] ∧
      inputIssues resolved item.1.target.node item.1.target.port
        item.1.target.artifactType portPath' typePath' = [] := by
  induction edges generalizing incoming with
  | nil => simp
  | cons head rest ih =>
      obtain ⟨edge, index⟩ := head
      simp only [resolveEdges, List.append_eq_nil_iff] at h
      obtain ⟨⟨⟨houtput, hinput⟩, -⟩, hrest⟩ := h
      intro item hitem
      rcases List.mem_cons.mp hitem with rfl | hitem
      · exact ⟨_, _, _, _, houtput, hinput⟩
      · exact ih _ hrest item hitem

theorem resolveInputs_eq_nil {resolved : Dict String ResolvedOperation}
    (inputs : List (String × WorkflowInput)) (incoming : List (String × String))
    (h : (resolveInputs resolved inputs incoming).1 = []) :
    ∀ item ∈ inputs, ∃ portPath typePath,
      inputIssues resolved item.2.target.node item.2.target.port item.2.artifactType
        portPath typePath = [] := by
  induction inputs generalizing incoming with
  | nil => simp
  | cons head rest ih =>
      obtain ⟨name, input⟩ := head
      simp only [resolveInputs, List.append_eq_nil_iff] at h
      intro item hitem
      rcases List.mem_cons.mp hitem with rfl | hitem
      · exact ⟨_, _, h.1⟩
      · exact ih _ h.2 item hitem

/-- What an accepted workflow has passed. -/
theorem resolveWorkflow_ok {workflow : Workflow} {registry : Registry}
    {resolved : ResolvedWorkflow} (h : resolveWorkflow workflow registry = .ok resolved) :
    resolved.definition = workflow ∧ workflow.WellFormed ∧
    resolveNodes registry workflow.nodes [] Table.empty = .ok ([], resolved.operations) ∧
    (resolveEdges resolved.operations workflow.edges.zipIdx []).1 = [] ∧
    (resolveInputs resolved.operations workflow.inputs.rows
      (resolveEdges resolved.operations workflow.edges.zipIdx []).2).1 = [] ∧
    resolveOutputs resolved.operations workflow.outputs.rows = [] ∧
    unconnectedIssues resolved.operations
      (resolveInputs resolved.operations workflow.inputs.rows
        (resolveEdges resolved.operations workflow.edges.zipIdx []).2).2 = [] := by
  simp only [resolveWorkflow, bind, Except.bind, ne_eq, ite_not] at h
  split at h
  · next hvalid =>
      simp only [pure, Except.pure] at h
      split at h
      · cases h
      · next pair hnodes =>
          obtain ⟨nodeIssues, operations⟩ := pair
          split at h
          · next hissues =>
              cases h
              simp only [List.append_eq_nil_iff] at hissues
              obtain ⟨⟨⟨⟨rfl, hedge⟩, hinput⟩, houtput⟩, hunconnected⟩ := hissues
              exact ⟨rfl, wellFormed_of_validateWorkflow hvalid, hnodes, hedge, hinput, houtput,
                hunconnected⟩
          · cases h
  · cases h

/-- Every node of an accepted workflow has the operation it refers to. -/
theorem resolveWorkflow_resolves {workflow : Workflow} {registry : Registry}
    {resolved : ResolvedWorkflow} (h : resolveWorkflow workflow registry = .ok resolved) :
    ∀ node ∈ workflow.nodes, ∃ item,
      resolved.operations.row? node.id = some (node.id, item) ∧ registry.Resolves node item := by
  obtain ⟨-, hwf, hnodes, -⟩ := resolveWorkflow_ok h
  exact (resolveNodes_ok workflow.nodes hwf.nodup hnodes rfl).2.1

/-- References without issues are sound when every node has its operation. -/
theorem sound_of_checks {resolved : ResolvedWorkflow} (hwf : resolved.definition.WellFormed)
    (hrow : ∀ name ∈ resolved.definition.nodeIds, ∃ operation,
      resolved.operations.row? name = some (name, operation))
    (hknown : ∀ item ∈ resolved.operations.rows, item.1 ∈ resolved.definition.nodeIds)
    (hedge : (resolveEdges resolved.operations resolved.definition.edges.zipIdx []).1 = [])
    {incoming : List (String × String)}
    (hinput : (resolveInputs resolved.operations resolved.definition.inputs.rows incoming).1 = [])
    (houtput : resolveOutputs resolved.operations resolved.definition.outputs.rows = []) :
    resolved.Sound := by
  refine ⟨hwf, ?_, hknown, ?_, ?_, ?_, ?_⟩
  · intro node hnode
    exact hrow node.id (List.mem_map_of_mem hnode)
  · intro edge hmem
    obtain ⟨index, hindex⟩ := List.getElem?_of_mem hmem
    obtain ⟨_, _, _, _, hissue, -⟩ := resolveEdges_eq_nil _ _ hedge (edge, index)
      (List.mk_mem_zipIdx_iff_getElem?.mpr hindex)
    obtain ⟨operation, hop⟩ := hrow _ (hwf.sources edge hmem)
    exact outputIssues_eq_nil resolved hop hissue
  · intro edge hmem
    obtain ⟨index, hindex⟩ := List.getElem?_of_mem hmem
    obtain ⟨_, _, _, _, -, hissue⟩ := resolveEdges_eq_nil _ _ hedge (edge, index)
      (List.mk_mem_zipIdx_iff_getElem?.mpr hindex)
    obtain ⟨operation, hop⟩ := hrow _ (hwf.targets edge hmem)
    exact inputIssues_eq_nil resolved hop hissue
  · intro item hitem
    obtain ⟨_, _, hissue⟩ := resolveInputs_eq_nil _ _ hinput item hitem
    obtain ⟨operation, hop⟩ := hrow _ (hwf.inputs item hitem)
    exact inputIssues_eq_nil resolved hop hissue
  · intro item hitem
    have hissue := List.flatMap_eq_nil_iff.mp houtput item hitem
    obtain ⟨operation, hop⟩ := hrow _ (hwf.outputs item hitem)
    exact outputIssues_eq_nil resolved hop hissue

/-- An accepted workflow is sound. -/
theorem resolveWorkflow_sound {workflow : Workflow} {registry : Registry}
    {resolved : ResolvedWorkflow} (h : resolveWorkflow workflow registry = .ok resolved) :
    resolved.definition = workflow ∧ resolved.Sound := by
  obtain ⟨rfl, hwf, hnodes, hedge, hinput, houtput, -⟩ := resolveWorkflow_ok h
  obtain ⟨-, hrows, hframe⟩ := resolveNodes_ok _ hwf.nodup hnodes rfl
  refine ⟨rfl, sound_of_checks hwf ?_ ?_ hedge hinput houtput⟩
  · intro name hname
    obtain ⟨node, hmem, rfl⟩ := List.mem_map.mp hname
    obtain ⟨operation, hoperation, -⟩ := hrows node hmem
    exact ⟨operation, hoperation⟩
  · intro item hitem
    by_contra hunknown
    have hsome := Table.row?_of_mem hitem
    have hnone := hframe item.1 hunknown
    rw [show Keyed.key item = item.1 from rfl] at hsome
    simp [hsome] at hnone

/-- The edge loop counts targets of edges only. -/
theorem mem_resolveEdges {resolved : Dict String ResolvedOperation} {pair : String × String}
    (edges : List (Edge × Nat)) (incoming : List (String × String))
    (h : pair ∈ (resolveEdges resolved edges incoming).2) :
    pair ∈ incoming ∨ ∃ item ∈ edges, pair = (item.1.target.node, item.1.target.port) := by
  induction edges generalizing incoming with
  | nil => exact .inl h
  | cons head rest ih =>
      obtain ⟨edge, index⟩ := head
      simp only [resolveEdges] at h
      rcases ih _ h with hmem | ⟨item, hitem, heq⟩
      · unfold countIncoming at hmem
        split at hmem
        · rcases List.mem_append.mp hmem with hold | hnew
          · exact .inl hold
          · exact .inr ⟨_, List.mem_cons_self, List.mem_singleton.mp hnew⟩
        · exact .inl hmem
      · exact .inr ⟨item, List.mem_cons_of_mem _ hitem, heq⟩

theorem mem_resolveInputs {resolved : Dict String ResolvedOperation} {pair : String × String}
    (inputs : List (String × WorkflowInput)) (incoming : List (String × String))
    (h : pair ∈ (resolveInputs resolved inputs incoming).2) :
    pair ∈ incoming ∨ ∃ item ∈ inputs, pair = (item.2.target.node, item.2.target.port) := by
  induction inputs generalizing incoming with
  | nil => exact .inl h
  | cons head rest ih =>
      obtain ⟨name, input⟩ := head
      simp only [resolveInputs] at h
      rcases ih _ h with hmem | ⟨item, hitem, heq⟩
      · unfold countIncoming at hmem
        split at hmem
        · rcases List.mem_append.mp hmem with hold | hnew
          · exact .inl hold
          · exact .inr ⟨_, List.mem_cons_self, List.mem_singleton.mp hnew⟩
        · exact .inl hmem
      · exact .inr ⟨item, List.mem_cons_of_mem _ hitem, heq⟩

/-- A required input port without an issue is connected. -/
theorem connected_of_checks {resolved : Dict String ResolvedOperation} {edges : List Edge}
    {inputs : List (String × WorkflowInput)}
    (hconnected : unconnectedIssues resolved
      (resolveInputs resolved inputs (resolveEdges resolved edges.zipIdx []).2).2 = [])
    {node : String} {operation : ResolvedOperation} (hoperation : (node, operation) ∈ resolved.rows)
    {port : String × PortDefinition} (hport : port ∈ operation.operation.inputs.rows)
    (hrequired : port.2.isRequired = true) :
    (∃ edge ∈ edges, edge.target.node = node ∧ edge.target.port = port.1) ∨
    ∃ item ∈ inputs, item.2.target.node = node ∧ item.2.target.port = port.1 := by
  have hport := List.flatMap_eq_nil_iff.mp
    (List.flatMap_eq_nil_iff.mp hconnected _ hoperation) port hport
  simp only [hrequired, true_and, ite_eq_right_iff, reduceCtorEq, imp_false] at hport
  have hmem := List.count_pos_iff.mp (Nat.pos_of_ne_zero hport)
  rcases mem_resolveInputs _ _ hmem with hedge | ⟨item, hitem, heq⟩
  · rcases mem_resolveEdges _ _ hedge with hnone | ⟨item, hitem, heq⟩
    · cases hnone
    · obtain ⟨hnode, hname⟩ := Prod.mk.inj heq
      exact .inl ⟨item.1, (List.mem_zipIdx' hitem).2 ▸ List.getElem_mem _, hnode.symm, hname.symm⟩
  · obtain ⟨hnode, hname⟩ := Prod.mk.inj heq
    exact .inr ⟨item, hitem, hnode.symm, hname.symm⟩

/-- Every required input port of an accepted workflow is connected. -/
theorem resolveWorkflow_connected {workflow : Workflow} {registry : Registry}
    {resolved : ResolvedWorkflow} (h : resolveWorkflow workflow registry = .ok resolved)
    {node : String} {operation : ResolvedOperation}
    (hoperation : (node, operation) ∈ resolved.operations.rows)
    {port : String × PortDefinition} (hport : port ∈ operation.operation.inputs.rows)
    (hrequired : port.2.isRequired = true) :
    (∃ edge ∈ workflow.edges, edge.target.node = node ∧ edge.target.port = port.1) ∨
    ∃ item ∈ workflow.inputs.rows, item.2.target.node = node ∧ item.2.target.port = port.1 := by
  obtain ⟨-, -, -, -, -, -, hconnected⟩ := resolveWorkflow_ok h
  exact connected_of_checks hconnected hoperation hport hrequired

end QhpcEcosystem
