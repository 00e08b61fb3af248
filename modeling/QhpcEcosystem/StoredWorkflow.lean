/-
The document that `register_workflow` stores.  `_json` puts the members of every object
in the order of their names; resolution finds members by name and reports on each of
them, so that a document and its stored form resolve to the same operations.
-/
import QhpcEcosystem.GraphChecks

namespace QhpcEcosystem

theorem sortedStrings_congr {values values' : List String} (h : values.Perm values') :
    sortedStrings values = sortedStrings values' :=
  (((sortedStrings_perm values).trans h).trans (sortedStrings_perm values').symm).eq_of_pairwise'
    (List.pairwise_insertionSort _ values) (List.pairwise_insertionSort _ values')

/-! ## Nodes -/

theorem parameterValid_sorted (value : Value) (parameter : ParameterDefinition) :
    parameterValid value.sorted parameter = parameterValid value parameter := by
  cases value <;> cases htype : parameter.type <;> simp [parameterValid, Value.sorted, htype]

/-- Values of a declared type have no members. -/
theorem sorted_of_parameterValid {value : Value} {parameter : ParameterDefinition}
    (h : parameterValid value parameter = true) : value.sorted = value := by
  cases value with
  | arr items | obj members => cases htype : parameter.type <;> simp [parameterValid, htype] at h
  | _ => rfl

theorem Node.row?_stored (node : Node) (name : String) :
    node.stored.parameters.row? name =
      (node.parameters.row? name).map fun item => (item.1, item.2.sorted) := by
  rw [Node.stored, Table.row?_sorted, Table.row?_updateWhere]
  rfl

theorem parameterIssues_stored (path : String) (node : Node)
    (declared : String × ParameterDefinition) :
    parameterIssues path node.stored.parameters declared =
      parameterIssues path node.parameters declared := by
  simp only [parameterIssues, Node.row?_stored]
  cases node.parameters.row? declared.1 with
  | none => rfl
  | some item =>
      simp only [Option.map_some, parameterValid_sorted]
      by_cases hvalid : parameterValid item.2 declared.2 = true
      · rw [sorted_of_parameterValid hvalid]
      · rw [Bool.not_eq_true] at hvalid
        simp [hvalid]

theorem Node.stored_names (node : Node) :
    (node.stored.parameters.rows.map Prod.fst).Perm (node.parameters.rows.map Prod.fst) := by
  have hperm := (Table.rows_sorted_perm
    (node.parameters.updateWhere (fun _ => true) sortParameter)).map Prod.fst
  rw [Table.rows_updateWhere, List.map_map] at hperm
  exact hperm

theorem resolveNode_stored (node : Node) (registry : Registry) :
    resolveNode node.stored registry = resolveNode node registry := by
  have hunknown : ∀ known : String → Bool,
      sortedStrings ((node.stored.parameters.rows.map Prod.fst).filter known) =
        sortedStrings ((node.parameters.rows.map Prod.fst).filter known) := fun known =>
    sortedStrings_congr (node.stored_names.filter known)
  have hissues : ∀ path, parameterIssues path node.stored.parameters =
      parameterIssues path node.parameters := fun path =>
    funext fun declared => parameterIssues_stored path node declared
  simp only [resolveNode, hunknown, hissues]
  rfl

theorem resolveNodes_stored (registry : Registry) (nodes : List Node)
    (issues : List ContractIssue) (resolved : Dict String ResolvedOperation) :
    resolveNodes registry (nodes.map Node.stored) issues resolved =
      resolveNodes registry nodes issues resolved := by
  induction nodes generalizing issues resolved with
  | nil => rfl
  | cons node rest ih =>
      simp only [List.map_cons, resolveNodes, resolveNode_stored, ih]
      rfl

/-! ## Connections -/

section Connections

variable {resolved : Dict String ResolvedOperation}

/-- The port that a workflow input counts towards. -/
def countedInput (resolved : Dict String ResolvedOperation)
    (item : String × WorkflowInput) : List (String × String) :=
  if (resolved.row? item.2.target.node).isSome then [inputPort item] else []

theorem resolveInputs_incoming (inputs : List (String × WorkflowInput))
    (incoming : List (String × String)) :
    (resolveInputs resolved inputs incoming).2 =
      incoming ++ inputs.flatMap (countedInput resolved) := by
  induction inputs generalizing incoming with
  | nil => simp [resolveInputs]
  | cons head rest ih =>
      obtain ⟨name, input⟩ := head
      simp only [resolveInputs, ih, countIncoming, List.flatMap_cons, countedInput, inputPort]
      split <;> simp

theorem resolveInputs_issues (inputs : List (String × WorkflowInput))
    (incoming : List (String × String)) :
    (resolveInputs resolved inputs incoming).1 = inputs.flatMap fun item =>
      inputIssues resolved item.2.target.node item.2.target.port item.2.artifactType
        ("/spec/inputs/" ++ item.1 ++ "/to/port")
        ("/spec/inputs/" ++ item.1 ++ "/artifact_type") := by
  induction inputs generalizing incoming with
  | nil => rfl
  | cons head rest ih =>
      obtain ⟨name, input⟩ := head
      simp only [resolveInputs, ih, List.flatMap_cons]

/-- The order of the connections does not matter to the ports that are left out. -/
theorem unconnectedIssues_congr {incoming incoming' : List (String × String)}
    (h : incoming.Perm incoming') :
    unconnectedIssues resolved incoming = unconnectedIssues resolved incoming' := by
  simp only [unconnectedIssues, h.count_eq]

end Connections

/-! ## Documents -/

variable {workflow : Workflow}

@[simp] theorem Workflow.stored_nodeIds (workflow : Workflow) :
    workflow.stored.nodeIds = workflow.nodeIds := by
  rw [Workflow.nodeIds, Workflow.stored, List.map_map]
  rfl

theorem Workflow.WellFormed.stored (h : workflow.WellFormed) : workflow.stored.WellFormed where
  nodup := by
    rw [Workflow.stored_nodeIds]
    exact h.nodup
  sources edge hedge := by
    rw [Workflow.stored_nodeIds]
    exact h.sources edge hedge
  targets edge hedge := by
    rw [Workflow.stored_nodeIds]
    exact h.targets edge hedge
  edgeTypes := h.edgeTypes
  inputs item hitem := by
    rw [Workflow.stored_nodeIds]
    exact h.inputs item (Table.mem_rows_sorted.mp hitem)
  outputs item hitem := by
    rw [Workflow.stored_nodeIds]
    exact h.outputs item (Table.mem_rows_sorted.mp hitem)
  acyclic := h.acyclic

/-- The stored document resolves to the operations of the document. -/
theorem resolveWorkflow_stored {registry : Registry} {resolved : ResolvedWorkflow}
    (h : resolveWorkflow workflow registry = .ok resolved) :
    resolveWorkflow workflow.stored registry = .ok ⟨workflow.stored, resolved.operations⟩ := by
  obtain ⟨-, hwf, hnodes, hedges, hinputs, houtputs, hconnected⟩ := resolveWorkflow_ok h
  have hnodes' : resolveNodes registry workflow.stored.nodes [] Table.empty =
      .ok ([], resolved.operations) := by
    rw [Workflow.stored, resolveNodes_stored, hnodes]
  have hissues : (resolveInputs resolved.operations workflow.stored.inputs.rows
      (resolveEdges resolved.operations workflow.edges.zipIdx []).2).1 = [] := by
    rw [resolveInputs_issues, List.flatMap_eq_nil_iff] at hinputs ⊢
    exact fun item hitem => hinputs item (Table.mem_rows_sorted.mp hitem)
  have houtputs' : resolveOutputs resolved.operations workflow.stored.outputs.rows = [] := by
    rw [resolveOutputs, List.flatMap_eq_nil_iff] at houtputs ⊢
    exact fun item hitem => houtputs item (Table.mem_rows_sorted.mp hitem)
  have hincoming : (resolveInputs resolved.operations workflow.stored.inputs.rows
      (resolveEdges resolved.operations workflow.edges.zipIdx []).2).2.Perm
      (resolveInputs resolved.operations workflow.inputs.rows
        (resolveEdges resolved.operations workflow.edges.zipIdx []).2).2 := by
    rw [resolveInputs_incoming, resolveInputs_incoming]
    exact (workflow.inputs.rows_sorted_perm.flatMap_right _).append_left _
  have hconnected' := (unconnectedIssues_congr hincoming).trans hconnected
  have hsame : workflow.stored.edges = workflow.edges := rfl
  simp [resolveWorkflow, validateWorkflow_of_wellFormed hwf.stored, hnodes', hsame, hedges,
    hissues, houtputs', hconnected', bind, Except.bind, pure, Except.pure]

end QhpcEcosystem
