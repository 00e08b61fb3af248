/-
What a workflow computes.  A task depends on its operation, its parameters and the
contents of its inputs; it fails or gives contents for its outputs.  The meaning of
a workflow evaluates its nodes in dependency order, each on the outputs of its
parents.
-/
import QhpcEcosystem.ClaimTask
import QhpcEcosystem.Dataflow

namespace QhpcEcosystem

universe u

variable {γ : Type u}

/-! ## Tasks as functions -/

/-- What a task depends on: neither the run and the attempt nor their directory. -/
structure TaskCall (γ : Type u) where
  capabilityId : String
  capabilityVersion : String
  operationId : String
  project : String
  runtimeType : String
  runtimeReference : String
  runtimeDigest : String
  entrypoint : List String
  arguments : List String
  resources : Dict String Int
  outputTypes : Dict String String
  parameters : Dict String Value
  inputs : String → Option γ

/-- A task fails, or gives contents for every port that may be declared. -/
abbrev TaskFunction (γ : Type u) := TaskCall γ → Option (String → γ)

def TaskOperation.call (operation : TaskOperation) (inputs : String → Option γ) :
    TaskCall γ where
  capabilityId := operation.capability
  capabilityVersion := operation.version
  operationId := operation.operation
  project := operation.project
  runtimeType := operation.definition.runtime.type
  runtimeReference := operation.definition.runtime.reference
  runtimeDigest := operation.definition.runtime.digest
  entrypoint := operation.definition.invocation.entrypoint
  arguments := operation.definition.invocation.arguments
  resources := operation.definition.resources
  outputTypes := outputTypes operation.definition.outputs
  parameters := requestParameters operation
  inputs := inputs

/-- The operation of a node, whatever target and class it runs on. -/
def ResolvedOperation.taskOperation (item : ResolvedOperation) (node : Node) :
    TaskOperation where
  capability := item.capabilityId
  version := item.capabilityVersion
  operation := item.operation.id
  project := item.project
  definition := item.operation
  parameters := node.parameters
  executionTarget := none
  executionClass := none

/-- The contents of the declared ports. -/
def declaredContents (declared : Dict String PortDefinition) (contents : String → γ)
    (port : String) : Option γ :=
  if (declared.row? port).isSome then some (contents port) else none

/-! ## Inputs of a node -/

/-- The contents of the given workflow inputs of a node, by port. -/
def gatherInputs (given : String → Option γ) (nodeId : String) :
    List (String × WorkflowInput) → (String → Option γ) → String → Option γ
  | [], inputs => inputs
  | (name, input) :: rest, inputs =>
      if input.target.node = nodeId ∧ (given name).isSome then
        gatherInputs given nodeId rest (Function.update inputs input.target.port (given name))
      else gatherInputs given nodeId rest inputs

/-- The contents of the outputs that the edges lead to a node, by port. -/
def gatherEdges (outputs : String → String → Option γ) (nodeId : String) :
    List Edge → (String → Option γ) → String → Option γ
  | [], inputs => inputs
  | edge :: rest, inputs =>
      if edge.target.node = nodeId then
        gatherEdges outputs nodeId rest (Function.update inputs edge.target.port
          (outputs edge.source.node edge.source.port))
      else gatherEdges outputs nodeId rest inputs

/-- The contents of the inputs of a node.  The edges come after the workflow inputs,
and what comes later replaces what was there. -/
def Workflow.gather (definition : Workflow) (given : String → Option γ)
    (outputs : String → String → Option γ) (nodeId : String) : String → Option γ :=
  gatherEdges outputs nodeId definition.edges
    (gatherInputs given nodeId definition.inputs.rows fun _ => none)

theorem mem_parents {definition : Workflow} {nodeId parent : String} :
    parent ∈ parents definition nodeId ↔
      ∃ edge ∈ definition.edges, edge.target.node = nodeId ∧ edge.source.node = parent := by
  simp [parents, and_assoc]

theorem gatherEdges_congr {outputs outputs' : String → String → Option γ} {nodeId : String}
    {edges : List Edge} {inputs : String → Option γ}
    (h : ∀ edge ∈ edges, edge.target.node = nodeId →
      outputs edge.source.node = outputs' edge.source.node) :
    gatherEdges outputs nodeId edges inputs = gatherEdges outputs' nodeId edges inputs := by
  induction edges generalizing inputs with
  | nil => rfl
  | cons edge rest ih =>
      have hrest : ∀ inputs, gatherEdges outputs nodeId rest inputs =
          gatherEdges outputs' nodeId rest inputs := fun _ =>
        ih fun other hother => h other (List.mem_cons_of_mem _ hother)
      simp only [gatherEdges, hrest]
      split
      · next hnode => rw [h edge List.mem_cons_self hnode]
      · rfl

/-- A node gathers the outputs of its parents. -/
theorem Workflow.gather_congr {definition : Workflow} {given : String → Option γ}
    {outputs outputs' : String → String → Option γ} {nodeId : String}
    (h : ∀ parent ∈ parents definition nodeId, outputs parent = outputs' parent) :
    definition.gather given outputs nodeId = definition.gather given outputs' nodeId :=
  gatherEdges_congr fun edge hedge hnode =>
    h edge.source.node (mem_parents.mpr ⟨edge, hedge, hnode, rfl⟩)

/-! ## The meaning -/

namespace WorkflowRow

/-- The outputs of a node from those of the others: nothing while a parent has none
or when the task fails. -/
def value (row : WorkflowRow) (task : TaskFunction γ) (given : String → Option γ)
    (values : String → Option (String → Option γ)) (nodeId : String) :
    Option (String → Option γ) :=
  match row.resolution.row? nodeId, row.definition.node? nodeId with
  | some (_, item), some node =>
      if (parents row.definition nodeId).all fun parent => (values parent).isSome then
        let inputs := row.definition.gather given
          (fun source port => (values source).bind fun contents => contents port) nodeId
        (task ((item.taskOperation node).call inputs)).map
          (declaredContents item.operation.outputs)
      else none
  | _, _ => none

/-- The outputs of every node, in dependency order. -/
def meaning (row : WorkflowRow) (task : TaskFunction γ) (given : String → Option γ) :
    String → Option (String → Option γ) :=
  Dataflow.evaluate (row.value task given) (topologicalNodes row.definition) fun _ => none

/-- The contents that the meaning gives a port of a node. -/
def meaningAt (row : WorkflowRow) (task : TaskFunction γ) (given : String → Option γ)
    (nodeId port : String) : Option γ :=
  (row.meaning task given nodeId).bind fun contents => contents port

/-- The task of the node fails on what the meaning gives its parents. -/
def FailsAt (row : WorkflowRow) (task : TaskFunction γ) (given : String → Option γ)
    (nodeId : String) : Prop :=
  ∃ item node, row.resolution.row? nodeId = some (nodeId, item) ∧
    row.definition.node? nodeId = some node ∧
    (∀ parent ∈ parents row.definition nodeId, (row.meaning task given parent).isSome = true) ∧
    task ((item.taskOperation node).call
      (row.definition.gather given (row.meaningAt task given) nodeId)) = none

variable {row : WorkflowRow} {task : TaskFunction γ} {given : String → Option γ}

theorem value_local : Dataflow.Local (parents row.definition) (row.value task given) := by
  intro values values' nodeId hsame
  have hready : ((parents row.definition nodeId).all fun parent => (values parent).isSome) =
      (parents row.definition nodeId).all fun parent => (values' parent).isSome := by
    rw [Bool.eq_iff_iff, List.all_eq_true, List.all_eq_true]
    exact forall₂_congr fun parent hparent => by rw [hsame parent hparent]
  have hgather : row.definition.gather given
        (fun source port => (values source).bind fun contents => contents port) nodeId =
      row.definition.gather given
        (fun source port => (values' source).bind fun contents => contents port) nodeId :=
    Workflow.gather_congr fun parent hparent => by rw [hsame parent hparent]
  simp only [value, hready, hgather]

/-- The meaning satisfies the rule of every node. -/
theorem meaning_solves (hwf : row.definition.WellFormed) :
    Dataflow.Solves (row.value task given) (· ∈ row.definition.nodeIds)
      (row.meaning task given) := by
  have hnodup := topologicalNodes_nodup hwf
  intro nodeId hnode
  refine Dataflow.evaluate_solves value_local (fun pre node post heq => ?_) nodeId
    ((mem_topologicalNodes hwf nodeId).mpr hnode)
  rw [heq] at hnodup
  obtain ⟨-, hsuffix, hdisjoint⟩ := List.nodup_append'.mp hnodup
  refine ⟨(List.nodup_cons.mp hsuffix).1, fun parent hparent => ?_⟩
  obtain ⟨edge, hedge, htarget, rfl⟩ := mem_parents.mp hparent
  exact hdisjoint (topologicalNodes_before hwf heq hedge htarget)

/-- What satisfies the rules on nodes that include their parents is the meaning
there. -/
theorem eq_meaning (hwf : row.definition.WellFormed) {nodes : String → Prop}
    {values : String → Option (String → Option γ)}
    (hnodes : ∀ nodeId, nodes nodeId → nodeId ∈ row.definition.nodeIds ∧
      ∀ parent ∈ parents row.definition nodeId, nodes parent)
    (h : Dataflow.Solves (row.value task given) nodes values) :
    ∀ nodeId, nodes nodeId → values nodeId = row.meaning task given nodeId := by
  obtain ⟨rank, hrank⟩ := hwf.acyclic
  refine Dataflow.Solves.unique value_local rank (fun nodeId hnode parent hparent => ?_) h
    fun nodeId hnode => meaning_solves hwf nodeId (hnodes nodeId hnode).1
  obtain ⟨edge, hedge, rfl, rfl⟩ := mem_parents.mp hparent
  exact ⟨(hnodes _ hnode).2 _ hparent, hrank edge hedge⟩

/-- A node on which the task fails has no outputs. -/
theorem FailsAt.meaning_eq_none (hwf : row.definition.WellFormed) {nodeId : String}
    (hnode : nodeId ∈ row.definition.nodeIds) (h : row.FailsAt task given nodeId) :
    row.meaning task given nodeId = none := by
  obtain ⟨item, node, hitem, hfound, hparents, hfails⟩ := h
  have hall : ((parents row.definition nodeId).all fun parent =>
      (row.meaning task given parent).isSome) = true := List.all_eq_true.mpr hparents
  rw [meaning_solves hwf nodeId hnode, value, hitem, hfound]
  simp only [hall, ↓reduceIte]
  exact Option.map_eq_none_iff.mpr hfails

end WorkflowRow

end QhpcEcosystem
