/-
The canvas of the workflow composer: operations and workflow ports as nodes, connections
as edges, and the translations between a workflow document and its canvas.
-/
import QhpcEcosystem.Contract
import QhpcEcosystem.JsObjects

namespace QhpcEcosystem

/-! ## Documents -/

structure WorkflowMetadata where
  id : String
  name : String
  version : String
  owner : String
  visibility : String
  description : Option String := none
deriving DecidableEq, Repr

/-- A workflow as the composer holds it: the nodes may be missing, and nothing is checked
yet. -/
structure WorkflowDocument where
  metadata : WorkflowMetadata
  nodes : List Node
  edges : List Edge
  inputs : Dict String WorkflowInput
  outputs : Dict String WorkflowOutput

/-- Coordinates are rational; nothing depends on their rounding. -/
structure Position where
  x : ℚ
  y : ℚ
deriving DecidableEq

structure Viewport where
  x : ℚ
  y : ℚ
  zoom : ℚ
deriving DecidableEq

inductive BoundaryKind where
  | workflowInput
  | workflowOutput
deriving DecidableEq, Repr

inductive CanvasNodeKind where
  | operation
  | boundary (kind : BoundaryKind)
deriving DecidableEq, Repr

structure LayoutNode where
  id : String
  kind : CanvasNodeKind
  position : Position
deriving DecidableEq

structure DraftLayout where
  nodes : List LayoutNode
  viewport : Viewport
deriving DecidableEq

/-! ## Canvas -/

structure OperationNodeData where
  operation : OperationReference
  parameters : Dict String Value
  inputs : Dict String PortDefinition
  outputs : Dict String PortDefinition
  sequence : Nat
  originalNode : Node

structure BoundaryNodeData where
  kind : BoundaryKind
  name : String
  artifactType : String
  required : Option Bool := none
  requiredWasSet : Bool := false
  sequence : Nat
deriving DecidableEq

inductive NodeData where
  | operation (data : OperationNodeData)
  | boundary (data : BoundaryNodeData)

def NodeData.kind : NodeData → CanvasNodeKind
  | .operation _ => .operation
  | .boundary data => .boundary data.kind

structure ComposerNode where
  id : String
  position : Position
  data : NodeData

inductive EdgeKind where
  | internal
  | boundary (kind : BoundaryKind)
deriving DecidableEq, Repr

structure ComposerEdgeData where
  kind : EdgeKind
  artifactType : String
  sequence : Nat
  boundaryName : Option String := none
  originalEdge : Option Edge := none
deriving DecidableEq

structure ComposerEdge where
  id : String
  source : String
  sourceHandle : Option String
  target : String
  targetHandle : Option String
  data : ComposerEdgeData
deriving DecidableEq

structure CanvasDocument where
  nodes : List ComposerNode
  edges : List ComposerEdge
  viewport : Viewport

/-- The data of an operation node. -/
def ComposerNode.operation? (node : ComposerNode) : Option OperationNodeData :=
  match node.data with
  | .operation data => some data
  | .boundary _ => none

/-- The data of a boundary node of the given kind. -/
def ComposerNode.boundary? (kind : BoundaryKind) (node : ComposerNode) :
    Option BoundaryNodeData :=
  match node.data with
  | .operation _ => none
  | .boundary data => if data.kind = kind then some data else none

/-! ## From a workflow to its canvas -/

def defaultViewport : Viewport := ⟨0, 0, 1⟩

def operationKey (capabilityId version operationId : String) : String :=
  capabilityId ++ "@" ++ version ++ "/" ++ operationId

/-- `new Map(items)`: a later item replaces an earlier one. -/
def mapOf {α : Type} (items : List (String × α)) : Dict String α :=
  items.foldl Table.set Table.empty

def capabilityOperationIndex (capabilities : List Capability) :
    Dict String (Capability × OperationDefinition) :=
  mapOf (capabilities.flatMap fun capability =>
    capability.operations.map fun operation =>
      (operationKey capability.id capability.version operation.id, capability, operation))

def fallbackPosition (index : Nat) : Position :=
  ⟨220 + ((index % 3 : Nat) : ℚ) * 310, 90 + ((index / 3 : Nat) : ℚ) * 210⟩

def positionFor (id : String) (kind : CanvasNodeKind) (layout : Option DraftLayout)
    (fallback : Position) : Position :=
  match (layout.map DraftLayout.nodes).bind
      (·.find? fun candidate => candidate.id = id ∧ candidate.kind = kind) with
  | some item => item.position
  | none => fallback

/-- `inferredPorts`, the inputs. -/
def inferredInputs (nodeId : String) (workflow : WorkflowDocument) :
    Dict String PortDefinition :=
  assignAll Table.empty
    ((workflow.edges.filter fun edge => edge.target.node = nodeId).map
        (fun edge => (edge.target.port, ⟨edge.target.artifactType, none, none⟩)) ++
      (workflow.inputs.rows.filter fun item => item.2.target.node = nodeId).map
        (fun item => (item.2.target.port, ⟨item.2.artifactType, item.2.required, none⟩)))

/-- `inferredPorts`, the outputs. -/
def inferredOutputs (nodeId : String) (workflow : WorkflowDocument) :
    Dict String PortDefinition :=
  assignAll Table.empty
    ((workflow.edges.filter fun edge => edge.source.node = nodeId).map
        (fun edge => (edge.source.port, ⟨edge.source.artifactType, none, none⟩)) ++
      (workflow.outputs.rows.filter fun item => item.2.source.node = nodeId).map
        (fun item => (item.2.source.port, ⟨item.2.artifactType, none, none⟩)))

def operationNodeData (definition : Node) (sequence : Nat) (workflow : WorkflowDocument)
    (operations : Dict String (Capability × OperationDefinition)) : OperationNodeData :=
  let found := operations.row? (operationKey definition.operation.capability
    definition.operation.version definition.operation.operation)
  { operation := definition.operation
    parameters := definition.parameters
    inputs := match found with
      | some (_, _, operation) => operation.inputs
      | none => inferredInputs definition.id workflow
    outputs := match found with
      | some (_, _, operation) => operation.outputs
      | none => inferredOutputs definition.id workflow
    sequence := sequence
    originalNode := definition }

def operationNode (definition : Node) (sequence : Nat) (workflow : WorkflowDocument)
    (layout : Option DraftLayout)
    (operations : Dict String (Capability × OperationDefinition)) : ComposerNode where
  id := definition.id
  position := positionFor definition.id .operation layout (fallbackPosition sequence)
  data := .operation (operationNodeData definition sequence workflow operations)

def inputBoundaryNode (name : String) (definition : WorkflowInput) (sequence : Nat)
    (layout : Option DraftLayout) (targetPosition : Option Position) : ComposerNode :=
  { id := "input:" ++ name
    position := positionFor ("input:" ++ name) (.boundary .workflowInput) layout {
      x := max 10 ((targetPosition.map Position.x).getD 220 - 210)
      y := (targetPosition.map Position.y).getD 90 + sequence * 72 }
    data := .boundary {
      kind := .workflowInput
      name := name
      artifactType := definition.artifactType
      required := definition.required
      requiredWasSet := definition.required.isSome
      sequence := sequence } }

def outputBoundaryNode (name : String) (definition : WorkflowOutput) (sequence : Nat)
    (layout : Option DraftLayout) (sourcePosition : Option Position) : ComposerNode :=
  { id := "output:" ++ name
    position := positionFor ("output:" ++ name) (.boundary .workflowOutput) layout {
      x := (sourcePosition.map Position.x).getD 220 + 280
      y := (sourcePosition.map Position.y).getD 90 + sequence * 72 }
    data := .boundary {
      kind := .workflowOutput
      name := name
      artifactType := definition.artifactType
      sequence := sequence } }

/-- The edge of the canvas for an edge of the document. -/
def internalEdge (definition : Edge) (index : Nat) : ComposerEdge where
  id := "edge:" ++ toString index ++ ":" ++ definition.source.node ++ ":" ++
    definition.source.port ++ ":" ++ definition.target.node ++ ":" ++ definition.target.port
  source := definition.source.node
  sourceHandle := some ("out:" ++ definition.source.port)
  target := definition.target.node
  targetHandle := some ("in:" ++ definition.target.port)
  data := {
    kind := .internal
    artifactType := definition.source.artifactType
    sequence := index
    originalEdge := some definition }

def inputEdge (name : String) (definition : WorkflowInput) (index : Nat) : ComposerEdge where
  id := "workflow-input:" ++ name
  source := "input:" ++ name
  sourceHandle := some ("out:" ++ name)
  target := definition.target.node
  targetHandle := some ("in:" ++ definition.target.port)
  data := {
    kind := .boundary .workflowInput
    artifactType := definition.artifactType
    sequence := index
    boundaryName := some name }

def outputEdge (name : String) (definition : WorkflowOutput) (index : Nat) : ComposerEdge where
  id := "workflow-output:" ++ name
  source := definition.source.node
  sourceHandle := some ("out:" ++ definition.source.port)
  target := "output:" ++ name
  targetHandle := some ("in:" ++ name)
  data := {
    kind := .boundary .workflowOutput
    artifactType := definition.artifactType
    sequence := index
    boundaryName := some name }

/-- The operation nodes of the canvas of a workflow. -/
def operationNodes (workflow : WorkflowDocument) (layout : Option DraftLayout)
    (capabilities : List Capability) : List ComposerNode :=
  workflow.nodes.zipIdx.map fun item =>
    operationNode item.1 item.2 workflow layout (capabilityOperationIndex capabilities)

def workflowToCanvas (workflow : WorkflowDocument) (layout : Option DraftLayout)
    (capabilities : List Capability) : CanvasDocument :=
  let nodes := operationNodes workflow layout capabilities
  let operationPositions := mapOf (nodes.map fun node => (node.id, node.position))
  { nodes := nodes ++
      (workflow.inputs.rows.zipIdx.map fun item =>
        inputBoundaryNode item.1.1 item.1.2 item.2 layout
          ((operationPositions.row? item.1.2.target.node).map Prod.snd)) ++
      (workflow.outputs.rows.zipIdx.map fun item =>
        outputBoundaryNode item.1.1 item.1.2 item.2 layout
          ((operationPositions.row? item.1.2.source.node).map Prod.snd))
    edges := workflow.edges.zipIdx.map (fun item => internalEdge item.1 item.2) ++
      workflow.inputs.rows.zipIdx.map (fun item => inputEdge item.1.1 item.1.2 item.2) ++
      workflow.outputs.rows.zipIdx.map (fun item => outputEdge item.1.1 item.1.2 item.2)
    viewport := (layout.map DraftLayout.viewport).getD defaultViewport }

/-! ## From a canvas to its workflow -/

/-- `text.slice(start.length)` when the text starts so. -/
def afterStart? (start text : String) : Option String :=
  if start.toList <+: text.toList then
    some (String.ofList (text.toList.drop start.toList.length)) else none

def portFromHandle (handle : Option String) (start : String) : Except String String :=
  match handle.bind (afterStart? start) with
  | some port => .ok port
  | none => .error ("connection handle must start with " ++ start)

/-- A stable sort. -/
def sortedBySequence {α : Type} (sequence : α → Nat) (values : List α) : List α :=
  values.insertionSort fun left right => sequence left ≤ sequence right

/-- The operation nodes with their ids. -/
def operationItems (nodes : List ComposerNode) : List (String × OperationNodeData) :=
  nodes.filterMap fun node => node.operation?.map fun data => (node.id, data)

/-- The nodes of the document. -/
def workflowNodes (nodes : List ComposerNode) : List Node :=
  (sortedBySequence (fun item => item.2.sequence) (operationItems nodes)).map
    fun item => { item.2.originalNode with
      id := item.1
      operation := item.2.operation
      parameters := item.2.parameters }

/-- The edges of a kind in the order of their sequence. -/
def edgesOfKind (kind : EdgeKind) (edges : List ComposerEdge) : List ComposerEdge :=
  sortedBySequence (fun edge => edge.data.sequence)
    (edges.filter fun edge => edge.data.kind = kind)

/-- The edge of the document for an internal edge of the canvas. -/
def workflowEdge (edge : ComposerEdge) : Except String Edge := do
  let fromPort ← portFromHandle edge.sourceHandle "out:"
  let toPort ← portFromHandle edge.targetHandle "in:"
  pure {
    source := ⟨edge.source, fromPort,
      (edge.data.originalEdge.map (·.source.artifactType)).getD edge.data.artifactType⟩
    target := ⟨edge.target, toPort,
      (edge.data.originalEdge.map (·.target.artifactType)).getD edge.data.artifactType⟩ }

/-- The boundary node of a kind under an id. -/
def boundaryNode? (kind : BoundaryKind) (nodes : List ComposerNode) (id : String) :
    Option BoundaryNodeData :=
  (nodes.find? fun node => node.id = id ∧ node.data.kind = .boundary kind).bind
    (ComposerNode.boundary? kind)

/-- The entry of the inputs for an edge, if its boundary is there. -/
def workflowInput (nodes : List ComposerNode) (edge : ComposerEdge) :
    Except String (Option (String × WorkflowInput)) :=
  match boundaryNode? .workflowInput nodes edge.source with
  | none => .ok none
  | some boundary => do
      let port ← portFromHandle edge.targetHandle "in:"
      pure (some (boundary.name, {
        artifactType := boundary.artifactType
        required := if boundary.requiredWasSet then boundary.required else none
        target := ⟨edge.target, port⟩ }))

/-- The entry of the outputs for an edge, if its boundary is there. -/
def workflowOutput (nodes : List ComposerNode) (edge : ComposerEdge) :
    Except String (Option (String × WorkflowOutput)) :=
  match boundaryNode? .workflowOutput nodes edge.target with
  | none => .ok none
  | some boundary => do
      let port ← portFromHandle edge.sourceHandle "out:"
      pure (some (boundary.name, {
        artifactType := boundary.artifactType
        source := ⟨edge.source, port⟩ }))

def canvasToWorkflow (metadata : WorkflowMetadata) (nodes : List ComposerNode)
    (edges : List ComposerEdge) : Except String WorkflowDocument := do
  let internalEdges ← (edgesOfKind .internal edges).mapM workflowEdge
  let inputs ← (edgesOfKind (.boundary .workflowInput) edges).mapM (workflowInput nodes)
  let outputs ← (edgesOfKind (.boundary .workflowOutput) edges).mapM (workflowOutput nodes)
  pure {
    metadata := metadata
    nodes := workflowNodes nodes
    edges := internalEdges
    inputs := assignAll Table.empty (inputs.filterMap id)
    outputs := assignAll Table.empty (outputs.filterMap id) }

def layoutFromCanvas (nodes : List ComposerNode) (viewport : Viewport) : DraftLayout where
  nodes := nodes.map fun node => ⟨node.id, node.data.kind, node.position⟩
  viewport := viewport

end QhpcEcosystem
