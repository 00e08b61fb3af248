/-
Editing of a canvas: which connections are accepted, what the composer reports about a
canvas, the names that it chooses, and its edits with undo and redo.
-/
import QhpcEcosystem.Canvas
import QhpcEcosystem.PathSearch
import QhpcEcosystem.TransitionSystem

namespace QhpcEcosystem

/-! ## Connections -/

structure Connection where
  source : String
  sourceHandle : Option String
  target : String
  targetHandle : Option String
deriving DecidableEq, Repr

def ComposerEdge.connection (edge : ComposerEdge) : Connection :=
  ⟨edge.source, edge.sourceHandle, edge.target, edge.targetHandle⟩

/-- `artifactTypeForHandle` with direction `source`. -/
def artifactTypeForSource (node : ComposerNode) (handle : Option String) : Option String :=
  match node.data with
  | .operation data =>
      (handle.bind (afterStart? "out:")).bind fun port =>
        (data.outputs.row? port).map fun row => row.2.artifactType
  | .boundary data => some data.artifactType

/-- `artifactTypeForHandle` with direction `target`. -/
def artifactTypeForTarget (node : ComposerNode) (handle : Option String) : Option String :=
  match node.data with
  | .operation data =>
      (handle.bind (afterStart? "in:")).bind fun port =>
        (data.inputs.row? port).map fun row => row.2.artifactType
  | .boundary data => some data.artifactType

/-- The ends of the internal edges. -/
def internalEnds (edges : List ComposerEdge) : List (String × String) :=
  (edges.filter fun edge => edge.data.kind = .internal).map fun edge =>
    (edge.source, edge.target)

/-- `operationPathExists`; an empty id is never entered. -/
def operationPathExists (start target : String) (edges : List ComposerEdge) : Bool :=
  PathSearch.pathExists (internalEnds edges) (fun node => node = "") start target

def nodeWithId? (nodes : List ComposerNode) (id : String) : Option ComposerNode :=
  nodes.find? fun node => node.id = id

/-- The kinds of the ends of a connection that has a direction. -/
def directionValid (source target : CanvasNodeKind) : Bool :=
  ¬ (source = .boundary .workflowOutput ∨ target = .boundary .workflowInput ∨
    (source = .boundary .workflowInput ∧ target ≠ .operation) ∨
    (target = .boundary .workflowOutput ∧ source ≠ .operation))

/-- `validateConnection`; `none` when the connection is valid, else the message. -/
def validateConnection (connection : Connection) (nodes : List ComposerNode)
    (edges : List ComposerEdge) : Option String :=
  match nodeWithId? nodes connection.source, nodeWithId? nodes connection.target with
  | some source, some target =>
      if source.id = target.id then some "An operation cannot connect to itself."
      else if directionValid source.data.kind target.data.kind = false then
        some "Connection direction is not valid."
      else
        let sourceType := (artifactTypeForSource source connection.sourceHandle).getD ""
        let targetType := (artifactTypeForTarget target connection.targetHandle).getD ""
        if sourceType = "" ∨ targetType = "" then some "Select a named input and output port."
        else if sourceType ≠ targetType then
          some (sourceType ++ " cannot connect to " ++ targetType ++ ".")
        else if edges.any fun edge => edge.target = connection.target ∧
            edge.targetHandle = connection.targetHandle then
          some "That input already has a connection."
        else if source.data.kind = .operation ∧ target.data.kind = .operation ∧
            operationPathExists target.id source.id edges then
          some "The connection would create a cycle."
        else none
  | _, _ => some "Both connection endpoints are required."

/-- The kind of a connection and the name of its boundary. -/
def connectionKind (source target : NodeData) : EdgeKind × Option String :=
  match source with
  | .boundary { kind := .workflowInput, name := name, .. } =>
      (.boundary .workflowInput, some name)
  | _ =>
      match target with
      | .boundary { kind := .workflowOutput, name := name, .. } =>
          (.boundary .workflowOutput, some name)
      | _ => (.internal, none)

/-- `connectionEdge`; `uuid` is the drawn UUID. -/
def connectionEdge (connection : Connection) (nodes : List ComposerNode) (sequence : Nat)
    (uuid : String) : Except String ComposerEdge :=
  match nodeWithId? nodes connection.source, nodeWithId? nodes connection.target with
  | some source, some target =>
      let artifactType := (artifactTypeForSource source connection.sourceHandle).getD ""
      if artifactType = "" then .error "connection source has no artifact type"
      else
        let kind := connectionKind source.data target.data
        .ok {
          id := "edge:" ++ uuid
          source := source.id
          sourceHandle := connection.sourceHandle
          target := target.id
          targetHandle := connection.targetHandle
          data := {
            kind := kind.1
            artifactType := artifactType
            sequence := sequence
            boundaryName := kind.2 } }
  | _, _ => .error "connection endpoints are unavailable"

/-! ## Issues of a canvas -/

structure ValidationIssue where
  code : String
  message : String
  nodeId : Option String := none
  edgeId : Option String := none
deriving DecidableEq, Repr

/-- The issues of the operation nodes; `ids` are the ids seen so far. -/
def operationIssues (edges : List ComposerEdge) :
    List (String × OperationNodeData) → List String → List ValidationIssue
  | [], _ => []
  | (id, data) :: rest, ids =>
      (if id ∈ ids then [{ code := "node.duplicate"
                           message := "Operation id " ++ id ++ " is duplicated."
                           nodeId := some id }] else []) ++
      (data.inputs.rows.flatMap fun port =>
        if port.2.required = some false then []
        else if edges.any fun edge => edge.target = id ∧
            edge.targetHandle = some ("in:" ++ port.1) then []
        else [{ code := "input.required"
                message := id ++ "." ++ port.1 ++ " requires an input."
                nodeId := some id }]) ++
      operationIssues edges rest (id :: ids)

/-- The issue of a boundary node without an edge. -/
def boundaryIssues (edges : List ComposerEdge) (node : ComposerNode) : List ValidationIssue :=
  match node.data with
  | .operation _ => []
  | .boundary { kind := .workflowInput, name := name, .. } =>
      if edges.any fun edge => edge.source = node.id then []
      else [{ code := "boundary.disconnected"
              message := "Workflow input " ++ name ++ " is disconnected."
              nodeId := some node.id }]
  | .boundary { kind := .workflowOutput, name := name, .. } =>
      if edges.any fun edge => edge.target = node.id then []
      else [{ code := "boundary.disconnected"
              message := "Workflow output " ++ name ++ " is disconnected."
              nodeId := some node.id }]

/-- The issue of an edge; it is compared with the edges under other ids. -/
def connectionIssues (nodes : List ComposerNode) (edges : List ComposerEdge)
    (edge : ComposerEdge) : List ValidationIssue :=
  match validateConnection edge.connection nodes
      (edges.filter fun candidate => candidate.id ≠ edge.id) with
  | none => []
  | some message => [{ code := "edge.invalid", message := message, edgeId := some edge.id }]

def validateCanvas (nodes : List ComposerNode) (edges : List ComposerEdge) :
    List ValidationIssue :=
  (if operationItems nodes = [] then
    [{ code := "workflow.empty", message := "Add at least one operation." }] else []) ++
  operationIssues edges (operationItems nodes) [] ++
  nodes.flatMap (boundaryIssues edges) ++
  edges.flatMap (connectionIssues nodes edges)

/-! ## Names -/

/-- `toLowerCase` of a character, as far as its result can be a letter of a name: of the
characters beyond ASCII only these two become letters of ASCII. -/
def lowerCased (c : Char) : List Char :=
  if c.toNat = 0x212A then ['k']
  else if c.toNat = 0x130 then ['i', Char.ofNat 0x307]
  else [c.toLower]

/-- Replace every run of characters that are not allowed by one character. -/
def replaceRuns (allowed : Char → Bool) (replacement : Char) : Bool → List Char → List Char
  | _, [] => []
  | inRun, c :: rest =>
      if allowed c then c :: replaceRuns allowed replacement false rest
      else if inRun then replaceRuns allowed replacement true rest
      else replacement :: replaceRuns allowed replacement true rest

/-- A name of lower-case letters, digits and `._-` that starts with a letter. -/
def normalizedName (replacement : Char) (default base : String) : String :=
  let replaced := replaceRuns (fun c => lowerOrDigit c || c = '.' || c = '_' || c = '-')
    replacement false (base.toList.flatMap lowerCased)
  let trimmed := (((replaced.dropWhile fun c => !lowerCase c).reverse).dropWhile
    fun c => c = replacement).reverse
  if trimmed = [] then default else String.ofList trimmed

def uniqueNodeId (base : String) (nodes : List ComposerNode) : String :=
  freshName (normalizedName '-' "operation" base) "-" (nodes.map ComposerNode.id)

/-- The names of the boundaries of a kind. -/
def boundaryNames (kind : BoundaryKind) (nodes : List ComposerNode) : List String :=
  nodes.filterMap fun node => (node.boundary? kind).map BoundaryNodeData.name

def uniqueBoundaryName (base : String) (kind : BoundaryKind) (nodes : List ComposerNode) :
    String :=
  freshName (normalizedName '_'
      (match kind with | .workflowInput => "input" | .workflowOutput => "output") base) "_"
    (boundaryNames kind nodes)

/-! ## New nodes -/

/-- `createOperationCanvasNode`. -/
def createOperationCanvasNode (capability : Capability) (operation : OperationDefinition)
    (id : String) (position : Position) (sequence : Nat) : ComposerNode :=
  let parameters : Dict String Value := mapOf (operation.parameters.rows.filterMap
    fun row => row.2.default.map fun value => (row.1, value))
  let reference : OperationReference := ⟨capability.id, capability.version, operation.id⟩
  { id := id
    position := position
    data := .operation {
      operation := reference
      parameters := parameters
      inputs := operation.inputs
      outputs := operation.outputs
      sequence := sequence
      originalNode := { id := id, operation := reference, parameters := parameters } } }

/-- The id of the boundary node of a kind under a name. -/
def BoundaryKind.nodeId (kind : BoundaryKind) (name : String) : String :=
  match kind with
  | .workflowInput => "input:" ++ name
  | .workflowOutput => "output:" ++ name

/-- `createBoundaryForPort`, for a port with the given definition. -/
def boundaryForPort (operationId : String) (position : Position) (port : String)
    (definition : PortDefinition) (kind : BoundaryKind) (nodes : List ComposerNode)
    (edgeSequence : Nat) : ComposerNode × ComposerEdge :=
  let name := uniqueBoundaryName port kind nodes
  let boundary : BoundaryNodeData := {
    kind := kind
    name := name
    artifactType := definition.artifactType
    required := match kind with
      | .workflowInput => some (definition.required.getD true)
      | .workflowOutput => none
    requiredWasSet := kind = .workflowInput
    sequence := (nodes.filter fun node => node.data.kind = .boundary kind).length }
  let data : ComposerEdgeData := {
    kind := .boundary kind
    artifactType := definition.artifactType
    sequence := edgeSequence
    boundaryName := some name }
  match kind with
  | .workflowInput =>
      (⟨kind.nodeId name, ⟨position.x - 210, position.y⟩, .boundary boundary⟩,
        { id := "workflow-input:" ++ name
          source := kind.nodeId name
          sourceHandle := some ("out:" ++ name)
          target := operationId
          targetHandle := some ("in:" ++ port)
          data := data })
  | .workflowOutput =>
      (⟨kind.nodeId name, ⟨position.x + 280, position.y⟩, .boundary boundary⟩,
        { id := "workflow-output:" ++ name
          source := operationId
          sourceHandle := some ("out:" ++ port)
          target := kind.nodeId name
          targetHandle := some ("in:" ++ name)
          data := data })

def createBoundaryForPort (operationId : String) (position : Position)
    (data : OperationNodeData) (port : String) (kind : BoundaryKind)
    (nodes : List ComposerNode) (edgeSequence : Nat) :
    Except String (ComposerNode × ComposerEdge) :=
  let ports := match kind with
    | .workflowInput => data.inputs
    | .workflowOutput => data.outputs
  match ports.row? port with
  | none => .error ("port is unavailable: " ++ port)
  | some (_, definition) =>
      .ok (boundaryForPort operationId position port definition kind nodes edgeSequence)

/-! ## Edits -/

/-- `GraphSnapshot`. -/
structure CanvasGraph where
  nodes : List ComposerNode
  edges : List ComposerEdge

/-- The graph on the canvas with what undo and redo go back to, the last first. -/
structure Editor where
  graph : CanvasGraph
  history : List CanvasGraph := []
  future : List CanvasGraph := []
  dragStart : Option CanvasGraph := none

/-- The edits of the composer.  An operation is chosen by its places in the list of
capabilities. -/
inductive CanvasEdit where
  | addOperation (capability operation : Nat) (position : Position)
  | connect (connection : Connection) (uuid : String)
  | exposePort (nodeId port : String) (kind : BoundaryKind)
  | deleteNode (nodeId : String)
  | deleteEdge (edgeId : String)
  | renameNode (oldId nextId : String)
  | setParameter (nodeId name : String) (value : Value)
  | moveNodes (move : ComposerNode → Position)
  | dragStart
  | dragStop
  | undo
  | redo

namespace CanvasGraph

def addOperation (graph : CanvasGraph) (capability : Capability) (operation : OperationDefinition)
    (position : Position) : CanvasGraph :=
  { graph with nodes := graph.nodes ++ [createOperationCanvasNode capability operation
      (uniqueNodeId operation.id graph.nodes) position (operationItems graph.nodes).length] }

/-- `onConnect`; nothing happens when the connection is not valid. -/
def connect (graph : CanvasGraph) (connection : Connection) (uuid : String) : Option CanvasGraph :=
  match validateConnection connection graph.nodes graph.edges with
  | some _ => none
  | none =>
      match connectionEdge connection graph.nodes graph.edges.length uuid with
      | .error _ => none
      | .ok edge => some { graph with edges := graph.edges ++ [edge] }

/-- `exposePort` of the selected node. -/
def exposePort (graph : CanvasGraph) (nodeId port : String) (kind : BoundaryKind) :
    Option CanvasGraph :=
  match nodeWithId? graph.nodes nodeId with
  | none => none
  | some node =>
      match node.operation? with
      | none => none
      | some data =>
          match createBoundaryForPort node.id node.position data port kind graph.nodes
              graph.edges.length with
          | .error _ => none
          | .ok (boundary, edge) => some ⟨graph.nodes ++ [boundary], graph.edges ++ [edge]⟩

def deleteNode (graph : CanvasGraph) (nodeId : String) : CanvasGraph where
  nodes := graph.nodes.filter fun node => node.id ≠ nodeId
  edges := graph.edges.filter fun edge => edge.source ≠ nodeId ∧ edge.target ≠ nodeId

def deleteEdge (graph : CanvasGraph) (edgeId : String) : CanvasGraph :=
  { graph with edges := graph.edges.filter fun edge => edge.id ≠ edgeId }

/-- Rename the operation nodes under an id. -/
def renamed (oldId nextId : String) (node : ComposerNode) : ComposerNode :=
  match node.data with
  | .operation data =>
      if node.id = oldId then
        { node with id := nextId, data := .operation { data with
            originalNode := { data.originalNode with id := nextId } } }
      else node
  | .boundary _ => node

def renameEnd (oldId nextId id : String) : String :=
  if id = oldId then nextId else id

def renameNode (graph : CanvasGraph) (oldId nextId : String) : Option CanvasGraph :=
  if nextId = oldId ∨ isIdentifier nextId = false ∨ graph.nodes.any (fun node => node.id = nextId)
  then none
  else some {
    nodes := graph.nodes.map (renamed oldId nextId)
    edges := graph.edges.map fun edge => { edge with
      source := renameEnd oldId nextId edge.source
      target := renameEnd oldId nextId edge.target } }

/-- `updateOperationNode` with a new value of a parameter. -/
def parameterSet (nodeId name : String) (value : Value) (node : ComposerNode) : ComposerNode :=
  match node.data with
  | .operation data =>
      if node.id = nodeId then
        { node with data := .operation { data with
            parameters := data.parameters.set (name, value) } }
      else node
  | .boundary _ => node

def setParameter (graph : CanvasGraph) (nodeId name : String) (value : Value) : CanvasGraph :=
  { graph with nodes := graph.nodes.map (parameterSet nodeId name value) }

def moveNodes (graph : CanvasGraph) (move : ComposerNode → Position) : CanvasGraph :=
  { graph with nodes := graph.nodes.map fun node => { node with position := move node } }

/-- What an edit makes of the graph; undo, redo and the marks of a drag do not edit. -/
def edit (capabilities : List Capability) (graph : CanvasGraph) : CanvasEdit → Option CanvasGraph
  | .addOperation capability operation position => do
      let capability ← capabilities[capability]?
      let operation ← capability.operations[operation]?
      pure (graph.addOperation capability operation position)
  | .connect connection uuid =>
      -- a drawn UUID is new
      if graph.edges.any fun edge => edge.id = "edge:" ++ uuid then none
      else graph.connect connection uuid
  | .exposePort nodeId port kind => graph.exposePort nodeId port kind
  | .deleteNode nodeId => some (graph.deleteNode nodeId)
  | .deleteEdge edgeId => some (graph.deleteEdge edgeId)
  | .renameNode oldId nextId => graph.renameNode oldId nextId
  | .setParameter nodeId name value => some (graph.setParameter nodeId name value)
  | .moveNodes move => some (graph.moveNodes move)
  | .dragStart | .dragStop | .undo | .redo => none

end CanvasGraph

namespace Editor

/-- `resetDocument`. -/
def opened (workflow : WorkflowDocument) (layout : Option DraftLayout)
    (capabilities : List Capability) : Editor where
  graph := ⟨(workflowToCanvas workflow layout capabilities).nodes,
    (workflowToCanvas workflow layout capabilities).edges⟩

/-- Replace the graph and keep the old one for undo. -/
def replaceGraph (editor : Editor) (graph : CanvasGraph) : Editor :=
  let pushed := editor.graph :: editor.history
  { editor with
    graph := graph
    history := if 80 < pushed.length then pushed.dropLast else pushed
    future := [] }

/-- Change nodes in place and keep the old graph for undo. -/
def updateGraph (editor : Editor) (graph : CanvasGraph) : Editor :=
  { editor with graph := graph, history := editor.graph :: editor.history, future := [] }

/-- An edit; `none` when there is nothing to do. -/
def edit (capabilities : List Capability) (editor : Editor) (change : CanvasEdit) :
    Option Editor :=
  match change with
  | .undo =>
      match editor.history with
      | [] => none
      | prior :: rest => some { editor with
          graph := prior
          history := rest
          future := editor.graph :: editor.future }
  | .redo =>
      match editor.future with
      | [] => none
      | next :: rest => some { editor with
          graph := next
          history := editor.graph :: editor.history
          future := rest }
  | .dragStart => some { editor with dragStart := some editor.graph }
  | .dragStop => editor.dragStart.map fun start => { editor with
      history := start :: editor.history
      future := []
      dragStart := none }
  | .moveNodes _ => (editor.graph.edit capabilities change).map fun graph =>
      { editor with graph := graph }
  | .renameNode _ _ | .setParameter _ _ _ =>
      (editor.graph.edit capabilities change).map editor.updateGraph
  | _ => (editor.graph.edit capabilities change).map editor.replaceGraph

end Editor

/-- The canvas of the composer, from any document that is opened. -/
def composerCanvas (capabilities : List Capability) : TransitionSystem Editor CanvasEdit where
  Initial editor := ∃ workflow layout, editor = Editor.opened workflow layout capabilities
  step editor change := editor.edit capabilities change

/-- The edits that add and delete. -/
def CanvasEdit.draws : CanvasEdit → Bool
  | .addOperation _ _ _ | .connect _ _ | .exposePort _ _ _ | .deleteNode _ | .deleteEdge _ => true
  | _ => false

end QhpcEcosystem
