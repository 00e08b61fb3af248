/-
The documents the engine reads: JSON values, operations of a capability,
workflows and the registry, together with the exceptions the program raises.
A document is a typed record whose optional members are `Option` and whose
JSON objects are dictionaries with unique keys, as parsing produces them.
-/
import QhpcEcosystem.KeyedTable
import Mathlib.Algebra.Order.Field.Rat
import Mathlib.Data.List.Sort

namespace QhpcEcosystem

/-- A path into a contract document and what is wrong there. -/
structure ContractIssue where
  path : String
  message : String
deriving DecidableEq, Repr

/-- Exception classes raised by the modelled code; `other` stands for any
class raised by a runner or by the operating system. -/
inductive ExnClass where
  | valueError
  | keyError
  | typeError
  | runtimeError
  | contractError
  | integrityError
  | operationalError
  | taskRejected
  | targetExecution
  | slurmApptainer
  | other (name : String)
deriving DecidableEq, Repr

structure Exn where
  cls : ExnClass
  message : String
  issues : List ContractIssue := []
deriving DecidableEq, Repr

/-- `error.__class__.__name__`. -/
def Exn.className (error : Exn) : String :=
  match error.cls with
  | .valueError => "ValueError"
  | .keyError => "KeyError"
  | .typeError => "TypeError"
  | .runtimeError => "RuntimeError"
  | .contractError => "ContractError"
  | .integrityError => "IntegrityError"
  | .operationalError => "OperationalError"
  | .taskRejected => "TaskRejectedError"
  | .targetExecution => "TargetExecutionError"
  | .slurmApptainer => "SlurmApptainerError"
  | .other name => name

def contractError (message : String) (issues : List ContractIssue) : Exn :=
  ⟨.contractError, message, issues⟩

/-! ## Identifiers -/

def lowerCase (c : Char) : Bool := 'a' ≤ c && c ≤ 'z'

def lowerOrDigit (c : Char) : Bool := lowerCase c || ('0' ≤ c && c ≤ '9')

/-- The tail of an identifier; after a separator a letter or digit must
follow. -/
def identifierTail : Bool → List Char → Bool
  | separated, [] => !separated
  | true, c :: rest => lowerOrDigit c && identifierTail false rest
  | false, c :: rest =>
      if lowerOrDigit c then identifierTail false rest
      else (c = '.' || c = '_' || c = '-') && identifierTail true rest

/-- `[a-z][a-z0-9]*(?:[._-][a-z0-9]+)*` matches the whole text. -/
def isIdentifier (text : String) : Bool :=
  match text.toList with
  | [] => false
  | c :: rest => lowerCase c && identifierTail false rest

/-! ## JSON values -/

/-- Python's `int` and `float`; a finite float is the rational it denotes. -/
inductive Number where
  | int (n : Int)
  | float (q : ℚ)
  | posInf
  | negInf
  | nan
deriving DecidableEq

/-- `type(number).__name__`. -/
def Number.typeName : Number → String
  | .int _ => "int"
  | _ => "float"

/-- Python's `<` on numbers; every comparison with a NaN is false. -/
def Number.lt : Number → Number → Bool
  | .nan, _ | _, .nan => false
  | .posInf, _ | _, .negInf => false
  | .negInf, _ | _, .posInf => true
  | .int m, .int n => m < n
  | .int m, .float q => (m : ℚ) < q
  | .float p, .int n => p < (n : ℚ)
  | .float p, .float q => p < q

/-- Python's `==` on numbers, across the two types. -/
def Number.eq : Number → Number → Bool
  | .int m, .int n => m = n
  | .int m, .float q => (m : ℚ) = q
  | .float p, .int n => p = (n : ℚ)
  | .float p, .float q => p = q
  | .posInf, .posInf | .negInf, .negInf => true
  | _, _ => false

inductive Value where
  | null
  | bool (b : Bool)
  | number (n : Number)
  | str (s : String)
  | arr (items : List Value)
  | obj (members : List (String × Value))

/-- The number a Python value compares as: booleans are integers. -/
def Value.number? : Value → Option Number
  | .bool b => some (.int (if b then 1 else 0))
  | .number n => some n
  | _ => none

mutual

/-- Python's `==` on JSON values. -/
def Value.pyEq : Value → Value → Bool
  | .null, .null => true
  | .str s, .str t => s = t
  | .arr xs, .arr ys => pyEqItems xs ys
  | .obj xs, .obj ys => xs.length = ys.length && pyEqMembers xs ys
  | .bool b, .bool c => b = c
  | .bool b, .number n => (Number.int (if b then 1 else 0)).eq n
  | .number m, .bool c => m.eq (.int (if c then 1 else 0))
  | .number m, .number n => m.eq n
  | _, _ => false

def pyEqItems : List Value → List Value → Bool
  | [], [] => true
  | x :: xs, y :: ys => x.pyEq y && pyEqItems xs ys
  | _, _ => false

def pyEqMembers : List (String × Value) → List (String × Value) → Bool
  | [], _ => true
  | (name, x) :: xs, ys =>
      (match ys.lookup name with
        | some y => x.pyEq y
        | none => false) && pyEqMembers xs ys

end

mutual

/-- The value with the members of all its objects in the order of their names, as
`sort_keys` writes them. -/
def Value.sorted : Value → Value
  | .arr items => .arr (sortedValues items)
  | .obj members => .obj ((sortedMembers members).insertionSort fun a b => a.1 ≤ b.1)
  | value => value

def sortedValues : List Value → List Value
  | [] => []
  | value :: rest => value.sorted :: sortedValues rest

def sortedMembers : List (String × Value) → List (String × Value)
  | [] => []
  | (name, value) :: rest => (name, value.sorted) :: sortedMembers rest

end

/-! ## Operations -/

inductive ParameterType where
  | string
  | integer
  | number
  | boolean
deriving DecidableEq, Repr

def ParameterType.name : ParameterType → String
  | .string => "string"
  | .integer => "integer"
  | .number => "number"
  | .boolean => "boolean"

structure ParameterDefinition where
  type : ParameterType
  required : Option Bool := none
  default : Option Value := none
  enum : Option (List Value) := none
  minimum : Option Number := none
  maximum : Option Number := none

structure PortDefinition where
  artifactType : String
  required : Option Bool := none
  multiple : Option Bool := none
deriving DecidableEq, Repr

/-- `definition.get("required", True)`. -/
def PortDefinition.isRequired (port : PortDefinition) : Bool :=
  port.required.getD true

/-- `definition.get("multiple")`. -/
def PortDefinition.isMultiple (port : PortDefinition) : Bool :=
  port.multiple.getD false

structure RuntimeDefinition where
  type : String
  reference : String
  digest : String
deriving DecidableEq, Repr

structure InvocationDefinition where
  entrypoint : List String
  arguments : List String := []
deriving DecidableEq, Repr

structure OperationDefinition where
  id : String
  inputs : Dict String PortDefinition
  outputs : Dict String PortDefinition
  parameters : Dict String ParameterDefinition := Table.empty
  runtime : RuntimeDefinition
  invocation : InvocationDefinition
  resources : Dict String Int := Table.empty
  executionTargets : List String

/-! ## Workflows -/

structure OperationReference where
  capability : String
  version : String
  operation : String
deriving DecidableEq, Repr

structure Node where
  id : String
  operation : OperationReference
  parameters : Dict String Value := Table.empty
  executionTarget : Option String := none
  executionClass : Option String := none

structure Endpoint where
  node : String
  port : String
  artifactType : String
deriving DecidableEq, Repr

/-- An edge; `source` is the document's `from`, `target` its `to`. -/
structure Edge where
  source : Endpoint
  target : Endpoint
deriving DecidableEq, Repr

structure PortReference where
  node : String
  port : String
deriving DecidableEq, Repr

structure WorkflowInput where
  artifactType : String
  required : Option Bool := none
  target : PortReference
deriving DecidableEq, Repr

structure WorkflowOutput where
  artifactType : String
  source : PortReference
deriving DecidableEq, Repr

/-- A workflow document; the contract schema demands at least one node. -/
structure Workflow where
  id : String
  version : String
  nodes : List Node
  nonempty : nodes ≠ []
  edges : List Edge
  inputs : Dict String WorkflowInput
  outputs : Dict String WorkflowOutput

/-- Rewrite every parameter value with its members sorted. -/
def sortParameter : RowUpdate (String × Value) where
  apply row := (row.1, row.2.sorted)

/-- The node in the document that `_json` writes. -/
def Node.stored (node : Node) : Node :=
  { node with parameters := (node.parameters.updateWhere (fun _ => true) sortParameter).sorted }

/-- The document that `_json` writes: the members of every object are sorted. -/
def Workflow.stored (workflow : Workflow) : Workflow :=
  { workflow with
    nodes := workflow.nodes.map Node.stored
    nonempty := fun h => workflow.nonempty (List.map_eq_nil_iff.mp h)
    inputs := workflow.inputs.sorted
    outputs := workflow.outputs.sorted }

/-- `[node["id"] for node in spec["nodes"]]`. -/
def Workflow.nodeIds (workflow : Workflow) : List String :=
  workflow.nodes.map Node.id

def Workflow.node? (workflow : Workflow) (nodeId : String) : Option Node :=
  workflow.nodes.find? fun node => node.id = nodeId

/-! ## Registry -/

structure Capability where
  id : String
  version : String
  project : String
  deprecated : Option Bool := none
  operations : List OperationDefinition := []

structure RegistryEntry where
  catalogRepository : String
  capability : Capability

structure Registry where
  entries : List RegistryEntry

end QhpcEcosystem
