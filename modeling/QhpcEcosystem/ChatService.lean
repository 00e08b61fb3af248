/-
The assistant service and its client.  The service validates an answer and writes it as one
JSON document or as a stream of events; the client takes a stream apart again and validates
what it finds with the same functions.
-/
import QhpcEcosystem.JsonMembers
import QhpcEcosystem.TextLines
import QhpcEcosystem.AttemptOperations

namespace QhpcEcosystem

/-! ## Failures -/

/-- `ServiceAdapterError` with its message, or an exception of another class. -/
inductive ServiceFailure where
  | adapter (message : JsonText)
  | raised (className : String)
deriving DecidableEq, Repr

abbrev Checked (α : Type) := Except ServiceFailure α

def refuse {α : Type} (message : JsonText) : Checked α := .error (.adapter message)

/-! ## Texts -/

namespace JsonText

/-- `len`. -/
def length (text : JsonText) : Nat := (codePoints text).length

/-- `not text.strip()`. -/
def isBlank (text : JsonText) : Bool := text.all fun unit => isSpace (Char.ofNat unit.toNat)

def isAlphanumeric (c : Char) : Bool :=
  lowerOrDigit c || ('A' ≤ c && c ≤ 'Z')

/-- A first character and some more, each of its kind. -/
def hasForm (first other : Char → Bool) (text : JsonText) : Bool :=
  match text with
  | [] => false
  | unit :: rest => first (Char.ofNat unit.toNat) && rest.all fun unit => other (Char.ofNat unit.toNat)

/-- `_IDENTIFIER.fullmatch`. -/
def isServiceIdentifier (text : JsonText) : Bool :=
  text.hasForm isAlphanumeric (fun c => isAlphanumeric c || c ∈ ['.', '_', ':', '@', '-']) &&
    List.length text ≤ 128

/-- `_POLICY_CLASS.fullmatch`. -/
def isPolicyClass (text : JsonText) : Bool :=
  text.hasForm lowerCase (fun c => lowerOrDigit c || c ∈ ['.', '_', '-']) && List.length text ≤ 64

/-- `_CORPUS_REVISION.fullmatch`. -/
def isCorpusRevision (text : JsonText) : Bool :=
  text.take 7 = ofString "sha256:" && List.length (text.drop 7) = 64 &&
    (text.drop 7).all fun unit =>
      (0x30 ≤ unit.toNat && unit.toNat ≤ 0x39) || (0x61 ≤ unit.toNat && unit.toNat ≤ 0x66)

/-- `sorted`. -/
def sortedTexts (texts : List JsonText) : List JsonText :=
  texts.insertionSort fun a b => le a b = true

def joined (texts : List JsonText) : JsonText := (ofString ", ").intercalate texts

end JsonText

open JsonText (ofString)

/-- `_bounded_text` of a value that must be a text. -/
def boundedText {F : Type} (value : Json F) (name : JsonText) (maximum : Nat)
    (pattern : JsonText → Bool) : Checked JsonText :=
  match value with
  | .str text =>
      if text.isBlank then refuse (name ++ ofString " must be non-empty text")
      else if maximum < text.length then
        refuse (name ++ ofString (" exceeds " ++ toString maximum ++ " characters"))
      else if pattern text = false then refuse (name ++ ofString " has an invalid format")
      else .ok text
  | _ => refuse (name ++ ofString " must be non-empty text")

/-- The pattern when none is given. -/
def anyText (_ : JsonText) : Bool := true

/-- `_object_fields`. -/
def objectFields {F : Type} (value : Json F) (name : JsonText) (required allowed : List String) :
    Checked (List (JsonText × Json F)) :=
  match value with
  | .obj members =>
      let names := members.map Prod.fst
      let missing := JsonText.sortedTexts ((required.map ofString).filter (· ∉ names))
      let unknown := JsonText.sortedTexts (names.filter (· ∉ allowed.map ofString))
      if missing ≠ [] then refuse (name ++ ofString " is missing: " ++ JsonText.joined missing)
      else if unknown ≠ [] then
        refuse (name ++ ofString " contains unsupported fields: " ++ JsonText.joined unknown)
      else .ok members
  | _ => refuse (name ++ ofString " must be an object")

/-- A field that must be there. -/
def field {F : Type} (members : List (JsonText × Json F)) (name : String) : Json F :=
  (member? members (ofString name)).getD .null

/-! ## Numbers -/

/-- Floats with the numbers that they stand for, and the conversion of an integer, which may
overflow. -/
structure FloatNumbers (F : Type) extends FloatFormat F where
  value : F → ℚ
  ofInt : Int → Option F
  ofInt_nonneg : ∀ n x, 0 ≤ n → ofInt n = some x → 0 ≤ value x
  ofInt_le_one : ∀ n x, n ≤ 1 → ofInt n = some x → value x ≤ 1

section Numbers

variable {F : Type} (floats : FloatNumbers F)

def FloatNumbers.number : JsonFloat F → Number
  | .finite x => .float (floats.value x)
  | .nan => .nan
  | .infinity => .posInf
  | .negativeInfinity => .negInf

/-- The number that a value is; a boolean counts as none. -/
def FloatNumbers.number? : Json F → Option Number
  | .int n => some (.int n)
  | .float x => some (floats.number x)
  | _ => none

/-- `float` of a number. -/
def FloatNumbers.float : Json F → Checked (JsonFloat F)
  | .int n =>
      match floats.ofInt n with
      | some x => .ok (.finite x)
      | none => .error (.raised "OverflowError")
  | .float x => .ok x
  | _ => .error (.raised "TypeError")

/-- `value == sequence`, for a value of any type. -/
def FloatNumbers.isIndex (value : Json F) (sequence : Nat) : Bool :=
  match value with
  | .bool b => (if b then 1 else 0) = sequence
  | other => (floats.number? other).any fun n => n.eq (.int sequence)

def Number.atMost (m n : Number) : Bool := m.lt n || m.eq n

/-- `_non_negative_integer`. -/
def nonNegativeInteger (value : Json F) (name : JsonText) : Checked Nat :=
  match value with
  | .int n =>
      if n < 0 then refuse (name ++ ofString " must be a non-negative integer") else .ok n.toNat
  | _ => refuse (name ++ ofString " must be a non-negative integer")

/-- `_non_negative_number`. -/
def nonNegativeNumber (value : Json F) (name : JsonText) : Checked (JsonFloat F) :=
  match floats.number? value with
  | some n =>
      if n.lt (.int 0) then refuse (name ++ ofString " must be a non-negative number")
      else floats.float value
  | none => refuse (name ++ ofString " must be a non-negative number")

def checkConfidence (value : Json F) : Checked (JsonFloat F) :=
  match floats.number? value with
  | some n =>
      if (Number.int 0).atMost n && n.atMost (.int 1) then floats.float value
      else refuse (ofString "confidence must be a number between 0 and 1")
  | none => refuse (ofString "confidence must be a number between 0 and 1")

/-- `max` of three numbers: a later one counts if it is greater. -/
def FloatNumbers.maximum (x y z : JsonFloat F) : JsonFloat F :=
  let greater := if (floats.number x).lt (floats.number y) then y else x
  if (floats.number greater).lt (floats.number z) then z else greater

end Numbers

/-! ## Requests -/

inductive ChatRole where
  | user
  | assistant
deriving DecidableEq, Repr

structure ChatMessage where
  role : ChatRole
  content : JsonText
deriving DecidableEq, Repr

/-- What `_normalize_chatqec_request` returns. -/
structure ChatRequest where
  requestId : JsonText
  correlationId : JsonText
  conversationId : JsonText
  authorizedSubject : JsonText
  workspaceId : JsonText
  policyClass : JsonText
  corpusRevision : JsonText
  question : JsonText
  history : List ChatMessage
deriving DecidableEq, Repr

def ChatRole.name : ChatRole → String
  | .user => "user"
  | .assistant => "assistant"

def requiredRequestFields : List String :=
  ["request_id", "correlation_id", "conversation_id", "authorized_subject", "workspace_id",
    "policy_class", "corpus_revision", "question"]

section Requests

variable {F : Type}

def ChatMessage.toJson (message : ChatMessage) : Json F :=
  .obj [(ofString "role", .str (ofString message.role.name)),
    (ofString "content", .str message.content)]

/-- The dictionary of a normalized request; an empty history is left out. -/
def ChatRequest.toJson (request : ChatRequest) : Json F :=
  .obj ([(ofString "request_id", .str request.requestId),
    (ofString "correlation_id", .str request.correlationId),
    (ofString "conversation_id", .str request.conversationId),
    (ofString "authorized_subject", .str request.authorizedSubject),
    (ofString "workspace_id", .str request.workspaceId),
    (ofString "policy_class", .str request.policyClass),
    (ofString "corpus_revision", .str request.corpusRevision),
    (ofString "question", .str request.question)] ++
    if request.history = [] then []
    else [(ofString "history", .arr (request.history.map ChatMessage.toJson))])

def checkRole (value : Json F) (name : JsonText) : Checked ChatRole :=
  match value with
  | .str text =>
      if text = ofString "user" then .ok .user
      else if text = ofString "assistant" then .ok .assistant
      else refuse (name ++ ofString ".role must be user or assistant")
  | .arr _ | .obj _ => .error (.raised "TypeError")
  | _ => refuse (name ++ ofString ".role must be user or assistant")

def checkMessage (item : Json F) (index : Nat) : Checked ChatMessage := do
  let name := ofString ("history[" ++ toString index ++ "]")
  let message ← objectFields item name ["role", "content"] ["role", "content"]
  let role ← checkRole (field message "role") name
  let content ← boundedText (field message "content") (name ++ ofString ".content") 8000 anyText
  pure ⟨role, content⟩

/-- The history, which may be left out. -/
def checkHistory (history : Option (Json F)) : Checked (List ChatMessage) :=
  match history with
  | none => .ok []
  | some (.arr items) =>
      if 20 < items.length then refuse (ofString "history exceeds 20 messages")
      else items.zipIdx.mapM fun item => checkMessage item.1 item.2
  | some _ => refuse (ofString "history must be an array")

/-- `_bounded_text` of an identifier. -/
def identifierField (members : List (JsonText × Json F)) (name : String) : Checked JsonText :=
  boundedText (field members name) (ofString name) 128 JsonText.isServiceIdentifier

/-- `_normalize_chatqec_request`. -/
def normalizeRequest (request : Json F) : Checked ChatRequest := do
  let value ← objectFields request (ofString "ChatQEC request") requiredRequestFields
    ("history" :: requiredRequestFields)
  let requestId ← identifierField value "request_id"
  let correlationId ← identifierField value "correlation_id"
  let conversationId ← identifierField value "conversation_id"
  let authorizedSubject ← identifierField value "authorized_subject"
  let workspaceId ← identifierField value "workspace_id"
  let policyClass ← boundedText (field value "policy_class") (ofString "policy_class") 64
    JsonText.isPolicyClass
  let corpusRevision ← boundedText (field value "corpus_revision") (ofString "corpus_revision") 71
    JsonText.isCorpusRevision
  let question ← boundedText (field value "question") (ofString "question") 8000 anyText
  let history ← checkHistory (member? value (ofString "history"))
  pure ⟨requestId, correlationId, conversationId, authorizedSubject, workspaceId, policyClass,
    corpusRevision, question, history⟩

end Requests

/-! ## Responses -/

structure Citation where
  id : JsonText
  title : JsonText
  sourceUri : JsonText
  sourceRevision : JsonText
  locator : Option JsonText := none
deriving DecidableEq, Repr

structure ChatUsage where
  inputTokens : Nat
  outputTokens : Nat
  totalTokens : Nat
deriving DecidableEq, Repr

structure ChatLatency (F : Type) where
  retrieval : JsonFloat F
  rerank : JsonFloat F
  generation : JsonFloat F
  total : JsonFloat F

/-- What `validate_chatqec_response` returns. -/
structure ChatResponse (F : Type) where
  requestId : JsonText
  correlationId : JsonText
  conversationId : JsonText
  corpusRevision : JsonText
  answer : JsonText
  citations : List Citation
  confidence : JsonFloat F
  provider : JsonText
  model : JsonText
  modelResponseId : JsonText
  usage : ChatUsage
  latency : ChatLatency F

section Responses

variable {F : Type}

def Citation.toJson (citation : Citation) : Json F :=
  .obj ([(ofString "id", .str citation.id), (ofString "title", .str citation.title),
    (ofString "source_uri", .str citation.sourceUri),
    (ofString "source_revision", .str citation.sourceRevision)] ++
    match citation.locator with
    | some locator => [(ofString "locator", .str locator)]
    | none => [])

def ChatUsage.toJson (usage : ChatUsage) : Json F :=
  .obj [(ofString "input_tokens", .int usage.inputTokens),
    (ofString "output_tokens", .int usage.outputTokens),
    (ofString "total_tokens", .int usage.totalTokens)]

def ChatLatency.toJson (latency : ChatLatency F) : Json F :=
  .obj [(ofString "retrieval", .float latency.retrieval),
    (ofString "rerank", .float latency.rerank),
    (ofString "generation", .float latency.generation),
    (ofString "total", .float latency.total)]

/-- The dictionary of a validated response. -/
def ChatResponse.toJson (response : ChatResponse F) : Json F :=
  .obj [(ofString "request_id", .str response.requestId),
    (ofString "correlation_id", .str response.correlationId),
    (ofString "conversation_id", .str response.conversationId),
    (ofString "corpus_revision", .str response.corpusRevision),
    (ofString "answer", .str response.answer),
    (ofString "citations", .arr (response.citations.map Citation.toJson)),
    (ofString "confidence", .float response.confidence),
    (ofString "provider", .str response.provider),
    (ofString "model", .str response.model),
    (ofString "model_response_id", .str response.modelResponseId),
    (ofString "usage", response.usage.toJson),
    (ofString "latency_ms", response.latency.toJson)]

def citationFields : List String := ["id", "title", "source_uri", "source_revision"]

def usageFields : List String := ["input_tokens", "output_tokens", "total_tokens"]

def latencyFields : List String := ["retrieval", "rerank", "generation", "total"]

def responseFields : List String :=
  ["request_id", "correlation_id", "conversation_id", "answer", "citations", "confidence",
    "provider", "model", "model_response_id", "corpus_revision", "usage", "latency_ms"]

-- `urlScheme` is `urlsplit(value).scheme`, which may raise
variable (urlScheme : JsonText → Checked JsonText) (floats : FloatNumbers F)

/-- `_validate_citation`. -/
def validateCitation (value : Json F) (name : JsonText) : Checked Citation := do
  let citation ← objectFields value name citationFields ("locator" :: citationFields)
  let sourceUri ← boundedText (field citation "source_uri") (name ++ ofString ".source_uri") 4000
    anyText
  let scheme ← urlScheme sourceUri
  if scheme = [] then refuse (name ++ ofString ".source_uri must be an absolute URI")
  let id ← boundedText (field citation "id") (name ++ ofString ".id") 128
    JsonText.isServiceIdentifier
  let title ← boundedText (field citation "title") (name ++ ofString ".title") 1000 anyText
  let sourceRevision ← boundedText (field citation "source_revision")
    (name ++ ofString ".source_revision") 128 anyText
  match member? citation (ofString "locator") with
  | none => pure ⟨id, title, sourceUri, sourceRevision, none⟩
  | some value => do
      let locator ← boundedText value (name ++ ofString ".locator") 500 anyText
      pure ⟨id, title, sourceUri, sourceRevision, some locator⟩

/-- An identifier of the response, which must be that of the request. -/
def matchingField (value : List (JsonText × Json F)) (name : String) (expected : JsonText) :
    Checked JsonText := do
  let found ← identifierField value name
  if found ≠ expected then
    refuse (ofString ("response " ++ name ++ " does not match the request"))
  pure found

def checkCitations (value : Json F) : Checked (List Citation) :=
  match value with
  | .arr items =>
      if 100 < items.length then refuse (ofString "citations exceeds 100 entries")
      else items.zipIdx.mapM fun item =>
        validateCitation urlScheme item.1 (ofString ("citations[" ++ toString item.2 ++ "]"))
  | _ => refuse (ofString "citations must be an array")

def checkUsage (value : Json F) : Checked ChatUsage := do
  let usage ← objectFields value (ofString "usage") usageFields usageFields
  let inputTokens ← nonNegativeInteger (field usage "input_tokens") (ofString "usage.input_tokens")
  let outputTokens ← nonNegativeInteger (field usage "output_tokens")
    (ofString "usage.output_tokens")
  let totalTokens ← nonNegativeInteger (field usage "total_tokens") (ofString "usage.total_tokens")
  if totalTokens ≠ inputTokens + outputTokens then
    refuse (ofString "usage.total_tokens must equal input_tokens plus output_tokens")
  pure ⟨inputTokens, outputTokens, totalTokens⟩

def checkLatency (value : Json F) : Checked (ChatLatency F) := do
  let latency ← objectFields value (ofString "latency_ms") latencyFields latencyFields
  let retrieval ← nonNegativeNumber floats (field latency "retrieval")
    (ofString "latency_ms.retrieval")
  let rerank ← nonNegativeNumber floats (field latency "rerank") (ofString "latency_ms.rerank")
  let generation ← nonNegativeNumber floats (field latency "generation")
    (ofString "latency_ms.generation")
  let total ← nonNegativeNumber floats (field latency "total") (ofString "latency_ms.total")
  if (floats.number total).lt (floats.number (floats.maximum retrieval rerank generation)) then
    refuse (ofString "latency_ms.total cannot be less than an individual stage")
  pure ⟨retrieval, rerank, generation, total⟩

/-- `validate_chatqec_response`. -/
def validateResponse (response request : Json F) : Checked (ChatResponse F) := do
  let expected ← normalizeRequest request
  let value ← objectFields response (ofString "ChatQEC response") responseFields responseFields
  let requestId ← matchingField value "request_id" expected.requestId
  let correlationId ← matchingField value "correlation_id" expected.correlationId
  let conversationId ← matchingField value "conversation_id" expected.conversationId
  let corpusRevision ← boundedText (field value "corpus_revision") (ofString "corpus_revision") 71
    JsonText.isCorpusRevision
  if corpusRevision ≠ expected.corpusRevision then
    refuse (ofString "response corpus_revision does not match the request")
  let answer ← boundedText (field value "answer") (ofString "answer") 100000 anyText
  let citations ← checkCitations urlScheme (field value "citations")
  let confidence ← checkConfidence floats (field value "confidence")
  let provider ← boundedText (field value "provider") (ofString "provider") 128 anyText
  let model ← boundedText (field value "model") (ofString "model") 128 anyText
  let modelResponseId ← boundedText (field value "model_response_id")
    (ofString "model_response_id") 256 anyText
  let usage ← checkUsage (field value "usage")
  let latency ← checkLatency floats (field value "latency_ms")
  pure ⟨requestId, correlationId, conversationId, corpusRevision, answer, citations, confidence,
    provider, model, modelResponseId, usage, latency⟩

end Responses

end QhpcEcosystem
