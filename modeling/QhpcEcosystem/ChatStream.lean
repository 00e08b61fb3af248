/-
The stream of an answer.  The service writes one event for the text, one for every citation
and a last one for the whole response; the client reads the frames, checks every event and
demands that the last one, and no other, is final.
-/
import QhpcEcosystem.ChatService

namespace QhpcEcosystem

open JsonText (ofString)

/-! ## What the service writes -/

mutual

/-- Every integer inside has at most so many decimal digits, and can be written. -/
def Json.digitsWithin {F : Type} (limit : Nat) : Json F → Bool
  | .int n => n.natAbs < 10 ^ limit
  | .arr items => Json.digitsWithinItems limit items
  | .obj members => Json.digitsWithinMembers limit members
  | _ => true

def Json.digitsWithinItems {F : Type} (limit : Nat) : List (Json F) → Bool
  | [] => true
  | value :: rest => value.digitsWithin limit && Json.digitsWithinItems limit rest

def Json.digitsWithinMembers {F : Type} (limit : Nat) : List (JsonText × Json F) → Bool
  | [] => true
  | (_, value) :: rest => value.digitsWithin limit && Json.digitsWithinMembers limit rest

end

/-- `encode("utf-8")`. -/
def encodeUtf8 (text : List Char) : ByteArray := (String.ofList text).toUTF8

structure ServiceReply where
  status : Nat
  contentType : String
  body : ByteArray

section Service

variable {F : Type} (format : FloatFormat F)

/-- `json.dumps(value, sort_keys=True)`, which raises on an integer of more than 4300 digits. -/
def dumps? (value : Json F) : Option (List Char) :=
  if value.digitsWithin 4300 then some (value.dumps format .spaced) else none

/-- `_json`. -/
def jsonReply (status : Nat) (value : Json F) : Option ServiceReply :=
  (dumps? format value).map fun payload =>
    ⟨status, "application/json; charset=utf-8", encodeUtf8 payload⟩

def errorReply (status : Nat) (message : JsonText) : Option ServiceReply :=
  jsonReply format status (.obj [(ofString "error", .str message)])

/-- An event of the stream, with one field of data. -/
structure StreamEvent (F : Type) where
  event : String
  field : String
  value : Json F

/-- The events of a response, in the order of their numbers. -/
def ChatResponse.events (response : ChatResponse F) : List (StreamEvent F) :=
  ⟨"token", "text", .str response.answer⟩ ::
    (response.citations.map fun citation => ⟨"citation", "citation", citation.toJson⟩) ++
    [⟨"final", "response", response.toJson⟩]

def StreamEvent.toJson (requestId : JsonText) (item : StreamEvent F) (sequence : Nat) : Json F :=
  .obj [(ofString "request_id", .str requestId), (ofString "sequence", .int sequence),
    (ofString "event", .str (ofString item.event)),
    (ofString "data", .obj [(ofString item.field, item.value)])]

/-- The two lines of a frame and the blank line behind them. -/
def StreamEvent.frame (requestId : JsonText) (item : StreamEvent F) (sequence : Nat) :
    Option (List Char) :=
  (dumps? format (item.toJson requestId sequence)).map fun data =>
    "event: ".toList ++ item.event.toList ++ '\n' :: ("data: ".toList ++ data ++ ['\n', '\n'])

def ChatResponse.stream (response : ChatResponse F) : Option (List Char) :=
  (response.events.zipIdx.mapM fun item : StreamEvent F × Nat =>
    item.1.frame format response.requestId item.2).map
    List.flatten

/-- `do_POST`, with what the responder gives for the body of the request; `none` when the
handler raises. -/
def doPost (path : String) (authorized : Bool) (answer : Checked (ChatResponse F)) :
    Option ServiceReply :=
  if path ≠ "/v1/answers" ∧ path ≠ "/v1/answers/stream" then
    errorReply format 404 (ofString "route not found")
  else if authorized = false then errorReply format 401 (ofString "workload identity required")
  else match answer with
    | .error (.adapter message) => errorReply format 400 message
    | .error (.raised _) => none
    | .ok response =>
        if path = "/v1/answers" then jsonReply format 200 response.toJson
        else (response.stream format).map fun payload =>
          ⟨200, "text/event-stream; charset=utf-8", encodeUtf8 payload⟩

end Service

/-! ## What the client reads -/

inductive ChatEventData (F : Type) where
  | token (text : JsonText)
  | citation (citation : Citation)
  | final (response : ChatResponse F)

/-- An event that `parse_chatqec_sse` returns. -/
structure ChatEvent (F : Type) where
  requestId : JsonText
  sequence : Json F
  data : ChatEventData F

def ChatEventData.isFinal {F : Type} : ChatEventData F → Bool
  | .final _ => true
  | _ => false

inductive StreamPayload where
  | text (content : String)
  | bytes (content : ByteArray)

/-- The lines of a frame that are neither empty nor comments, with their names. -/
def frameFields : List (List Char) → Checked (List (List Char × List Char))
  | [] => .ok []
  | line :: rest =>
      if line = [] ∨ line.head? = some ':' then frameFields rest
      else do
        let name := line.takeWhile (· ≠ ':')
        let behind := line.dropWhile (· ≠ ':')
        if behind = [] ∨ (name ≠ "event".toList ∧ name ≠ "data".toList) then
          refuse (ofString "ChatQEC stream contains an invalid SSE field")
        let others ← frameFields rest
        pure ((name, behind.tail.dropWhile (· = ' ')) :: others)

/-- The values of the lines with a name. -/
def fieldValues (fields : List (List Char × List Char)) (name : String) : List (List Char) :=
  (fields.filter fun item => item.1 = name.toList).map Prod.snd

section Client

variable {F : Type} (urlScheme : JsonText → Checked JsonText) (floats : FloatNumbers F)

/-- The data of an event, by its type. -/
def checkEventData (event : JsonText) (value : Json F) (sequence : Nat) (request : ChatRequest) :
    Checked (ChatEventData F) := do
  let name := ofString ("SSE event " ++ toString sequence)
  if event = ofString "token" then
    let data ← objectFields value (name ++ ofString " data") ["text"] ["text"]
    let text ← boundedText (field data "text") (name ++ ofString " text") 32000 anyText
    pure (.token text)
  else if event = ofString "citation" then
    let data ← objectFields value (name ++ ofString " data") ["citation"] ["citation"]
    let citation ← validateCitation urlScheme (field data "citation") (name ++ ofString " citation")
    pure (.citation citation)
  else if event = ofString "final" then
    let data ← objectFields value (name ++ ofString " data") ["response"] ["response"]
    let response ← validateResponse urlScheme floats (field data "response") request.toJson
    pure (.final response)
  else
    let data ← objectFields value (name ++ ofString " data") ["code", "message"] ["code", "message"]
    let code ← boundedText (field data "code") (ofString "ChatQEC stream error code") 64 anyText
    let message ← boundedText (field data "message") (ofString "ChatQEC stream error message") 1000
      anyText
    refuse (ofString "ChatQEC stream error " ++ code ++ ofString ": " ++ message)

def eventNames : List JsonText := ["token", "citation", "final", "error"].map ofString

/-- The event of a frame, which has been loaded. -/
def checkEvent (event : Json F) (named : List Char) (sequence : Nat) (request : ChatRequest) :
    Checked (ChatEvent F) := do
  let value ← objectFields event (ofString ("SSE event " ++ toString sequence))
    ["request_id", "sequence", "event", "data"] ["request_id", "sequence", "event", "data"]
  if (field value "event").isText (JsonText.ofChars named) = false then
    refuse (ofString "ChatQEC SSE event name does not match its data")
  if JsonText.ofChars named ∉ eventNames then
    refuse (ofString "ChatQEC SSE event type is unsupported")
  if (field value "request_id").isText request.requestId = false then
    refuse (ofString "ChatQEC SSE request_id does not match")
  if floats.isIndex (field value "sequence") sequence = false then
    refuse (ofString "ChatQEC SSE sequence is not contiguous")
  match field value "data" with
  | .obj members => do
      let data ← checkEventData urlScheme floats (JsonText.ofChars named) (.obj members) sequence
        request
      pure ⟨request.requestId, field value "sequence", data⟩
  | _ => refuse (ofString "ChatQEC SSE data payload must be an object")

/-- One round of the loop over the frames. -/
def parseFrame (request : ChatRequest) (frame : List Char) (sequence : Nat) :
    Checked (ChatEvent F) := do
  let fields ← frameFields (stringLines frame)
  match fieldValues fields "event", fieldValues fields "data" with
  | [named], first :: others =>
      match Json.loads floats.toFloatFormat (['\n'].intercalate (first :: others)) with
      | some event => checkEvent urlScheme floats event named sequence request
      | none => refuse (ofString "ChatQEC SSE data is not valid JSON")
  | _, _ => refuse (ofString "each ChatQEC SSE frame requires one event and data")

def streamFrames (text : List Char) : List (List Char) :=
  (splitParagraphs (universalNewlines text)).filter fun frame => !frame.all isSpace

def parseText (request : ChatRequest) (text : List Char) : Checked (List (ChatEvent F)) := do
  let frames := streamFrames text
  if 10000 < frames.length then refuse (ofString "ChatQEC stream exceeds the event limit")
  let events ← frames.zipIdx.mapM fun frame => parseFrame urlScheme floats request frame.1 frame.2
  if (events.filter fun event => event.data.isFinal).length ≠ 1 ∨
      (events.getLast?.any fun event => event.data.isFinal) = false then
    refuse (ofString "ChatQEC stream must end with exactly one final event")
  pure events

/-- `parse_chatqec_sse`. -/
def parseChatqecSse (payload : StreamPayload) (request : Json F) :
    Checked (List (ChatEvent F)) := do
  let normalized ← normalizeRequest request
  match payload with
  | .bytes content =>
      if 2000000 < content.size then refuse (ofString "ChatQEC stream exceeds the size limit")
      match String.fromUTF8? content with
      | none => refuse (ofString "ChatQEC stream must be UTF-8")
      | some text => parseText urlScheme floats normalized text.toList
  | .text content =>
      if 2000000 < content.utf8ByteSize then
        refuse (ofString "ChatQEC stream exceeds the size limit")
      parseText urlScheme floats normalized content.toList

end Client

end QhpcEcosystem
