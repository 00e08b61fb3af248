/-
The client reads back what the service streams.  Every frame is two lines of printable ASCII,
so that the text splits into its frames whatever the answer contains; every event passes the
checks of the client, except that the text of the answer must be as short as a token.
-/
import QhpcEcosystem.ChatStream
import QhpcEcosystem.ChatAnswers

namespace QhpcEcosystem

open JsonText (ofString isPrintable)

/-! ## Two lines -/

section Lines

/-- The two lines of a frame with the blank line behind them. -/
def framed (lines : List Char × List Char) : List Char :=
  lines.1 ++ '\n' :: (lines.2 ++ ['\n', '\n'])

/-- Printable lines, neither of them blank. -/
structure FrameLines (lines : List Char × List Char) : Prop where
  first : lines.1.all isPrintable = true
  second : lines.2.all isPrintable = true
  visible : lines.1.all isSpace = false
  present : lines.2 ≠ []

theorem notMem_of_printable {line : List Char} (h : line.all isPrintable = true) {c : Char}
    (hc : isPrintable c = false) : c ∉ line := by
  intro hmem
  rw [List.all_eq_true.mp h c hmem] at hc
  cases hc

theorem isLineBreak_of_printable {line : List Char} (h : line.all isPrintable = true) :
    ∀ c ∈ line, isLineBreak c = false := by
  intro c hc
  have hprintable := List.all_eq_true.mp h c hc
  simp only [isPrintable, Bool.and_eq_true, decide_eq_true_eq] at hprintable
  simp only [isLineBreak, List.mem_cons, List.not_mem_nil, or_false, decide_eq_false_iff_not]
  omega

theorem stringLines_frame {lines : List Char × List Char} (h : FrameLines lines) :
    stringLines (lines.1 ++ '\n' :: lines.2) = [lines.1, lines.2] := by
  rw [stringLines_append (isLineBreak_of_printable h.first),
    stringLines_line (isLineBreak_of_printable h.second) h.present]

theorem splitParagraphs_frames (frames : List (List Char × List Char))
    (h : ∀ lines ∈ frames, FrameLines lines) :
    splitParagraphs (frames.map framed).flatten =
      frames.map (fun lines => lines.1 ++ '\n' :: lines.2) ++ [[]] := by
  induction frames with
  | nil => rfl
  | cons lines frames ih =>
      rw [List.forall_mem_cons] at h
      have hsplit := splitParagraphs_lines (notMem_of_printable h.1.first rfl)
        (notMem_of_printable h.1.second rfl) h.1.present (frames.map framed).flatten
      simp only [List.map_cons, List.flatten_cons, framed, List.append_assoc, List.cons_append,
        List.nil_append, hsplit]
      rw [← ih h.2]

theorem return_notMem_frames (frames : List (List Char × List Char))
    (h : ∀ lines ∈ frames, FrameLines lines) : '\r' ∉ (frames.map framed).flatten := by
  intro hmem
  obtain ⟨text, htext, hmem⟩ := List.mem_flatten.mp hmem
  obtain ⟨lines, hlines, rfl⟩ := List.mem_map.mp htext
  have hfirst : '\r' ∉ lines.1 := notMem_of_printable (h lines hlines).first rfl
  have hsecond : '\r' ∉ lines.2 := notMem_of_printable (h lines hlines).second rfl
  simp [framed, hfirst, hsecond] at hmem

/-- The text of some frames is taken apart into these frames. -/
theorem streamFrames_frames (frames : List (List Char × List Char))
    (h : ∀ lines ∈ frames, FrameLines lines) :
    streamFrames (frames.map framed).flatten =
      frames.map fun lines => lines.1 ++ '\n' :: lines.2 := by
  have hkept : (frames.map fun lines => lines.1 ++ '\n' :: lines.2).filter
      (fun frame => !frame.all isSpace) = frames.map fun lines => lines.1 ++ '\n' :: lines.2 := by
    rw [List.filter_eq_self]
    intro frame hframe
    obtain ⟨lines, hlines, rfl⟩ := List.mem_map.mp hframe
    rw [List.all_append, (h lines hlines).visible]
    rfl
  rw [streamFrames, universalNewlines_of_notMem (return_notMem_frames frames h),
    splitParagraphs_frames frames h, List.filter_append, hkept]
  exact List.append_nil _

end Lines

/-! ## Sizes -/

section Sizes

theorem utf8ByteSize_printable {text : List Char} (h : ∀ c ∈ text, c.toNat < 0x80) :
    (String.ofList text).utf8ByteSize = text.length := by
  induction text with
  | nil => rfl
  | cons c rest ih =>
      rw [List.forall_mem_cons] at h
      have hsize : c.utf8Size = 1 := Char.utf8Size_eq_one_iff.mpr
        (UInt32.le_iff_toNat_le.mpr (Nat.le_of_lt_succ h.1))
      have hsplit : String.ofList (c :: rest) = String.singleton c ++ String.ofList rest := by
        rw [← List.singleton_append, String.ofList_append]
        rfl
      rw [hsplit, String.utf8ByteSize_append, String.utf8ByteSize_singleton, hsize, ih h.2,
        List.length_cons, Nat.add_comm]

theorem fromUTF8_encodeUtf8 (text : List Char) :
    String.fromUTF8? (encodeUtf8 text) = some (String.ofList text) := by
  rw [encodeUtf8, String.fromUTF8?, String.toUTF8_eq_toByteArray,
    dif_pos (String.ofList text).isValidUTF8]
  rfl

end Sizes

/-! ## Events -/

section Events

variable {F : Type}

/-- What the service writes for the data of an event. -/
def ChatEventData.toStream : ChatEventData F → StreamEvent F
  | .token text => ⟨"token", "text", .str text⟩
  | .citation cited => ⟨"citation", "citation", cited.toJson⟩
  | .final response => ⟨"final", "response", response.toJson⟩

/-- The text, the citations in their order and the response. -/
def ChatResponse.eventData (response : ChatResponse F) : List (ChatEventData F) :=
  .token response.answer :: (response.citations.map .citation ++ [.final response])

theorem ChatResponse.events_eq (response : ChatResponse F) :
    response.events = response.eventData.map ChatEventData.toStream := by
  simp [ChatResponse.events, ChatResponse.eventData, ChatEventData.toStream]

/-- The events that the client should return. -/
def ChatResponse.chatEvents (response : ChatResponse F) : List (ChatEvent F) :=
  response.eventData.zipIdx.map fun item => ⟨response.requestId, .int item.2, item.1⟩

variable {format : FloatFormat F} {requestId : JsonText}

/-- The lines of an event. -/
def eventLines (format : FloatFormat F) (requestId : JsonText) (data : ChatEventData F)
    (sequence : Nat) : List Char × List Char :=
  ("event: ".toList ++ data.toStream.event.toList,
    "data: ".toList ++ (data.toStream.toJson requestId sequence).dumps format .spaced)

/-- The names of events that the service writes. -/
def streamedNames : List String := ["token", "citation", "final"]

theorem toStream_event (data : ChatEventData F) : data.toStream.event ∈ streamedNames := by
  cases data <;> simp [ChatEventData.toStream, streamedNames]

theorem eventLines_frame (data : ChatEventData F) (sequence : Nat) :
    FrameLines (eventLines format requestId data sequence) := by
  have hname := toStream_event data
  have hwrite : ((data.toStream.toJson requestId sequence).dumps format .spaced).all
      isPrintable = true := by
    rw [Json.dumps]
    exact Json.write_printable rfl _
  have hprintable : ∀ name ∈ streamedNames,
      ("event: ".toList ++ name.toList).all isPrintable = true := by decide
  have hvisible : ∀ name ∈ streamedNames,
      ("event: ".toList ++ name.toList).all isSpace = false := by decide
  refine ⟨hprintable _ hname, ?_, hvisible _ hname, fun hempty => ?_⟩
  · show ("data: ".toList ++
      (data.toStream.toJson requestId sequence).dumps format .spaced).all isPrintable = true
    rw [List.all_append, hwrite, Bool.and_true]
    decide
  · have hprefix : "data: ".toList = [] := (List.append_eq_nil_iff.mp hempty).1
    cases hprefix

theorem frameFields_lines {name : String} (hname : name ∈ streamedNames) (tail : List Char) :
    frameFields ["event: ".toList ++ name.toList, "data: ".toList ++ '{' :: tail] =
      .ok [("event".toList, name.toList), ("data".toList, '{' :: tail)] := by
  simp only [streamedNames, List.mem_cons, List.not_mem_nil, or_false] at hname
  rcases hname with rfl | rfl | rfl
  · simp [frameFields]
  · simp [frameFields]
  · simp [frameFields]

theorem frameFields_eventLines (format : FloatFormat F) (requestId : JsonText)
    (data : ChatEventData F) (sequence : Nat) :
    frameFields [(eventLines format requestId data sequence).1,
      (eventLines format requestId data sequence).2] =
    .ok [("event".toList, data.toStream.event.toList),
      ("data".toList, (data.toStream.toJson requestId sequence).dumps format .spaced)] := by
  obtain ⟨tail, htail⟩ : ∃ tail,
      (data.toStream.toJson requestId sequence).dumps format .spaced = '{' :: tail :=
    Json.dumps_obj_head format .spaced _
  have hlines := frameFields_lines (toStream_event data) tail
  rw [← htail] at hlines
  exact hlines

theorem Citation.toJson_distinct (citation : Citation) : (citation.toJson (F := F)).Distinct := by
  rw [Citation.toJson, Json.distinct_obj]
  cases citation.locator <;>
    exact ⟨by simp [JsonText.ofString_inj], by simp [Json.Distinct]⟩

theorem ChatResponse.toJson_distinct (response : ChatResponse F) : response.toJson.Distinct := by
  have hcitations : (Json.arr (response.citations.map (Citation.toJson (F := F)))).Distinct := by
    rw [Json.Distinct, Json.distinctItems_iff, List.forall_mem_map]
    exact fun citation _ => citation.toJson_distinct
  have husage : (response.usage.toJson (F := F)).Distinct := by
    rw [ChatUsage.toJson, Json.distinct_obj]
    exact ⟨by simp [JsonText.ofString_inj], by simp [Json.Distinct]⟩
  have hlatency : response.latency.toJson.Distinct := by
    rw [ChatLatency.toJson, Json.distinct_obj]
    exact ⟨by simp [JsonText.ofString_inj], by simp [Json.Distinct]⟩
  rw [ChatResponse.toJson, Json.distinct_obj]
  refine ⟨by simp [JsonText.ofString_inj], ?_⟩
  simp only [List.forall_mem_cons, hcitations, husage, hlatency]
  simp [Json.Distinct]

theorem toStream_distinct (data : ChatEventData F) : data.toStream.value.Distinct := by
  cases data with
  | token text => trivial
  | citation cited => exact cited.toJson_distinct
  | final response => exact response.toJson_distinct

theorem StreamEvent.toJson_distinct {item : StreamEvent F} (h : item.value.Distinct)
    (sequence : Nat) (requestId : JsonText) : (item.toJson requestId sequence).Distinct := by
  have hdata : (Json.obj [(ofString item.field, item.value)]).Distinct := by
    rw [Json.distinct_obj]
    exact ⟨by simp, by simpa using h⟩
  rw [StreamEvent.toJson, Json.distinct_obj]
  refine ⟨by simp [JsonText.ofString_inj], ?_⟩
  simp only [List.forall_mem_cons, hdata]
  simp [Json.Distinct]

variable {urlScheme : JsonText → Checked JsonText} {floats : FloatNumbers F}
variable {request : ChatRequest}

/-- The members of an event are what the service has put there. -/
theorem checkEvent_toJson (data : ChatEventData F) (sequence : Nat) :
    checkEvent urlScheme floats (data.toStream.toJson request.requestId sequence).sorted
      data.toStream.event.toList sequence request =
    (checkEventData urlScheme floats (ofString data.toStream.event)
      (.obj [(ofString data.toStream.field, data.toStream.value.sorted)]) sequence request).map
      fun found => ⟨request.requestId, .int sequence, found⟩ := by
  have hdistinct := StreamEvent.toJson_distinct (toStream_distinct data) sequence
    request.requestId
  rw [StreamEvent.toJson] at hdistinct ⊢
  have hnodup := (Json.distinct_obj.mp hdistinct).1
  have hfields : ∀ name, objectFields (Json.obj [(ofString "request_id", .str request.requestId),
      (ofString "sequence", .int sequence), (ofString "event", .str (ofString data.toStream.event)),
      (ofString "data", .obj [(ofString data.toStream.field, data.toStream.value)])]) name
      ["request_id", "sequence", "event", "data"] ["request_id", "sequence", "event", "data"] =
      .ok _ := fun name => objectFields_obj.mpr (by simp)
  have hname : JsonText.ofChars data.toStream.event.toList ∈ eventNames := by
    cases data <;> simp [ChatEventData.toStream, eventNames, ofString]
  have hindex : floats.isIndex (.int sequence) sequence = true := by
    simp [FloatNumbers.isIndex, FloatNumbers.number?, Number.eq]
  have hvalue : (Json.obj [(ofString data.toStream.field, data.toStream.value)]).sorted =
      .obj [(ofString data.toStream.field, data.toStream.value.sorted)] := rfl
  have hsequence : (Json.int (F := F) sequence).sorted = .int sequence := rfl
  have htext : ∀ text, (Json.str (F := F) text).sorted = .str text := fun _ => rfl
  have hsame : ∀ text, Json.isText text (Json.str (F := F) text) = true := fun text => by
    simp [Json.isText]
  have hchars : JsonText.ofChars data.toStream.event.toList = ofString data.toStream.event := rfl
  simp only [checkEvent, objectFields_sorted, hfields, Except.map, bind, Except.bind,
    field_sortedObject hnodup, field_cons, hchars] at hname ⊢
  simp [hname, hindex, hsame, hvalue, hsequence, htext]
  rfl

theorem fieldValues_lines (name : List Char) (data : List Char) :
    fieldValues [("event".toList, name), ("data".toList, data)] "event" = [name] ∧
      fieldValues [("event".toList, name), ("data".toList, data)] "data" = [data] := by
  simp [fieldValues]

/-- A frame of the service is loaded, and its data is checked. -/
theorem parseFrame_eventLines (data : ChatEventData F) (sequence : Nat) :
    let lines := eventLines floats.toFloatFormat request.requestId data sequence
    parseFrame urlScheme floats request (lines.1 ++ '\n' :: lines.2) sequence =
      (checkEventData urlScheme floats (ofString data.toStream.event)
        (.obj [(ofString data.toStream.field, data.toStream.value.sorted)]) sequence request).map
        fun found => ⟨request.requestId, .int sequence, found⟩ := by
  intro lines
  have hloads := Json.loads_dumps floats.toFloatFormat .spaced
    (StreamEvent.toJson_distinct (toStream_distinct data) sequence request.requestId)
  obtain ⟨hevent, hdata⟩ := fieldValues_lines data.toStream.event.toList
    ((data.toStream.toJson request.requestId sequence).dumps floats.toFloatFormat .spaced)
  have hstrings : stringLines (lines.1 ++ '\n' :: lines.2) = [lines.1, lines.2] :=
    stringLines_frame (eventLines_frame data sequence)
  have hfields := frameFields_eventLines floats.toFloatFormat request.requestId data sequence
  rw [parseFrame, hstrings, hfields]
  simp only [bind, Except.bind, hevent, hdata, List.intercalate_singleton, hloads]
  exact checkEvent_toJson data sequence

end Events

/-! ## The checks of the client -/

section Accepted

variable {F : Type} {urlScheme : JsonText → Checked JsonText} {floats : FloatNumbers F}
variable {request : ChatRequest}

/-- The data passes the checks of the client, whatever its number. -/
def ChatEventData.Accepted (urlScheme : JsonText → Checked JsonText) (floats : FloatNumbers F)
    (request : ChatRequest) (data : ChatEventData F) : Prop :=
  ∀ sequence, checkEventData urlScheme floats (ofString data.toStream.event)
    (.obj [(ofString data.toStream.field, data.toStream.value.sorted)]) sequence request = .ok data

theorem checkEventData_token (text : JsonText) (sequence : Nat) :
    checkEventData urlScheme floats (ofString "token")
      (.obj [(ofString "text", .str text)]) sequence request =
    (boundedText (F := F) (.str text) (ofString ("SSE event " ++ toString sequence) ++
      ofString " text") 32000 anyText).map .token := by
  have hfields : ∀ name, objectFields (F := F) (.obj [(ofString "text", .str text)]) name ["text"]
      ["text"] = .ok _ := fun name => objectFields_obj.mpr (by simp)
  simp only [checkEventData, hfields, bind, Except.bind, field_cons, if_true]
  rfl

theorem accepted_token {text : JsonText} (h : BoundedText 32000 anyText text) :
    (ChatEventData.token (F := F) text).Accepted urlScheme floats request := by
  intro sequence
  exact (checkEventData_token text sequence).trans (by rw [boundedText_str h]; rfl)

theorem accepted_citation {citation : Citation}
    (h : ∀ name, validateCitation (F := F) urlScheme citation.toJson name = .ok citation) :
    (ChatEventData.citation (F := F) citation).Accepted urlScheme floats request := by
  intro sequence
  have hfields : ∀ name, objectFields (F := F)
      (.obj [(ofString "citation", citation.toJson.sorted)]) name ["citation"] ["citation"] =
      .ok _ := fun name => objectFields_obj.mpr (by simp)
  have hvalid : ∀ name, validateCitation (F := F) urlScheme citation.toJson.sorted name =
      .ok citation := fun name => by
    rw [validateCitation_sorted citation.toJson_distinct, h]
  simp only [ChatEventData.toStream, checkEventData, JsonText.ofString_inj, hfields, bind,
    Except.bind, field_cons]
  simp [hvalid]
  rfl

theorem accepted_final {response : ChatResponse F}
    (h : validateResponse urlScheme floats response.toJson (request.toJson (F := F)) =
      .ok response) : (ChatEventData.final response).Accepted urlScheme floats request := by
  intro sequence
  have hfields : ∀ name, objectFields (.obj [(ofString "response", response.toJson.sorted)]) name
      ["response"] ["response"] = .ok _ := fun name => objectFields_obj.mpr (by simp)
  have hvalid : validateResponse urlScheme floats response.toJson.sorted
      (request.toJson (F := F)) = .ok response := by
    rw [validateResponse_sorted response.toJson_distinct, h]
  simp only [ChatEventData.toStream, checkEventData, JsonText.ofString_inj, hfields, bind,
    Except.bind, field_cons]
  simp [hvalid]
  rfl

/-- What the validator establishes for the events of a response. -/
theorem validateResponse_events {value given : Json F} {response : ChatResponse F}
    (hrequest : normalizeRequest given = .ok request)
    (h : validateResponse urlScheme floats value given = .ok response) :
    response.requestId = request.requestId ∧ response.citations.length ≤ 100 ∧
      BoundedText 100000 anyText response.answer ∧
      (∀ citation ∈ response.citations,
        (ChatEventData.citation (F := F) citation).Accepted urlScheme floats request) ∧
      (ChatEventData.final response).Accepted urlScheme floats request := by
  have hfinal := accepted_final (validateResponse_toJson hrequest h)
  simp only [validateResponse, hrequest, Checked.bind_eq_ok, Except.ok.injEq, exists_eq_left',
    Checked.refuse_bind, Checked.guard_eq_ok] at h
  obtain ⟨members, -, requestId, hrequestId, _, -, _, -, corpus, -, -, answer, hanswer, citations,
    hcitations, _, -, _, -, _, -, _, -, _, -, _, -, h⟩ := h
  cases h
  have hid : requestId = request.requestId := by
    simp only [matchingField, Checked.bind_eq_ok, Checked.refuse_bind, Checked.guard_eq_ok]
      at hrequestId
    obtain ⟨found, -, hsame, hfound⟩ := hrequestId
    cases hfound
    exact not_not.mp hsame
  refine ⟨hid, (checkCitations_toJson hcitations).1, (boundedText_ok hanswer).2, ?_, hfinal⟩
  intro citation hcitation
  exact accepted_citation fun name => checkCitations_mem hcitations hcitation name

/-- The loop over the frames of accepted data. -/
theorem parseFrames_accepted (items : List (ChatEventData F))
    (h : ∀ data ∈ items, data.Accepted urlScheme floats request) (index : Nat) :
    ((((items.zipIdx index).map fun item =>
        eventLines floats.toFloatFormat request.requestId item.1 item.2).map
        fun lines => lines.1 ++ '\n' :: lines.2).zipIdx index).mapM
      (fun frame => parseFrame urlScheme floats request frame.1 frame.2) =
      .ok ((items.zipIdx index).map fun item => ⟨request.requestId, .int item.2, item.1⟩) := by
  induction items generalizing index with
  | nil => rfl
  | cons data items ih =>
      rw [List.forall_mem_cons] at h
      have hparse : parseFrame urlScheme floats request
          ((eventLines floats.toFloatFormat request.requestId data index).1 ++
            '\n' :: (eventLines floats.toFloatFormat request.requestId data index).2) index =
          .ok ⟨request.requestId, .int index, data⟩ := by
        rw [parseFrame_eventLines, h.1 index]
        rfl
      simp only [List.zipIdx_cons, List.map_cons, List.mapM_cons, hparse, ih h.2]
      rfl

end Accepted

/-! ## The written stream -/

section Written

variable {F : Type} (format : FloatFormat F) (response : ChatResponse F)

/-- The counts have few enough digits to be written. -/
def ChatUsage.Writable (usage : ChatUsage) : Prop :=
  usage.inputTokens < 10 ^ 4300 ∧ usage.outputTokens < 10 ^ 4300 ∧ usage.totalTokens < 10 ^ 4300

/-- The lines of the frames of a response. -/
def ChatResponse.frames : List (List Char × List Char) :=
  response.eventData.zipIdx.map fun item =>
    eventLines format response.requestId item.1 item.2

theorem Citation.digitsWithin_toJson (limit : Nat) (citation : Citation) :
    (citation.toJson (F := F)).digitsWithin limit = true := by
  rw [Citation.toJson]
  cases citation.locator <;> rfl

theorem citations_digitsWithin (limit : Nat) (citations : List Citation) :
    Json.digitsWithinItems limit (citations.map (Citation.toJson (F := F))) = true := by
  induction citations with
  | nil => rfl
  | cons citation citations ih =>
      rw [List.map_cons, Json.digitsWithinItems, citation.digitsWithin_toJson, ih]
      rfl

/-- The counts are the only integers of a response. -/
theorem ChatResponse.digitsWithin_toJson (limit : Nat) :
    response.toJson.digitsWithin limit = true ↔ response.usage.inputTokens < 10 ^ limit ∧
      response.usage.outputTokens < 10 ^ limit ∧ response.usage.totalTokens < 10 ^ limit := by
  simp [ChatResponse.toJson, ChatUsage.toJson, ChatLatency.toJson, Json.digitsWithin,
    Json.digitsWithinMembers, citations_digitsWithin]

theorem StreamEvent.digitsWithin_toJson (limit : Nat) (item : StreamEvent F) (requestId : JsonText)
    (sequence : Nat) : (item.toJson requestId sequence).digitsWithin limit = true ↔
      sequence < 10 ^ limit ∧ item.value.digitsWithin limit = true := by
  simp [StreamEvent.toJson, Json.digitsWithin, Json.digitsWithinMembers]

theorem frame_eq_some {format : FloatFormat F} {requestId : JsonText} {data : ChatEventData F}
    {sequence : Nat}
    (h : (data.toStream.toJson requestId sequence).digitsWithin 4300 = true) :
    data.toStream.frame format requestId sequence =
      some (framed (eventLines format requestId data sequence)) := by
  rw [StreamEvent.frame, dumps?, if_pos h]
  rfl

theorem mapM_frames (requestId : JsonText) (items : List (ChatEventData F × Nat))
    (h : ∀ item ∈ items, (item.1.toStream.toJson requestId item.2).digitsWithin 4300 = true) :
    (items.map fun item => (item.1.toStream, item.2)).mapM
        (fun item : StreamEvent F × Nat => item.1.frame format requestId item.2) =
      some (items.map fun item => framed (eventLines format requestId item.1 item.2)) := by
  induction items with
  | nil => rfl
  | cons item items ih =>
      rw [List.forall_mem_cons] at h
      rw [List.map_cons, List.mapM_cons, frame_eq_some h.1, ih h.2]
      rfl

theorem mapM_some_mem {α β : Type} {f : α → Option β} {items : List α} {values : List β}
    (h : items.mapM f = some values) {item : α} (hitem : item ∈ items) :
    ∃ value, f item = some value := by
  induction items generalizing values with
  | nil => cases hitem
  | cons first items ih =>
      rw [List.mapM_cons] at h
      obtain ⟨value, hvalue, h⟩ := Option.bind_eq_some_iff.mp h
      obtain ⟨others, hothers, -⟩ := Option.bind_eq_some_iff.mp h
      rcases List.mem_cons.mp hitem with rfl | hitem
      · exact ⟨value, hvalue⟩
      · exact ih hothers hitem

theorem lt_pow_of_le {n small limit : Nat} (hle : small ≤ limit) (h : n < 10 ^ small) :
    n < 10 ^ limit :=
  h.trans_le (Nat.pow_le_pow_right (by decide) hle)

variable {response}

theorem ChatResponse.events_zipIdx : response.events.zipIdx =
    response.eventData.zipIdx.map fun item => (item.1.toStream, item.2) := by
  rw [ChatResponse.events_eq, List.zipIdx_map]
  rfl

/-- The stream is written when the counts can be. -/
theorem ChatResponse.stream_eq (hshort : response.citations.length ≤ 100)
    (h : response.usage.Writable) :
    response.stream format = some ((response.frames format).map framed).flatten := by
  have hwritten : ∀ item ∈ response.eventData.zipIdx,
      (item.1.toStream.toJson response.requestId item.2).digitsWithin 4300 = true := by
    intro item hitem
    obtain ⟨-, hlt, hmem⟩ := List.mem_zipIdx hitem
    rw [StreamEvent.digitsWithin_toJson]
    constructor
    · have hlength : response.eventData.length ≤ 102 := by
        simp only [ChatResponse.eventData, List.length_cons, List.length_append, List.length_map,
          List.length_nil]
        omega
      have hindex : item.2 < 10 ^ 3 := by omega
      exact lt_pow_of_le (by decide) hindex
    · have hdata : item.1 ∈ response.eventData := List.mem_of_getElem hmem.symm
      simp only [ChatResponse.eventData, List.mem_cons, List.mem_append, List.mem_map,
        List.not_mem_nil, or_false] at hdata
      rcases hdata with hdata | ⟨citation, -, hdata⟩ | hdata
      · rw [hdata]
        rfl
      · rw [← hdata]
        exact citation.digitsWithin_toJson 4300
      · rw [hdata]
        exact (response.digitsWithin_toJson 4300).mpr h
  have hframes := mapM_frames format response.requestId _ hwritten
  rw [ChatResponse.stream, ChatResponse.events_zipIdx, hframes, ChatResponse.frames, List.map_map]
  rfl

theorem ChatResponse.writable_of_stream {text : List Char}
    (h : response.stream format = some text) : response.usage.Writable := by
  obtain ⟨frames, hframes, -⟩ := Option.map_eq_some_iff.mp h
  have hfinal : ∃ index, ((ChatEventData.final response).toStream, index) ∈
      response.events.zipIdx := by
    refine ⟨response.citations.length + 1, ?_⟩
    rw [List.mem_zipIdx_iff_getElem?]
    simp [ChatResponse.events, ChatEventData.toStream]
  obtain ⟨index, hmem⟩ := hfinal
  obtain ⟨text, htext⟩ := mapM_some_mem hframes hmem
  obtain ⟨data, hdata, -⟩ := Option.map_eq_some_iff.mp htext
  have hdigits : ((ChatEventData.final response).toStream.toJson response.requestId
      index).digitsWithin 4300 = true := by
    by_contra hlong
    rw [dumps?, if_neg hlong] at hdata
    cases hdata
  exact (response.digitsWithin_toJson 4300).mp
    ((StreamEvent.digitsWithin_toJson 4300 _ _ _).mp hdigits).2

end Written

/-! ## The length of the stream -/

section StreamSize

variable {F : Type} (format : FloatFormat F)

/-- The length of the stream, from the lengths of the JSON forms of what it carries. -/
def ChatResponse.streamSize (response : ChatResponse F) : Nat :=
  let size := Json.size format JsonStyle.spaced
  let requestId := size (.str response.requestId)
  (90 + requestId + size (.str response.answer)) +
    ((response.citations.zipIdx 1).map fun item =>
      99 + requestId + (Nat.toDigits 10 item.2).length + size item.1.toJson).sum +
    (93 + requestId + (Nat.toDigits 10 (response.citations.length + 1)).length +
      size response.toJson)

theorem size_int (n : Nat) :
    (Json.int (F := F) n).size format .spaced = (Nat.toDigits 10 n).length := by
  have hnonneg : ¬ (n : Int) < 0 := by omega
  rw [Json.size, Json.dumps, Json.sorted, Json.write, writeInt, if_neg hnonneg]
  rfl

/-- The length of an event; 59 is that of its names, brackets, quotes and separators. -/
theorem StreamEvent.size_toJson (item : StreamEvent F) (requestId : JsonText) (sequence : Nat)
    (field : Nat) (hfield : (writeName .spaced (ofString item.field)).length = field + 4)
    (event : Nat)
    (hevent : (Json.str (F := F) (ofString item.event)).size format .spaced = event + 2) :
    (item.toJson requestId sequence).size format .spaced =
      59 + event + field + (Json.str (F := F) requestId).size format .spaced +
        (Nat.toDigits 10 sequence).length + item.value.size format .spaced := by
  have hid : (writeName .spaced (ofString "request_id")).length = 14 := by decide
  have hsequence : (writeName .spaced (ofString "sequence")).length = 12 := by decide
  have hname : (writeName .spaced (ofString "event")).length = 9 := by decide
  have hdata : (writeName .spaced (ofString "data")).length = 8 := by decide
  have hgap : JsonStyle.spaced.gap.length = 1 := rfl
  have hinner := Json.size_obj format .spaced
    (List.cons_ne_nil (ofString item.field, item.value) [])
  have houter := Json.size_obj format .spaced
    (List.cons_ne_nil (ofString "request_id", Json.str requestId)
      [(ofString "sequence", .int sequence), (ofString "event", .str (ofString item.event)),
        (ofString "data", .obj [(ofString item.field, item.value)])])
  simp only [List.map_cons, List.map_nil, List.sum_cons, List.sum_nil, memberSize, hfield, hid,
    hsequence, hname, hdata, hgap, hevent, size_int] at hinner houter
  rw [StreamEvent.toJson]
  omega

theorem length_frame (data : ChatEventData F) (requestId : JsonText) (sequence field event : Nat)
    (hfield : (writeName .spaced (ofString data.toStream.field)).length = field + 4)
    (hname : data.toStream.event.toList.length = event)
    (hevent : (JsonText.write (ofString data.toStream.event)).length = event + 1) :
    (framed (eventLines format requestId data sequence)).length =
      75 + 2 * event + field + (Json.str (F := F) requestId).size format .spaced +
        (Nat.toDigits 10 sequence).length + data.toStream.value.size format .spaced := by
  have htext : (Json.str (F := F) (ofString data.toStream.event)).size format .spaced =
      event + 2 := congrArg (· + 1) hevent
  have hsize := data.toStream.size_toJson format requestId sequence field hfield event htext
  have hfirst : "event: ".toList.length = 7 := by decide
  have hsecond : "data: ".toList.length = 6 := by decide
  have hlength : (framed (eventLines format requestId data sequence)).length =
      ("event: ".toList ++ data.toStream.event.toList).length + (("data: ".toList ++
        (data.toStream.toJson requestId sequence).dumps format .spaced).length + 2 + 1) := by
    rw [framed, List.length_append, List.length_cons, List.length_append]
    rfl
  rw [hlength, List.length_append, List.length_append, hfirst, hsecond, ← Json.size, hsize, hname]
  omega

/-- The length of a frame by the kind of its event. -/
theorem length_frames (requestId : JsonText) (sequence : Nat) :
    (∀ text, (framed (eventLines format requestId (.token text) sequence)).length =
      89 + (Json.str (F := F) requestId).size format .spaced + (Nat.toDigits 10 sequence).length +
        (Json.str (F := F) text).size format .spaced) ∧
    (∀ citation, (framed (eventLines format requestId (.citation citation) sequence)).length =
      99 + (Json.str (F := F) requestId).size format .spaced + (Nat.toDigits 10 sequence).length +
        citation.toJson.size format .spaced) ∧
    ∀ response, (framed (eventLines format requestId (.final response) sequence)).length =
      93 + (Json.str (F := F) requestId).size format .spaced + (Nat.toDigits 10 sequence).length +
        response.toJson.size format .spaced := by
  have htext : (writeName .spaced (ofString "text")).length = 4 + 4 := by decide
  have hcitation : (writeName .spaced (ofString "citation")).length = 8 + 4 := by decide
  have hresponse : (writeName .spaced (ofString "response")).length = 8 + 4 := by decide
  have htoken : (JsonText.write (ofString "token")).length = 5 + 1 := by decide
  have hcited : (JsonText.write (ofString "citation")).length = 8 + 1 := by decide
  have hfinal : (JsonText.write (ofString "final")).length = 5 + 1 := by decide
  refine ⟨fun text => ?_, fun citation => ?_, fun response => ?_⟩
  · exact length_frame format (.token text) requestId sequence 4 5 htext
      (show "token".toList.length = 5 by decide) htoken
  · exact length_frame format (.citation citation) requestId sequence 8 8 hcitation
      (show "citation".toList.length = 8 by decide) hcited
  · exact length_frame format (.final response) requestId sequence 8 5 hresponse
      (show "final".toList.length = 5 by decide) hfinal

theorem ChatResponse.length_stream (response : ChatResponse F) :
    ((response.frames format).map framed).flatten.length = response.streamSize format := by
  have hlength := length_frames format response.requestId
  have hcited : ∀ index, (((response.citations.map ChatEventData.citation).zipIdx index).map
      fun item => (framed (eventLines format response.requestId item.1 item.2)).length) =
      (response.citations.zipIdx index).map fun item =>
        99 + (Json.str response.requestId).size format .spaced +
          (Nat.toDigits 10 item.2).length + item.1.toJson.size format .spaced := by
    intro index
    rw [List.zipIdx_map, List.map_map]
    exact List.map_congr_left fun item _ => (hlength item.2).2.1 item.1
  have hdigit : (Nat.toDigits 10 0).length = 1 := by decide
  rw [List.length_flatten, List.map_map, ChatResponse.frames, List.map_map]
  simp only [ChatResponse.eventData, List.zipIdx_cons, List.zipIdx_append, List.map_cons,
    List.map_append, List.sum_cons, List.sum_append, List.zipIdx_nil, List.map_nil, List.sum_nil,
    List.length_map, Function.comp_def, hcited, (hlength _).1,
    (hlength _).2.2, hdigit, ChatResponse.streamSize, Nat.add_comm 1 response.citations.length,
    Nat.zero_add]
  omega

end StreamSize

/-! ## The round trip -/

section RoundTrip

variable {F : Type} {urlScheme : JsonText → Checked JsonText} {floats : FloatNumbers F}
variable {request : ChatRequest} {response : ChatResponse F}

theorem ChatResponse.eventData_length :
    response.eventData.length = response.citations.length + 2 := by
  simp [ChatResponse.eventData]

theorem ChatResponse.chatEvents_data :
    response.chatEvents.map ChatEvent.data = response.eventData := by
  rw [ChatResponse.chatEvents, List.map_map]
  exact List.zipIdx_map_fst 0 response.eventData

/-- The last event and no other is final. -/
theorem ChatResponse.chatEvents_final :
    (response.chatEvents.filter fun event => event.data.isFinal).length = 1 ∧
      (response.chatEvents.getLast?.any fun event => event.data.isFinal) = true := by
  have hfilter : (response.chatEvents.filter fun event => event.data.isFinal).length =
      (response.eventData.filter ChatEventData.isFinal).length := by
    rw [← ChatResponse.chatEvents_data, List.filter_map, List.length_map]
    rfl
  have hlast : (response.chatEvents.getLast?.any fun event => event.data.isFinal) =
      response.eventData.getLast?.any ChatEventData.isFinal := by
    rw [← ChatResponse.chatEvents_data, List.getLast?_map, Option.any_map]
  have hcited : ∀ citations : List Citation,
      (citations.map (ChatEventData.citation (F := F))).filter ChatEventData.isFinal = [] := by
    intro citations
    rw [List.filter_eq_nil_iff, List.forall_mem_map]
    exact fun _ _ => Bool.false_ne_true
  constructor
  · rw [hfilter, ChatResponse.eventData, List.filter_cons_of_neg Bool.false_ne_true,
      List.filter_append, hcited]
    rfl
  · rw [hlast, ChatResponse.eventData, ← List.cons_append, List.getLast?_concat]
    rfl

theorem frames_lines (format : FloatFormat F) :
    ∀ lines ∈ response.frames format, FrameLines lines := by
  intro lines hlines
  obtain ⟨item, -, rfl⟩ := List.mem_map.mp hlines
  exact eventLines_frame item.1 item.2

/-- The client takes the stream of an accepted response apart if its answer is as short as a
token. -/
theorem parseText_stream (hid : response.requestId = request.requestId)
    (hshort : response.citations.length ≤ 100)
    (h : ∀ data ∈ response.eventData, data.Accepted urlScheme floats request) :
    parseText urlScheme floats request
      ((response.frames floats.toFloatFormat).map framed).flatten = .ok response.chatEvents := by
  have hloop := parseFrames_accepted response.eventData h 0
  have hlength : ¬ 10000 < ((response.frames floats.toFloatFormat).map
      fun lines => lines.1 ++ '\n' :: lines.2).length := by
    rw [List.length_map, ChatResponse.frames, List.length_map, List.length_zipIdx,
      ChatResponse.eventData_length]
    omega
  obtain ⟨hone, hlast⟩ := response.chatEvents_final
  rw [← hid] at hloop
  rw [parseText, streamFrames_frames _ (frames_lines floats.toFloatFormat)]
  simp only [if_neg hlength]
  rw [ChatResponse.frames, hloop]
  refine if_neg fun hbad => ?_
  rcases hbad with hmany | hopen
  · exact hmany hone
  · exact Bool.false_ne_true (hopen.symm.trans hlast)

/-- A longer answer is refused at the first frame. -/
theorem parseText_long (hid : response.requestId = request.requestId)
    (hlong : 32000 < response.answer.length) (events : List (ChatEvent F)) :
    parseText urlScheme floats request
      ((response.frames floats.toFloatFormat).map framed).flatten ≠ .ok events := by
  intro h
  rw [parseText, streamFrames_frames _ (frames_lines floats.toFloatFormat)] at h
  simp only [Checked.bind_eq_ok, Checked.refuse_bind, Checked.guard_eq_ok] at h
  obtain ⟨-, parsed, hparsed, -⟩ := h
  simp only [ChatResponse.frames, ChatResponse.eventData, List.zipIdx_cons, List.map_cons,
    List.mapM_cons, Checked.bind_eq_ok, hid] at hparsed
  obtain ⟨event, hevent, -⟩ := hparsed
  rw [parseFrame_eventLines] at hevent
  obtain ⟨data, hdata, -⟩ := Checked.map_eq_ok.mp hevent
  have htoken : checkEventData urlScheme floats (ofString "token")
      (.obj [(ofString "text", .str response.answer)]) 0 request = .ok data := hdata
  rw [checkEventData_token] at htoken
  obtain ⟨text, htext, -⟩ := Checked.map_eq_ok.mp htoken
  obtain ⟨hanswer, hbounded⟩ := boundedText_ok htext
  cases hanswer
  exact absurd hbounded.short (Nat.not_le.mpr hlong)

theorem frames_ascii (frames : List (List Char × List Char))
    (h : ∀ lines ∈ frames, FrameLines lines) :
    ∀ c ∈ (frames.map framed).flatten, c.toNat < 0x80 := by
  intro c hc
  obtain ⟨text, htext, hmem⟩ := List.mem_flatten.mp hc
  obtain ⟨lines, hlines, rfl⟩ := List.mem_map.mp htext
  have hprintable : ∀ line : List Char, line.all isPrintable = true → c ∈ line →
      c.toNat < 0x80 := by
    intro line hline hcline
    have hc := List.all_eq_true.mp hline c hcline
    simp only [isPrintable, Bool.and_eq_true, decide_eq_true_eq] at hc
    omega
  simp only [framed, List.mem_append, List.mem_cons, List.not_mem_nil, or_false] at hmem
  rcases hmem with hfirst | rfl | hsecond | rfl | rfl
  · exact hprintable _ (h lines hlines).first hfirst
  · decide
  · exact hprintable _ (h lines hlines).second hsecond
  · decide
  · decide

/-- ASCII bytes are as many as their characters, and are parsed as these. -/
theorem parseChatqecSse_ascii {given : Json F} (hrequest : normalizeRequest given = .ok request)
    {text : List Char} (hascii : ∀ c ∈ text, c.toNat < 0x80) :
    parseChatqecSse urlScheme floats (.bytes (encodeUtf8 text)) given =
      if 2000000 < text.length then refuse (ofString "ChatQEC stream exceeds the size limit")
      else parseText urlScheme floats request text := by
  have hsize : (encodeUtf8 text).size = text.length := utf8ByteSize_printable hascii
  simp only [parseChatqecSse, hrequest, bind, Except.bind, fromUTF8_encodeUtf8, hsize,
    String.toList_ofList]
  split <;> rfl

theorem doPost_stream (format : FloatFormat F) (response : ChatResponse F) :
    doPost format "/v1/answers/stream" true (.ok response) =
      (response.stream format).map fun payload =>
        ⟨200, "text/event-stream; charset=utf-8", encodeUtf8 payload⟩ := by
  simp [doPost]

/-- The stream of an answer that is longer than a token is refused. -/
theorem parseChatqecSse_long {given value : Json F}
    (h : validateResponse urlScheme floats value given = .ok response)
    (hlong : 32000 < response.answer.length) {reply : ServiceReply}
    (hreply : doPost floats.toFloatFormat "/v1/answers/stream" true (.ok response) = some reply)
    (events : List (ChatEvent F)) :
    parseChatqecSse urlScheme floats (.bytes reply.body) given ≠ .ok events := by
  obtain ⟨normalized, hrequest, -⟩ := Checked.bind_eq_ok.mp h
  obtain ⟨hid, hshort, -⟩ := validateResponse_events hrequest h
  rw [doPost_stream] at hreply
  obtain ⟨text, htext, rfl⟩ := Option.map_eq_some_iff.mp hreply
  rw [response.stream_eq floats.toFloatFormat hshort
    (response.writable_of_stream floats.toFloatFormat htext), Option.some.injEq] at htext
  subst htext
  rw [parseChatqecSse_ascii hrequest (frames_ascii (response.frames floats.toFloatFormat)
    (frames_lines _)), ne_eq, Checked.guard_eq_ok]
  exact fun hparsed => parseText_long hid hlong events hparsed.2

/-- Streaming an accepted response and reading the stream gives the events of the response
exactly when the answer is as short as a token, the stream is within the limit of the client
and the counts can be written. -/
theorem streamed_answer_decodes_iff (urlScheme : JsonText → Checked JsonText)
    (floats : FloatNumbers F) (request value : Json F) (response : ChatResponse F)
    (h : validateResponse urlScheme floats value request = .ok response) :
    (∃ reply, doPost floats.toFloatFormat "/v1/answers/stream" true (.ok response) = some reply ∧
      parseChatqecSse urlScheme floats (.bytes reply.body) request = .ok response.chatEvents) ↔
    response.answer.length ≤ 32000 ∧ response.streamSize floats.toFloatFormat ≤ 2000000 ∧
      response.usage.Writable := by
  obtain ⟨normalized, hrequest, -⟩ := Checked.bind_eq_ok.mp h
  obtain ⟨hid, hshort, hanswer, hcitations, hfinal⟩ := validateResponse_events hrequest h
  have hascii := frames_ascii (response.frames floats.toFloatFormat) (frames_lines _)
  constructor
  · rintro ⟨reply, hreply, hparsed⟩
    have hlength : response.answer.length ≤ 32000 := by
      by_contra hlong
      exact parseChatqecSse_long h (Nat.lt_of_not_le hlong) hreply _ hparsed
    rw [doPost_stream] at hreply
    obtain ⟨text, htext, rfl⟩ := Option.map_eq_some_iff.mp hreply
    have hwritable := response.writable_of_stream floats.toFloatFormat htext
    rw [response.stream_eq floats.toFloatFormat hshort hwritable, Option.some.injEq] at htext
    subst htext
    rw [parseChatqecSse_ascii hrequest hascii, response.length_stream, Checked.guard_eq_ok,
      not_lt] at hparsed
    exact ⟨hlength, hparsed.1, hwritable⟩
  · rintro ⟨hlength, hsize, hwritable⟩
    rw [doPost_stream, response.stream_eq floats.toFloatFormat hshort hwritable]
    refine ⟨_, rfl, ?_⟩
    rw [parseChatqecSse_ascii hrequest hascii, response.length_stream, Checked.guard_eq_ok, not_lt]
    refine ⟨hsize, parseText_stream hid hshort fun data hdata => ?_⟩
    simp only [ChatResponse.eventData, List.mem_cons, List.mem_append, List.mem_map,
      List.not_mem_nil, or_false] at hdata
    rcases hdata with rfl | ⟨citation, hcitation, rfl⟩ | rfl
    · exact accepted_token ⟨hanswer.present, hlength, rfl⟩
    · exact hcitations citation hcitation
    · exact hfinal

end RoundTrip

/-! ### An answer of any length -/

/-- The two floats of the responses below. -/
def unitFloats : FloatNumbers (Fin 2) where
  repr x := if x = 0 then "0.0".toList else "1.0".toList
  parse text :=
    if text = "0.0".toList then .finite 0
    else if text = "1.0".toList then .finite 1 else .nan
  scan_repr := by decide
  parse_repr := by decide
  value x := x.val
  ofInt n := if n = 0 then some 0 else if n = 1 then some 1 else none
  ofInt_nonneg _ x _ _ := Nat.cast_nonneg x.val
  ofInt_le_one _ x _ _ := by exact_mod_cast Nat.le_of_lt_succ x.isLt

def sampleRevision : JsonText := ofString "sha256:" ++ List.replicate 64 0x30

def sampleChatRequest : ChatRequest where
  requestId := ofString "request-1"
  correlationId := ofString "correlation-1"
  conversationId := ofString "conversation-1"
  authorizedSubject := ofString "subject"
  workspaceId := ofString "workspace"
  policyClass := ofString "public"
  corpusRevision := sampleRevision
  question := ofString "What is a surface code?"
  history := []

def sampleChatResponse (answer : JsonText) : ChatResponse (Fin 2) where
  requestId := ofString "request-1"
  correlationId := ofString "correlation-1"
  conversationId := ofString "conversation-1"
  corpusRevision := sampleRevision
  answer := answer
  citations := []
  confidence := .finite 1
  provider := ofString "chatqec-local"
  model := ofString "canonical-extractive-v1"
  modelResponseId := ofString "local-1"
  usage := ⟨4, 5, 9⟩
  latency := ⟨.finite 0, .finite 0, .finite 0, .finite 1⟩

def httpsScheme (_ : JsonText) : Checked JsonText := .ok (ofString "https")

theorem sampleLatency_validates : checkLatency unitFloats (ChatLatency.toJson
    ⟨.finite 0, .finite 0, .finite 0, .finite 1⟩) =
      .ok ⟨.finite 0, .finite 0, .finite 0, .finite 1⟩ := by
  have hnumber : ∀ (x : Fin 2) (name : JsonText),
      nonNegativeNumber unitFloats (.float (.finite x)) name = .ok (.finite x) := by
    intro x name
    simp [nonNegativeNumber, FloatNumbers.number?, FloatNumbers.number, FloatNumbers.float,
      Number.lt, unitFloats]
  simp only [checkLatency, Checked.bind_eq_ok, Checked.refuse_bind, Checked.guard_eq_ok]
  refine ⟨_, objectFields_obj.mpr (by simp [latencyFields]), .finite 0, ?_, .finite 0, ?_,
    .finite 0, ?_, .finite 1, ?_, ?_, rfl⟩
  · simpa [field_cons] using hnumber 0 _
  · simpa [field_cons] using hnumber 0 _
  · simpa [field_cons] using hnumber 0 _
  · simpa [field_cons] using hnumber 1 _
  · simp [FloatNumbers.maximum, FloatNumbers.number, Number.lt, unitFloats]

theorem sampleChatResponse_validates {answer : JsonText} (h : BoundedText 100000 anyText answer) :
    validateResponse httpsScheme unitFloats (sampleChatResponse answer).toJson
      sampleChatRequest.toJson = .ok (sampleChatResponse answer) := by
  have hrequest : normalizeRequest (F := Fin 2) sampleChatRequest.toJson =
      .ok sampleChatRequest := rfl
  simp only [validateResponse, Checked.bind_eq_ok, Checked.refuse_bind, Checked.guard_eq_ok]
  refine ⟨_, hrequest, _, objectFields_obj.mpr (by simp [responseFields]), ofString "request-1",
    rfl, ofString "correlation-1", rfl, ofString "conversation-1", rfl, sampleRevision, rfl,
    not_not.mpr rfl, answer, ?_, [], rfl, .finite 1, ?_, ofString "chatqec-local", rfl,
    ofString "canonical-extractive-v1", rfl, ofString "local-1", rfl, ⟨4, 5, 9⟩, rfl,
    ⟨.finite 0, .finite 0, .finite 0, .finite 1⟩, ?_, rfl⟩
  · simpa [field_cons, sampleChatResponse] using boundedText_str h
  · simp [field_cons, sampleChatResponse, checkConfidence, FloatNumbers.number?,
      FloatNumbers.number, FloatNumbers.float, Number.atMost, Number.lt, Number.eq, unitFloats]
  · simpa [field_cons, sampleChatResponse] using sampleLatency_validates

theorem length_ofChars (text : List Char) : (JsonText.ofChars text).length = text.length := by
  rw [JsonText.length, JsonText.codePoints_ofChars, List.length_map]

theorem boundedText_letters {n : Nat} (hpos : 0 < n) (hle : n ≤ 100000) :
    BoundedText 100000 anyText (JsonText.ofChars (List.replicate n 'a')) := by
  have hascii : ∀ c ∈ List.replicate n 'a', c.toNat < 0x80 := by
    intro c hc
    rw [List.eq_of_mem_replicate hc]
    decide
  have hletter : isSpace (Char.ofNat (UInt16.ofNat 'a'.toNat).toNat) = false := by decide
  refine ⟨?_, ?_, rfl⟩
  · rw [JsonText.isBlank, JsonText.ofChars_ascii hascii, List.map_replicate, List.all_replicate,
      hletter, if_neg (by omega)]
  · rw [length_ofChars, List.length_replicate]
    exact hle

theorem sampleUsage_writable (answer : JsonText) : (sampleChatResponse answer).usage.Writable :=
  ⟨lt_pow_of_le (by decide) (show 4 < 10 ^ 1 by decide),
    lt_pow_of_le (by decide) (show 5 < 10 ^ 1 by decide),
    lt_pow_of_le (by decide) (show 9 < 10 ^ 1 by decide)⟩

theorem streamed_answer_decodes_sample :
    ∃ reply, doPost unitFloats.toFloatFormat "/v1/answers/stream" true
        (.ok (sampleChatResponse (JsonText.ofChars (List.replicate 12 'a')))) = some reply ∧
      parseChatqecSse httpsScheme unitFloats (.bytes reply.body) sampleChatRequest.toJson =
        .ok (sampleChatResponse (JsonText.ofChars (List.replicate 12 'a'))).chatEvents := by
  refine (streamed_answer_decodes_iff httpsScheme unitFloats sampleChatRequest.toJson _ _
    (sampleChatResponse_validates (boundedText_letters (by decide) (by decide)))).mpr
    ⟨?_, ?_, sampleUsage_writable _⟩
  · show (JsonText.ofChars (List.replicate 12 'a')).length ≤ 32000
    rw [length_ofChars]
    decide
  · decide +kernel

/-- An answer that the validator admits and the client refuses. -/
theorem long_answer_not_decoded :
    ∃ (response : ChatResponse (Fin 2)) (reply : ServiceReply),
      validateResponse httpsScheme unitFloats response.toJson sampleChatRequest.toJson =
        .ok response ∧
      doPost unitFloats.toFloatFormat "/v1/answers/stream" true (.ok response) = some reply ∧
      ∀ events, parseChatqecSse httpsScheme unitFloats (.bytes reply.body)
        sampleChatRequest.toJson ≠ .ok events := by
  have hvalid := sampleChatResponse_validates
    (boundedText_letters (n := 32001) (by decide) (by decide))
  have hstream := (sampleChatResponse (JsonText.ofChars (List.replicate 32001 'a'))).stream_eq
    unitFloats.toFloatFormat (Nat.zero_le 100) (sampleUsage_writable _)
  have hpost := doPost_stream unitFloats.toFloatFormat
    (sampleChatResponse (JsonText.ofChars (List.replicate 32001 'a')))
  rw [hstream] at hpost
  refine ⟨_, _, hvalid, hpost, parseChatqecSse_long hvalid ?_ hpost⟩
  show 32000 < (JsonText.ofChars (List.replicate 32001 'a')).length
  rw [length_ofChars, List.length_replicate]
  decide

end QhpcEcosystem
