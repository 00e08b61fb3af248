/-
What the validators of the assistant service establish.  Each of them reads an object by the
names of its members only, so that it gives the same for an object whose members have been
sorted; and each accepts the dictionary that it has made.
-/
import QhpcEcosystem.ChatService

namespace QhpcEcosystem

open JsonText (ofString)

/-! ## Checks -/

section Checks

variable {α β : Type}

theorem Checked.bind_eq_ok {x : Checked α} {f : α → Checked β} {b : β} :
    (x >>= f) = .ok b ↔ ∃ a, x = .ok a ∧ f a = .ok b := by
  cases x with
  | error failure => exact ⟨nofun, nofun⟩
  | ok a => exact ⟨fun h => ⟨a, rfl, h⟩, fun ⟨_, heq, h⟩ => by cases heq; exact h⟩

theorem Checked.map_eq_ok {x : Checked α} {f : α → β} {b : β} :
    x.map f = .ok b ↔ ∃ a, x = .ok a ∧ f a = b := by
  cases x with
  | error failure => exact ⟨nofun, nofun⟩
  | ok a => exact ⟨fun h => ⟨a, rfl, Except.ok.inj h⟩, fun ⟨_, heq, h⟩ => by cases heq; rw [← h]; rfl⟩

@[simp] theorem Checked.refuse_eq_ok {message : JsonText} {a : α} : refuse message = .ok a ↔ False :=
  ⟨nofun, False.elim⟩

@[simp] theorem Checked.refuse_bind (message : JsonText) (f : α → Checked β) :
    refuse message >>= f = refuse message := rfl

/-- A check lets through what it does not refuse. -/
theorem Checked.guard_eq_ok {c : Prop} [Decidable c] {message : JsonText} {x : Checked α} {a : α} :
    (if c then refuse message else x) = .ok a ↔ ¬ c ∧ x = .ok a := by
  by_cases h : c <;> simp [h]

end Checks

/-! ## Fields -/

section Fields

variable {F : Type} {value : Json F} {members : List (JsonText × Json F)}

/-- What a bounded text has passed. -/
structure BoundedText (maximum : Nat) (pattern : JsonText → Bool) (text : JsonText) : Prop where
  present : text.isBlank = false
  short : text.length ≤ maximum
  formed : pattern text = true

theorem boundedText_str {text name : JsonText} {maximum : Nat} {pattern : JsonText → Bool}
    (h : BoundedText maximum pattern text) :
    boundedText (F := F) (.str text) name maximum pattern = .ok text := by
  simp [boundedText, h.present, h.short, h.formed]

theorem boundedText_ok {text name : JsonText} {maximum : Nat} {pattern : JsonText → Bool}
    (h : boundedText value name maximum pattern = .ok text) :
    value = .str text ∧ BoundedText maximum pattern text := by
  cases value with
  | str other =>
      simp only [boundedText, Checked.guard_eq_ok, Except.ok.injEq, Bool.not_eq_true,
        Bool.not_eq_false, not_lt] at h
      obtain ⟨hpresent, hshort, hformed, rfl⟩ := h
      exact ⟨rfl, hpresent, hshort, hformed⟩
  | _ => cases h

/-- A text that was accepted is accepted again, under any name. -/
theorem boundedText_again {text name : JsonText} {maximum : Nat} {pattern : JsonText → Bool}
    (h : boundedText value name maximum pattern = .ok text) (other : JsonText) :
    boundedText (F := F) (.str text) other maximum pattern = .ok text :=
  boundedText_str (boundedText_ok h).2

theorem boundedText_sorted (value : Json F) (name : JsonText) (maximum : Nat)
    (pattern : JsonText → Bool) :
    boundedText value.sorted name maximum pattern = boundedText value name maximum pattern := by
  cases value <;> rfl

instance textLeTotal : Std.Total fun a b : JsonText => JsonText.le a b = true :=
  ⟨JsonText.le_total⟩

instance textLeTrans : IsTrans JsonText fun a b => JsonText.le a b = true :=
  ⟨fun _ _ _ => JsonText.le_trans⟩

theorem sortedTexts_congr {texts others : List JsonText} (h : texts.Perm others) :
    JsonText.sortedTexts texts = JsonText.sortedTexts others := by
  refine List.Perm.eq_of_pairwise (fun a b _ _ hab hba => JsonText.le_antisymm hab hba)
    (List.pairwise_insertionSort _ _) (List.pairwise_insertionSort _ _) ?_
  exact ((List.perm_insertionSort _ texts).trans h).trans (List.perm_insertionSort _ others).symm

theorem sortedTexts_eq_nil {texts : List JsonText} :
    JsonText.sortedTexts texts = [] ↔ texts = [] := by
  constructor
  · intro h
    have hperm := List.perm_insertionSort (fun a b => JsonText.le a b = true) texts
    exact List.perm_nil.mp (h ▸ hperm.symm)
  · rintro rfl
    rfl

theorem objectFields_obj {name : JsonText} {required allowed : List String} :
    objectFields (.obj members) name required allowed = .ok members ↔
      (∀ item ∈ required, ofString item ∈ members.map Prod.fst) ∧
        ∀ item ∈ members.map Prod.fst, item ∈ allowed.map ofString := by
  simp only [objectFields, Checked.guard_eq_ok, ne_eq, not_not, sortedTexts_eq_nil, and_true,
    List.filter_eq_nil_iff, decide_eq_true_eq, List.forall_mem_map]

theorem objectFields_ok {name : JsonText} {required allowed : List String}
    (h : objectFields value name required allowed = .ok members) : value = .obj members := by
  cases value with
  | obj others =>
      simp only [objectFields, Checked.guard_eq_ok, Except.ok.injEq] at h
      rw [h.2.2]
  | _ => cases h

/-- The order of the members is of no account, also for the messages. -/
theorem objectFields_sorted (value : Json F) (name : JsonText) (required allowed : List String) :
    objectFields value.sorted name required allowed =
      (objectFields value name required allowed).map sortedObject := by
  cases value with
  | obj members =>
      have hnames := sortedObject_names members
      have hmissing : (required.map ofString).filter (· ∉ (sortedObject members).map Prod.fst) =
          (required.map ofString).filter (· ∉ members.map Prod.fst) := by
        simp only [hnames.mem_iff]
      have hunknown : JsonText.sortedTexts (((sortedObject members).map Prod.fst).filter
          (· ∉ allowed.map ofString)) = JsonText.sortedTexts ((members.map Prod.fst).filter
          (· ∉ allowed.map ofString)) :=
        sortedTexts_congr (hnames.filter _)
      simp only [Json.sorted_obj, objectFields, hmissing, hunknown]
      split_ifs <;> rfl
  | _ => rfl

theorem field_sortedObject (h : (members.map Prod.fst).Nodup) (name : String) :
    field (sortedObject members) name = (field members name).sorted := by
  rw [field, field, member?_sortedObject h]
  cases member? members (ofString name) <;> rfl

theorem field_distinct (h : DistinctObject members) (name : String) :
    (field members name).Distinct := by
  rw [field]
  cases hmember : member? members (ofString name) with
  | none => trivial
  | some value => exact h.2 _ (mem_of_member? hmember)

/-- A function of the members that does not look at their order gives the same for the sorted
object. -/
theorem objectFields_bind_sorted {β : Type} (h : value.Distinct) {name : JsonText}
    {required allowed : List String} {f g : List (JsonText × Json F) → Checked β}
    (hfg : ∀ members, DistinctObject members → f (sortedObject members) = g members) :
    (objectFields value.sorted name required allowed >>= f) =
      (objectFields value name required allowed >>= g) := by
  rw [objectFields_sorted]
  cases hfields : objectFields value name required allowed with
  | error failure => rfl
  | ok members =>
      rw [objectFields_ok hfields] at h
      exact hfg members (Json.distinct_obj.mp h)

theorem member?_cons (key : String) (value : Json F) (members : List (JsonText × Json F))
    (name : String) : member? ((ofString key, value) :: members) (ofString name) =
      if key = name then some value else member? members (ofString name) := by
  by_cases h : key = name
  · simp [member?, h]
  · have hne : ofString key ≠ ofString name := fun heq => h (JsonText.ofString_inj.mp heq)
    simp [member?, h, hne]

theorem member?_nil (name : JsonText) : member? ([] : List (JsonText × Json F)) name = none := rfl

theorem mapM_ok_mem {α β : Type} (check : α → Checked β) (items : List α) {values : List β}
    (h : items.mapM check = .ok values) {value : β} (hvalue : value ∈ values) :
    ∃ item, check item = .ok value := by
  induction items generalizing values with
  | nil =>
      cases h
      cases hvalue
  | cons item items ih =>
      simp only [List.mapM_cons, Checked.bind_eq_ok] at h
      obtain ⟨first, hfirst, others, hothers, h⟩ := h
      cases h
      rcases List.mem_cons.mp hvalue with rfl | hvalue
      · exact ⟨item, hfirst⟩
      · exact ih hothers hvalue

/-- Checks of the items of an array pass again on what they have made. -/
theorem mapM_again {α : Type} (check : Json F → Nat → Checked α) (toJson : α → Json F)
    (hcheck : ∀ item index a, check item index = .ok a → check (toJson a) index = .ok a)
    (items : List (Json F)) (index : Nat) {values : List α}
    (h : (items.zipIdx index).mapM (fun item => check item.1 item.2) = .ok values) :
    values.length = items.length ∧
    ((values.map toJson).zipIdx index).mapM (fun item => check item.1 item.2) = .ok values := by
  induction items generalizing index values with
  | nil =>
      cases h
      exact ⟨rfl, rfl⟩
  | cons item items ih =>
      simp only [List.zipIdx_cons, List.mapM_cons, Checked.bind_eq_ok] at h
      obtain ⟨value, hvalue, others, hothers, h⟩ := h
      cases h
      obtain ⟨hlength, hagain⟩ := ih (index + 1) hothers
      constructor
      · rw [List.length_cons, List.length_cons, hlength]
      · simp only [List.map_cons, List.zipIdx_cons, List.mapM_cons, Checked.bind_eq_ok]
        exact ⟨value, hcheck _ _ _ hvalue, others, hagain, rfl⟩

theorem field_cons (key : String) (value : Json F) (members : List (JsonText × Json F))
    (name : String) : field ((ofString key, value) :: members) name =
      if key = name then value else field members name := by
  rw [field, field, member?_cons]
  split <;> rfl

end Fields

/-! ## Numbers -/

section Numbers

variable {F : Type} {floats : FloatNumbers F}

theorem nonNegativeInteger_sorted (value : Json F) (name : JsonText) :
    nonNegativeInteger value.sorted name = nonNegativeInteger value name := by
  cases value <;> rfl

theorem nonNegativeInteger_int (n : Nat) (name : JsonText) :
    nonNegativeInteger (F := F) (.int n) name = .ok n := by
  simp [nonNegativeInteger]

theorem nonNegativeNumber_sorted (value : Json F) (name : JsonText) :
    nonNegativeNumber floats value.sorted name = nonNegativeNumber floats value name := by
  cases value <;> rfl

theorem checkConfidence_sorted (value : Json F) :
    checkConfidence floats value.sorted = checkConfidence floats value := by
  cases value <;> rfl

/-- A number that was accepted is accepted as a float. -/
theorem nonNegativeNumber_float {value : Json F} {name other : JsonText} {x : JsonFloat F}
    (h : nonNegativeNumber floats value name = .ok x) :
    nonNegativeNumber floats (.float x) other = .ok x := by
  cases value with
  | int n =>
      simp only [nonNegativeNumber, FloatNumbers.number?, Checked.guard_eq_ok, FloatNumbers.float,
        Number.lt, decide_eq_true_eq, not_lt] at h
      obtain ⟨hn, h⟩ := h
      split at h
      · next y hy =>
          cases h
          have hvalue := floats.ofInt_nonneg n y hn hy
          simp [nonNegativeNumber, FloatNumbers.number?, FloatNumbers.number, Number.lt,
            FloatNumbers.float, hvalue]
      · cases h
  | float y =>
      simp only [nonNegativeNumber, FloatNumbers.number?, Checked.guard_eq_ok,
        FloatNumbers.float] at h
      obtain ⟨hy, h⟩ := h
      cases h
      simp [nonNegativeNumber, FloatNumbers.number?, FloatNumbers.float, hy]
  | _ => cases h

theorem checkConfidence_float {value : Json F} {x : JsonFloat F}
    (h : checkConfidence floats value = .ok x) : checkConfidence floats (.float x) = .ok x := by
  cases value with
  | int n =>
      simp only [checkConfidence, FloatNumbers.number?, FloatNumbers.float] at h
      split_ifs at h with hn
      · split at h
        · next y hy =>
            cases h
            simp only [Number.atMost, Number.lt, Number.eq, Bool.and_eq_true, Bool.or_eq_true,
              decide_eq_true_eq] at hn
            have hlow := floats.ofInt_nonneg n y (by omega) hy
            have hhigh := floats.ofInt_le_one n y (by omega) hy
            simp [checkConfidence, FloatNumbers.number?, FloatNumbers.number, Number.atMost,
              Number.lt, Number.eq, FloatNumbers.float, lt_or_eq_of_le hlow,
              lt_or_eq_of_le hhigh]
        · cases h
      · cases h
  | float y =>
      simp only [checkConfidence, FloatNumbers.number?, FloatNumbers.float] at h
      split_ifs at h with hy
      · cases h
        simp only [checkConfidence, FloatNumbers.number?, FloatNumbers.float, hy, if_true]
      · cases h
  | _ => cases h

/-! ## Parts of a response -/

theorem checkUsage_toJson {value : Json F} {usage : ChatUsage} (h : checkUsage value = .ok usage) :
    checkUsage (F := F) usage.toJson = .ok usage := by
  simp only [checkUsage, Checked.bind_eq_ok, Checked.refuse_bind, Checked.guard_eq_ok] at h
  obtain ⟨members, -, input, -, output, -, total, -, htotal, h⟩ := h
  cases h
  rw [not_not] at htotal
  have hfields : objectFields (F := F) (ChatUsage.toJson ⟨input, output, total⟩) (ofString "usage")
      usageFields usageFields = .ok _ := objectFields_obj.mpr (by simp [usageFields])
  simp only [checkUsage, Checked.bind_eq_ok, Checked.refuse_bind, Checked.guard_eq_ok]
  refine ⟨_, hfields, input, ?_, output, ?_, total, ?_, not_not.mpr htotal, rfl⟩
  · simpa [field_cons] using nonNegativeInteger_int input _
  · simpa [field_cons] using nonNegativeInteger_int output _
  · simpa [field_cons] using nonNegativeInteger_int total _

theorem checkLatency_toJson {value : Json F} {latency : ChatLatency F}
    (h : checkLatency floats value = .ok latency) :
    checkLatency floats latency.toJson = .ok latency := by
  simp only [checkLatency, Checked.bind_eq_ok, Checked.refuse_bind, Checked.guard_eq_ok] at h
  obtain ⟨members, -, retrieval, hretrieval, rerank, hrerank, generation, hgeneration, total,
    htotal, hstage, h⟩ := h
  cases h
  have hfields : objectFields (ChatLatency.toJson ⟨retrieval, rerank, generation, total⟩)
      (ofString "latency_ms") latencyFields latencyFields = .ok _ :=
    objectFields_obj.mpr (by simp [latencyFields])
  simp only [checkLatency, Checked.bind_eq_ok, Checked.refuse_bind, Checked.guard_eq_ok]
  refine ⟨_, hfields, retrieval, ?_, rerank, ?_, generation, ?_, total, ?_, hstage, rfl⟩
  · simpa [field_cons] using nonNegativeNumber_float hretrieval
  · simpa [field_cons] using nonNegativeNumber_float hrerank
  · simpa [field_cons] using nonNegativeNumber_float hgeneration
  · simpa [field_cons] using nonNegativeNumber_float htotal

theorem checkUsage_sorted {value : Json F} (h : value.Distinct) :
    checkUsage value.sorted = checkUsage value := by
  unfold checkUsage
  refine objectFields_bind_sorted h fun members hmembers => ?_
  simp only [field_sortedObject hmembers.1, nonNegativeInteger_sorted]

theorem checkLatency_sorted {value : Json F} (h : value.Distinct) :
    checkLatency floats value.sorted = checkLatency floats value := by
  unfold checkLatency
  refine objectFields_bind_sorted h fun members hmembers => ?_
  simp only [field_sortedObject hmembers.1, nonNegativeNumber_sorted]

end Numbers

/-! ## Citations -/

section Citations

variable {F : Type} {urlScheme : JsonText → Checked JsonText}

theorem validateCitation_sorted {value : Json F} (h : value.Distinct) (name : JsonText) :
    validateCitation urlScheme value.sorted name = validateCitation urlScheme value name := by
  unfold validateCitation
  refine objectFields_bind_sorted h fun members hmembers => ?_
  simp only [field_sortedObject hmembers.1, member?_sortedObject hmembers.1, boundedText_sorted]
  cases member? members (ofString "locator") with
  | none => rfl
  | some locator => simp only [Option.map_some, boundedText_sorted]

/-- The dictionary of a citation passes the check, under any name. -/
theorem validateCitation_toJson {value : Json F} {name : JsonText} {citation : Citation}
    (h : validateCitation urlScheme value name = .ok citation) (other : JsonText) :
    validateCitation (F := F) urlScheme citation.toJson other = .ok citation := by
  simp only [validateCitation, Checked.bind_eq_ok, Checked.refuse_bind, Checked.guard_eq_ok] at h
  obtain ⟨members, -, uri, huri, scheme, hscheme, hne, id, hid, title, htitle, revision, hrevision,
    h⟩ := h
  have hfields : ∀ locator, objectFields (F := F)
      (Citation.toJson ⟨id, title, uri, revision, locator⟩) other citationFields
      ("locator" :: citationFields) = .ok _ := fun locator =>
    objectFields_obj.mpr (by cases locator <;> simp [citationFields])
  simp only [validateCitation, Checked.bind_eq_ok, Checked.refuse_bind, Checked.guard_eq_ok]
  split at h
  · cases h
    refine ⟨_, hfields none, uri, ?_, scheme, hscheme, hne, id, ?_, title, ?_, revision, ?_, ?_⟩
    · simpa [field_cons] using boundedText_again huri _
    · simpa [field_cons] using boundedText_again hid _
    · simpa [field_cons] using boundedText_again htitle _
    · simpa [field_cons] using boundedText_again hrevision _
    · simp [member?_cons, member?_nil, pure, Except.pure]
  · obtain ⟨locator, hlocator, h⟩ := Checked.bind_eq_ok.mp h
    cases h
    refine ⟨_, hfields (some locator), uri, ?_, scheme, hscheme, hne, id, ?_, title, ?_, revision,
      ?_, ?_⟩
    · simpa [field_cons] using boundedText_again huri _
    · simpa [field_cons] using boundedText_again hid _
    · simpa [field_cons] using boundedText_again htitle _
    · simpa [field_cons] using boundedText_again hrevision _
    · simp [member?_cons, boundedText_again hlocator, bind, Except.bind, pure, Except.pure]

theorem validateCitations_sorted (items : List (Json F)) (h : ∀ item ∈ items, item.Distinct)
    (index : Nat) (name : Nat → JsonText) :
    ((items.map Json.sorted).zipIdx index).mapM (fun item =>
        validateCitation urlScheme item.1 (name item.2)) =
      (items.zipIdx index).mapM fun item => validateCitation urlScheme item.1 (name item.2) := by
  induction items generalizing index with
  | nil => rfl
  | cons item items ih =>
      rw [List.forall_mem_cons] at h
      simp only [List.map_cons, List.zipIdx_cons, List.mapM_cons, validateCitation_sorted h.1,
        ih h.2]

theorem checkCitations_sorted {value : Json F} (h : value.Distinct) :
    checkCitations urlScheme value.sorted = checkCitations urlScheme value := by
  cases value with
  | arr items =>
      have hitems := Json.distinctItems_iff.mp h
      simp only [Json.sorted, Json.sortedItems_eq, checkCitations, List.length_map]
      rw [validateCitations_sorted items hitems 0 fun index =>
        ofString ("citations[" ++ toString index ++ "]")]
  | _ => rfl

theorem checkCitations_toJson {value : Json F} {citations : List Citation}
    (h : checkCitations urlScheme value = .ok citations) :
    citations.length ≤ 100 ∧
    checkCitations (F := F) urlScheme (.arr (citations.map Citation.toJson)) = .ok citations := by
  cases value with
  | arr items =>
      simp only [checkCitations, Checked.guard_eq_ok, not_lt] at h
      obtain ⟨hlength, hagain⟩ := mapM_again (fun item index =>
        validateCitation urlScheme item (ofString ("citations[" ++ toString index ++ "]")))
        Citation.toJson (fun _ _ _ hitem => validateCitation_toJson hitem _) items 0 h.2
      have hshort : citations.length ≤ 100 := by omega
      refine ⟨hshort, ?_⟩
      simp only [checkCitations, Checked.guard_eq_ok, List.length_map]
      exact ⟨by omega, hagain⟩
  | _ => cases h

/-- Every accepted citation passes the check alone. -/
theorem checkCitations_mem {value : Json F} {citations : List Citation}
    (h : checkCitations urlScheme value = .ok citations) {citation : Citation}
    (hmem : citation ∈ citations) (name : JsonText) :
    validateCitation (F := F) urlScheme citation.toJson name = .ok citation := by
  cases value with
  | arr items =>
      simp only [checkCitations, Checked.guard_eq_ok, not_lt] at h
      obtain ⟨item, hitem⟩ := mapM_ok_mem _ _ h.2 hmem
      exact validateCitation_toJson hitem name
  | _ => cases h

end Citations

/-! ## Requests -/

section Requests

variable {F : Type}

theorem identifierField_again {members others : List (JsonText × Json F)} {name : String}
    {text : JsonText} (h : identifierField members name = .ok text)
    (hfield : field others name = .str text) : identifierField others name = .ok text := by
  rw [identifierField, hfield]
  exact boundedText_again h _

theorem checkMessage_toJson {item : Json F} {index : Nat} {message : ChatMessage}
    (h : checkMessage item index = .ok message) :
    checkMessage (F := F) message.toJson index = .ok message := by
  simp only [checkMessage, Checked.bind_eq_ok] at h
  obtain ⟨members, -, role, -, content, hcontent, h⟩ := h
  cases h
  have hfields : objectFields (F := F) (ChatMessage.toJson ⟨role, content⟩)
      (ofString ("history[" ++ toString index ++ "]")) ["role", "content"] ["role", "content"] =
      .ok _ := objectFields_obj.mpr (by simp)
  simp only [checkMessage, Checked.bind_eq_ok]
  refine ⟨_, hfields, role, ?_, content, ?_, rfl⟩
  · cases role <;> simp [field_cons, checkRole, ChatRole.name, JsonText.ofString_inj]
  · simpa [field_cons] using boundedText_again hcontent _

/-- A history passes again, also when it is empty and left out. -/
theorem checkHistory_toJson {history : Option (Json F)} {messages : List ChatMessage}
    (h : checkHistory history = .ok messages) (hne : messages ≠ []) :
    checkHistory (F := F) (some (.arr (messages.map ChatMessage.toJson))) = .ok messages := by
  cases history with
  | none =>
      cases h
      exact absurd rfl hne
  | some value =>
      cases value with
      | arr items =>
          simp only [checkHistory, Checked.guard_eq_ok, not_lt] at h
          obtain ⟨hlength, hagain⟩ := mapM_again checkMessage ChatMessage.toJson
            (fun _ _ _ hitem => checkMessage_toJson hitem) items 0 h.2
          simp only [checkHistory, Checked.guard_eq_ok, List.length_map]
          exact ⟨by omega, hagain⟩
      | _ => cases h

/-- A normalized request is normal. -/
theorem normalizeRequest_toJson {value : Json F} {request : ChatRequest}
    (h : normalizeRequest value = .ok request) :
    normalizeRequest (F := F) request.toJson = .ok request := by
  simp only [normalizeRequest, Checked.bind_eq_ok] at h
  obtain ⟨members, -, requestId, hrequestId, correlationId, hcorrelationId, conversationId,
    hconversationId, subject, hsubject, workspace, hworkspace, policy, hpolicy, corpus, hcorpus,
    question, hquestion, history, hhistory, h⟩ := h
  cases h
  have hfields : objectFields (F := F) (ChatRequest.toJson ⟨requestId, correlationId,
      conversationId, subject, workspace, policy, corpus, question, history⟩)
      (ofString "ChatQEC request") requiredRequestFields ("history" :: requiredRequestFields) =
      .ok _ := objectFields_obj.mpr (by split <;> simp [requiredRequestFields])
  simp only [normalizeRequest, Checked.bind_eq_ok]
  refine ⟨_, hfields, requestId, ?_, correlationId, ?_, conversationId, ?_, subject, ?_,
    workspace, ?_, policy, ?_, corpus, ?_, question, ?_, history, ?_, rfl⟩
  · exact identifierField_again hrequestId (by simp [field_cons])
  · exact identifierField_again hcorrelationId (by simp [field_cons])
  · exact identifierField_again hconversationId (by simp [field_cons])
  · exact identifierField_again hsubject (by simp [field_cons])
  · exact identifierField_again hworkspace (by simp [field_cons])
  · simpa [field_cons] using boundedText_again hpolicy _
  · simpa [field_cons] using boundedText_again hcorpus _
  · simpa [field_cons] using boundedText_again hquestion _
  · by_cases hempty : history = []
    · simp [hempty, member?_cons, member?_nil, checkHistory]
    · simpa [hempty, member?_cons] using checkHistory_toJson hhistory hempty

end Requests

/-! ## Responses -/

section Responses

variable {F : Type} {urlScheme : JsonText → Checked JsonText} {floats : FloatNumbers F}

theorem identifierField_sorted {members : List (JsonText × Json F)}
    (h : (members.map Prod.fst).Nodup) (name : String) :
    identifierField (sortedObject members) name = identifierField members name := by
  rw [identifierField, identifierField, field_sortedObject h, boundedText_sorted]

theorem matchingField_again {members others : List (JsonText × Json F)} {name : String}
    {text expected : JsonText} (h : matchingField members name expected = .ok text)
    (hfield : field others name = .str text) : matchingField others name expected = .ok text := by
  simp only [matchingField, Checked.bind_eq_ok, Checked.refuse_bind, Checked.guard_eq_ok] at h ⊢
  obtain ⟨found, hfound, hsame, h⟩ := h
  cases h
  exact ⟨text, identifierField_again hfound hfield, hsame, rfl⟩

theorem validateResponse_sorted {response : Json F} (h : response.Distinct) (request : Json F) :
    validateResponse urlScheme floats response.sorted request =
      validateResponse urlScheme floats response request := by
  unfold validateResponse
  refine bind_congr fun expected => ?_
  refine objectFields_bind_sorted h fun members hmembers => ?_
  simp only [matchingField, identifierField_sorted hmembers.1, field_sortedObject hmembers.1,
    boundedText_sorted, checkCitations_sorted (field_distinct hmembers _), checkConfidence_sorted,
    checkUsage_sorted (field_distinct hmembers _), checkLatency_sorted (field_distinct hmembers _)]

/-- What has passed passes again as the dictionary that was made of it, for the normalized
request. -/
theorem validateResponse_toJson {value request : Json F} {response : ChatResponse F}
    {normalized : ChatRequest} (hrequest : normalizeRequest request = .ok normalized)
    (h : validateResponse urlScheme floats value request = .ok response) :
    validateResponse urlScheme floats response.toJson (normalized.toJson (F := F)) =
      .ok response := by
  simp only [validateResponse, hrequest, Checked.bind_eq_ok, Except.ok.injEq, exists_eq_left',
    Checked.refuse_bind, Checked.guard_eq_ok] at h
  obtain ⟨members, -, requestId, hrequestId, correlationId, hcorrelationId, conversationId,
    hconversationId, corpus, hcorpus, hsame, answer, hanswer, citations, hcitations, confidence,
    hconfidence, provider, hprovider, model, hmodel, modelResponse, hmodelResponse, usage, husage,
    latency, hlatency, h⟩ := h
  cases h
  have hfields : objectFields (ChatResponse.toJson ⟨requestId, correlationId, conversationId,
      corpus, answer, citations, confidence, provider, model, modelResponse, usage, latency⟩)
      (ofString "ChatQEC response") responseFields responseFields = .ok _ :=
    objectFields_obj.mpr (by simp [responseFields])
  simp only [validateResponse, normalizeRequest_toJson hrequest, Checked.bind_eq_ok,
    Except.ok.injEq, exists_eq_left', Checked.refuse_bind, Checked.guard_eq_ok]
  refine ⟨_, hfields, requestId, ?_, correlationId, ?_, conversationId, ?_, corpus, ?_, hsame,
    answer, ?_, citations, ?_, confidence, ?_, provider, ?_, model, ?_, modelResponse, ?_,
    usage, ?_, latency, ?_, rfl⟩
  · exact matchingField_again hrequestId (by simp [field_cons])
  · exact matchingField_again hcorrelationId (by simp [field_cons])
  · exact matchingField_again hconversationId (by simp [field_cons])
  · simpa [field_cons] using boundedText_again hcorpus _
  · simpa [field_cons] using boundedText_again hanswer _
  · simpa [field_cons] using (checkCitations_toJson hcitations).2
  · simpa [field_cons] using checkConfidence_float hconfidence
  · simpa [field_cons] using boundedText_again hprovider _
  · simpa [field_cons] using boundedText_again hmodel _
  · simpa [field_cons] using boundedText_again hmodelResponse _
  · simpa [field_cons] using checkUsage_toJson husage
  · simpa [field_cons] using checkLatency_toJson hlatency

end Responses

end QhpcEcosystem
