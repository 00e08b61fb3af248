/-
The session of the composer: the document on the canvas, the draft that it is saved to, and
the one save that can be pending.  Every event is a handler followed by the rendering and
its effects, which copy the state that is shown to the references `latest` and `draftRef`.
-/
import QhpcEcosystem.CanvasDocument
import Mathlib.Logic.Function.Basic

namespace QhpcEcosystem

/-! ## Drafts and their requests -/

inductive SaveState where
  | idle
  | dirty
  | saving
  | saved
  | error
deriving DecidableEq, Repr

/-- `WorkflowDraft`, as far as the composer reads it. -/
structure DraftRecord where
  id : String
  revision : Nat
  workflow : WorkflowDocument
  layout : Option DraftLayout

/-- The document on the canvas. -/
structure CanvasContent where
  metadata : WorkflowMetadata
  graph : CanvasGraph
  viewport : Viewport

/-- What is saved of a document. -/
def CanvasContent.translate (content : CanvasContent) :
    Except String (WorkflowDocument × DraftLayout) := do
  let workflow ← canvasToWorkflow content.metadata content.graph.nodes content.graph.edges
  pure (workflow, layoutFromCanvas content.graph.nodes content.viewport)

theorem CanvasContent.metadata_of_translate {content : CanvasContent}
    {workflow : WorkflowDocument} {layout : DraftLayout}
    (h : content.translate = .ok (workflow, layout)) : workflow.metadata = content.metadata := by
  simp only [CanvasContent.translate, bind, Except.bind] at h
  split at h
  · cases h
  · next translated htranslated =>
      cases h
      exact (canvasToWorkflow_ok htranslated).1

inductive SaveRequest where
  | createDraft (workflow : WorkflowDocument) (layout : DraftLayout)
  | updateDraft (id : String) (revision : Nat) (workflow : WorkflowDocument)
      (layout : DraftLayout)

/-- The workflow and the layout that are sent. -/
def SaveRequest.body : SaveRequest → WorkflowDocument × DraftLayout
  | .createDraft workflow layout | .updateDraft _ _ workflow layout => (workflow, layout)

/-- The draft that the server answers with; `id` is the one it draws for a new draft. -/
def SaveRequest.saved (request : SaveRequest) (id : String) : DraftRecord :=
  match request with
  | .createDraft workflow layout => ⟨id, 1, workflow, some layout⟩
  | .updateDraft id revision workflow layout => ⟨id, revision + 1, workflow, some layout⟩

/-! ## State -/

inductive ComposerButton where
  | validate
  | publish
deriving DecidableEq, Repr

/-- A call of `validateDraft` or `publishDraft`: the number of the document on the canvas and
the place of its content in the record of what was shown. -/
structure Press where
  button : ComposerButton
  document : Nat
  place : Nat
deriving DecidableEq, Repr

/-- The save in `savePromise` with the calls that await it.  `document` is the number of the
document that was saved; no handler reads it. -/
structure PendingSave where
  request : SaveRequest
  changeVersion : Nat
  waiting : List Press
  document : Nat

/-- A call that has its saved draft, before the answer to its validation or, for
`publishing`, to its publication. -/
structure Act where
  press : Press
  saved : DraftRecord
  publishing : Bool

/-- The requests of the composer, with the call that they are made for. -/
inductive ComposerCall where
  | save (request : SaveRequest)
  | validate (press : Press) (saved : DraftRecord)
  | publish (press : Press) (saved : DraftRecord)

structure LatestDocument where
  content : CanvasContent
  changeVersion : Nat

/-- The last four fields record the run: the number of the document on the canvas, all that
was shown, the draft of every document, and the requests. -/
structure Composer where
  editor : Editor
  metadata : WorkflowMetadata
  viewport : Viewport
  draft : Option DraftRecord := none
  published : Bool := false
  saveState : SaveState := .idle
  publishing : Bool := false
  changeVersion : Nat := 0
  latest : LatestDocument
  draftRef : Option DraftRecord := none
  savePromise : Option PendingSave := none
  acts : List Act := []
  document : Nat := 0
  shown : List (Nat × CanvasContent)
  owners : Nat → Option String := fun _ => none
  calls : List ComposerCall := []

inductive ComposerEvent where
  | edit (change : CanvasEdit)
  | updateMetadata (metadata : WorkflowMetadata)
  | moveViewport (viewport : Viewport)
  | timer
  | save
  | press (button : ComposerButton)
  | reply (id : String)
  | failure
  | answer (act : Nat) (valid : Option Bool)
  | newWorkflow
  | openTemplate (workflow : WorkflowDocument)
  | openDraft (item : DraftRecord)

/-! ## Handlers -/

namespace Composer

/-- The document that is on the canvas. -/
def content (s : Composer) : CanvasContent := ⟨s.metadata, s.editor.graph, s.viewport⟩

def markChanged (s : Composer) : Composer :=
  { s with
    published := false
    saveState := .dirty
    changeVersion := s.changeVersion + 1 }

def resetDocument (s : Composer) (capabilities : List Capability) (workflow : WorkflowDocument)
    (layout : Option DraftLayout) (nextDraft : Option DraftRecord) : Composer :=
  { s with
    editor := Editor.opened workflow layout capabilities
    metadata := workflow.metadata
    viewport := (workflowToCanvas workflow layout capabilities).viewport
    draft := nextDraft
    published := false
    changeVersion := s.changeVersion + 1
    saveState := if nextDraft.isSome then .saved else .idle
    document := s.document + 1
    owners := Function.update s.owners (s.document + 1) (nextDraft.map DraftRecord.id) }

/-- The calls that awaited a failed save end. -/
def rejected (s : Composer) (presses : List Press) : Composer :=
  { s with
    saveState := if presses = [] then s.saveState else .error
    publishing := s.publishing && presses.all fun press => press.button ≠ .publish }

/-- `saveNow`, awaited by the given calls. -/
def saveNow (s : Composer) (waiting : List Press) : Composer :=
  match s.savePromise with
  | some pending => { s with
      savePromise := some { pending with waiting := pending.waiting ++ waiting } }
  | none =>
      match s.latest.content.translate with
      | .error _ => s.rejected waiting
      | .ok (workflow, layout) =>
          let request := match s.draftRef with
            | some existing => SaveRequest.updateDraft existing.id existing.revision workflow layout
            | none => .createDraft workflow layout
          { s with
            saveState := .saving
            savePromise := some {
              request := request
              changeVersion := s.latest.changeVersion
              waiting := waiting
              document := s.document }
            calls := s.calls ++ [.save request] }

/-- `validateDraft` and `publishDraft` up to the saved draft. -/
def press (s : Composer) (button : ComposerButton) : Composer :=
  if validateCanvas s.editor.graph.nodes s.editor.graph.edges ≠ [] then
    { s with saveState := .error }
  else
    { s with publishing := s.publishing || button = ComposerButton.publish }.saveNow
      [⟨button, s.document, s.shown.length - 1⟩]

/-- Whether a button can be pressed.  `publishDraft` has two buttons: the one of the inspector
can also be pressed during a save and on an empty canvas. -/
def enabled (s : Composer) (button : ComposerButton) : Bool :=
  match button with
  | .validate => s.saveState ≠ .saving
  | .publish => ¬ s.published ∧ ¬ s.publishing

/-- The pending save succeeds, and the calls that awaited it go on to the validation. -/
def reply (s : Composer) (pending : PendingSave) (id : String) : Composer :=
  let saved := pending.request.saved id
  { s with
    draftRef := some saved
    draft := some saved
    saveState := if s.latest.changeVersion = pending.changeVersion then .saved else s.saveState
    savePromise := none
    acts := s.acts ++ pending.waiting.map fun press => ⟨press, saved, false⟩
    owners := match pending.request with
      | .createDraft _ _ => Function.update s.owners pending.document (some id)
      | .updateDraft _ _ _ _ => s.owners
    calls := s.calls ++ pending.waiting.map fun press => .validate press saved }

/-- The answer to the validation or the publication of a call; `none` is an error. -/
def answer (s : Composer) (index : Nat) (act : Act) (valid : Option Bool) : Composer :=
  let ended := { s with acts := s.acts.eraseIdx index }
  if valid ≠ some true then
    { ended with
      saveState := .error
      publishing := s.publishing && act.press.button ≠ .publish }
  else if act.publishing then
    { ended with published := true, saveState := .saved, publishing := false }
  else match act.press.button with
    | .validate => { ended with saveState := .saved }
    | .publish => { s with
        acts := s.acts.set index { act with publishing := true }
        calls := s.calls ++ [.publish act.press act.saved] }

/-- An edit of the canvas.  Only moving nodes and the start of a drag are no change yet. -/
def edit (s : Composer) (capabilities : List Capability) (change : CanvasEdit) :
    Option Composer :=
  let edited := (s.editor.edit capabilities change).map fun editor => { s with editor := editor }
  match change with
  | .moveNodes _ | .dragStart => edited
  | .connect connection _ =>
      if (validateConnection connection s.editor.graph.nodes s.editor.graph.edges).isSome then
        some { s with saveState := .error }
      else edited.map markChanged
  | _ => edited.map markChanged

/-- The handler of an event; `none` when the event cannot happen. -/
def handle (s : Composer) (capabilities : List Capability) : ComposerEvent → Option Composer
  | .edit change => s.edit capabilities change
  | .updateMetadata metadata => some { s with metadata := metadata }.markChanged
  | .moveViewport viewport =>
      if viewport = s.viewport then none else some { s with viewport := viewport }.markChanged
  | .timer => if s.draft.isSome ∧ s.saveState = .dirty then some (s.saveNow []) else none
  | .save => if s.saveState = .saving then none else some (s.saveNow [])
  | .press button => if s.enabled button then some (s.press button) else none
  | .reply id => s.savePromise.map fun pending => s.reply pending id
  | .failure => s.savePromise.map fun pending =>
      { { s with savePromise := none }.rejected pending.waiting with saveState := .error }
  | .answer index valid => s.acts[index]?.map fun act => s.answer index act valid
  | .newWorkflow => some (s.resetDocument capabilities emptyWorkflow none none)
  | .openTemplate workflow => some (s.resetDocument capabilities workflow none none)
  | .openDraft item => some (s.resetDocument capabilities item.workflow item.layout (some item))

/-- The effects after an event. -/
def effects (s : Composer) : Composer :=
  { s with
    latest := ⟨s.content, s.changeVersion⟩
    draftRef := s.draft
    shown := s.shown ++ [(s.document, s.content)] }

/-- The composer as it starts. -/
def start (capabilities : List Capability) : Composer :=
  let content : CanvasContent := {
    metadata := emptyWorkflow.metadata
    graph := (Editor.opened emptyWorkflow none capabilities).graph
    viewport := defaultViewport }
  { editor := Editor.opened emptyWorkflow none capabilities
    metadata := content.metadata
    viewport := content.viewport
    latest := ⟨content, 0⟩
    shown := [(0, content)] }

end Composer

def composer (capabilities : List Capability) : TransitionSystem Composer ComposerEvent where
  Initial s := s = Composer.start capabilities
  step s event := (s.handle capabilities event).map Composer.effects

/-! ## What an event can do -/

/-- The documents and their drafts stay as they are. -/
structure Composer.Keeps (s s' : Composer) : Prop where
  draft : s'.draft = s.draft
  document : s'.document = s.document
  owners : s'.owners = s.owners
  shown : s'.shown = s.shown

/-- A call that is made now, of a canvas without issues. -/
def Composer.PressesNow (s : Composer) (event : ComposerEvent) (press : Press) : Prop :=
  event = .press press.button ∧ validateCanvas s.editor.graph.nodes s.editor.graph.edges = [] ∧
    press.document = s.document ∧ press.place = s.shown.length - 1

/-- What a handler does to the draft, the pending save and the requests. -/
inductive Composer.Handles (s : Composer) (event : ComposerEvent) (s' : Composer) : Prop
  | edited : s.Keeps s' → s'.savePromise = s.savePromise → s'.acts ⊆ s.acts →
      s'.calls = s.calls → Handles s event s'
  | opened (nextDraft : Option DraftRecord) : s'.draft = nextDraft →
      s'.document = s.document + 1 →
      s'.owners = Function.update s.owners (s.document + 1) (nextDraft.map DraftRecord.id) →
      s'.savePromise = s.savePromise → s'.acts = s.acts → s'.calls = s.calls →
      s'.shown = s.shown → Handles s event s'
  | joined (pending : PendingSave) (waiting : List Press) : s.savePromise = some pending →
      s'.savePromise = some { pending with waiting := pending.waiting ++ waiting } →
      (∀ press ∈ waiting, s.PressesNow event press) →
      s.Keeps s' → s'.acts = s.acts → s'.calls = s.calls → Handles s event s'
  | started (request : SaveRequest) (pending : PendingSave) : s.savePromise = none →
      s.latest.content.translate = .ok request.body →
      (match s.draftRef with
        | some existing => ∃ workflow layout,
            request = .updateDraft existing.id existing.revision workflow layout
        | none => ∃ workflow layout, request = .createDraft workflow layout) →
      s'.savePromise = some pending → pending.request = request →
      pending.document = s.document → (∀ press ∈ pending.waiting, s.PressesNow event press) →
      s.Keeps s' → s'.acts = s.acts → s'.calls = s.calls ++ [.save request] → Handles s event s'
  | replied (pending : PendingSave) (id : String) : event = .reply id →
      s.savePromise = some pending → s'.savePromise = none →
      s'.draft = some (pending.request.saved id) → s'.document = s.document →
      (s'.owners = match pending.request with
        | .createDraft _ _ => Function.update s.owners pending.document (some id)
        | .updateDraft _ _ _ _ => s.owners) →
      s'.acts = s.acts ++ pending.waiting.map
        (fun press => ⟨press, pending.request.saved id, false⟩) →
      s'.calls = s.calls ++ pending.waiting.map
        (fun press => .validate press (pending.request.saved id)) →
      s'.shown = s.shown → Handles s event s'
  | failed : s'.savePromise = none → s.Keeps s' → s'.acts = s.acts → s'.calls = s.calls →
      Handles s event s'
  | published (act : Act) : act ∈ s.acts → s.Keeps s' → s'.savePromise = s.savePromise →
      (∀ other ∈ s'.acts, other ∈ s.acts ∨ other = { act with publishing := true }) →
      s'.calls = s.calls ++ [.publish act.press act.saved] → Handles s event s'

section Handlers

variable {capabilities : List Capability} {s s' : Composer} {event : ComposerEvent}

theorem Composer.Handles.rejected (presses : List Press) : s.Handles event (s.rejected presses) :=
  .edited ⟨rfl, rfl, rfl, rfl⟩ rfl (List.Subset.refl _) rfl

theorem Composer.Handles.saveNow {waiting : List Press}
    (hwaiting : ∀ press ∈ waiting, s.PressesNow event press) :
    s.Handles event (s.saveNow waiting) := by
  unfold Composer.saveNow
  split
  · next pending hpending =>
      exact .joined pending waiting hpending rfl hwaiting ⟨rfl, rfl, rfl, rfl⟩ rfl rfl
  · next hnone =>
      split
      · exact .rejected waiting
      · next workflow layout htranslate =>
          cases hdraft : s.draftRef with
          | none =>
              refine .started (.createDraft workflow layout) _ hnone htranslate ?_ rfl rfl rfl
                hwaiting ⟨rfl, rfl, rfl, rfl⟩ rfl rfl
              rw [hdraft]
              exact ⟨workflow, layout, rfl⟩
          | some existing =>
              refine .started (.updateDraft existing.id existing.revision workflow layout) _ hnone
                htranslate ?_ rfl rfl rfl hwaiting ⟨rfl, rfl, rfl, rfl⟩ rfl rfl
              rw [hdraft]
              exact ⟨workflow, layout, rfl⟩

/-- A handler may first mark a publication. -/
theorem Composer.Handles.of_publishing {publishing : Bool}
    (h : Composer.Handles { s with publishing := publishing } event s') : s.Handles event s' := by
  cases h with
  | edited hkeeps hpending hacts hcalls =>
      exact .edited ⟨hkeeps.draft, hkeeps.document, hkeeps.owners, hkeeps.shown⟩ hpending hacts hcalls
  | opened nextDraft hdraft hdocument howners hpending hacts hcalls hshown =>
      exact .opened nextDraft hdraft hdocument howners hpending hacts hcalls hshown
  | joined pending waiting hpending hjoined hwaiting hkeeps hacts hcalls =>
      exact .joined pending waiting hpending hjoined hwaiting
        ⟨hkeeps.draft, hkeeps.document, hkeeps.owners, hkeeps.shown⟩ hacts hcalls
  | started request pending hnone htranslate hrequest hstarted hsent hdocument hwaiting hkeeps
      hacts hcalls =>
      exact .started request pending hnone htranslate hrequest hstarted hsent hdocument hwaiting
        ⟨hkeeps.draft, hkeeps.document, hkeeps.owners, hkeeps.shown⟩ hacts hcalls
  | replied pending id hevent hpending hended hdraft hdocument howners hacts hcalls hshown =>
      exact .replied pending id hevent hpending hended hdraft hdocument howners hacts hcalls hshown
  | failed hended hkeeps hacts hcalls =>
      exact .failed hended ⟨hkeeps.draft, hkeeps.document, hkeeps.owners, hkeeps.shown⟩ hacts hcalls
  | published act hact hkeeps hpending hacts hcalls =>
      exact .published act hact ⟨hkeeps.draft, hkeeps.document, hkeeps.owners, hkeeps.shown⟩
        hpending hacts hcalls

/-- A change of what is shown only. -/
theorem Composer.Handles.unsaved (hkeeps : s.Keeps s') (hpending : s'.savePromise = s.savePromise)
    (hacts : s'.acts = s.acts) (hcalls : s'.calls = s.calls) : s.Handles event s' :=
  .edited hkeeps hpending (hacts ▸ List.Subset.refl _) hcalls

theorem Composer.Handles.edit {change : CanvasEdit} (h : s.edit capabilities change = some s') :
    s.Handles event s' := by
  have hedited : ∀ editor : Editor, s.Handles event { s with editor := editor } :=
    fun editor => .unsaved ⟨rfl, rfl, rfl, rfl⟩ rfl rfl rfl
  have hchanged : ∀ editor : Editor,
      s.Handles event (Composer.markChanged { s with editor := editor }) :=
    fun editor => .unsaved ⟨rfl, rfl, rfl, rfl⟩ rfl rfl rfl
  unfold Composer.edit at h
  simp only at h
  split at h
  · obtain ⟨editor, -, rfl⟩ := Option.map_eq_some_iff.mp h
    exact hedited editor
  · obtain ⟨editor, -, rfl⟩ := Option.map_eq_some_iff.mp h
    exact hedited editor
  · split at h
    · cases h
      exact .unsaved ⟨rfl, rfl, rfl, rfl⟩ rfl rfl rfl
    · obtain ⟨_, hmapped, rfl⟩ := Option.map_eq_some_iff.mp h
      obtain ⟨editor, -, rfl⟩ := Option.map_eq_some_iff.mp hmapped
      exact hchanged editor
  · obtain ⟨_, hmapped, rfl⟩ := Option.map_eq_some_iff.mp h
    obtain ⟨editor, -, rfl⟩ := Option.map_eq_some_iff.mp hmapped
    exact hchanged editor

theorem Composer.Handles.answer {index : Nat} {act : Act} (hact : s.acts[index]? = some act)
    (valid : Option Bool) : s.Handles event (s.answer index act valid) := by
  have hended : s.acts.eraseIdx index ⊆ s.acts := (List.eraseIdx_sublist s.acts index).subset
  unfold Composer.answer
  simp only
  split
  · exact .edited ⟨rfl, rfl, rfl, rfl⟩ rfl hended rfl
  · split
    · exact .edited ⟨rfl, rfl, rfl, rfl⟩ rfl hended rfl
    · split
      · exact .edited ⟨rfl, rfl, rfl, rfl⟩ rfl hended rfl
      · refine .published act (List.mem_of_getElem? hact) ⟨rfl, rfl, rfl, rfl⟩ rfl
          (fun other hother => ?_) rfl
        exact List.mem_or_eq_of_mem_set hother

theorem Composer.Handles.resetDocument (workflow : WorkflowDocument) (layout : Option DraftLayout)
    (nextDraft : Option DraftRecord) :
    s.Handles event (s.resetDocument capabilities workflow layout nextDraft) :=
  .opened nextDraft rfl rfl rfl rfl rfl rfl rfl

/-- What the handler of an event does. -/
theorem Composer.handle_cases (h : s.handle capabilities event = some s') :
    s.Handles event s' := by
  cases event with
  | edit change => exact .edit h
  | updateMetadata metadata =>
      cases h
      exact .unsaved ⟨rfl, rfl, rfl, rfl⟩ rfl rfl rfl
  | moveViewport viewport =>
      simp only [Composer.handle] at h
      split at h <;> cases h
      exact .unsaved ⟨rfl, rfl, rfl, rfl⟩ rfl rfl rfl
  | timer =>
      simp only [Composer.handle] at h
      split at h <;> cases h
      exact .saveNow nofun
  | save =>
      simp only [Composer.handle] at h
      split at h <;> cases h
      exact .saveNow nofun
  | press button =>
      simp only [Composer.handle] at h
      split at h <;> cases h
      unfold Composer.press
      split
      · exact .unsaved ⟨rfl, rfl, rfl, rfl⟩ rfl rfl rfl
      · next hissues =>
          refine .of_publishing (.saveNow fun press hpress => ?_)
          obtain rfl := List.mem_singleton.mp hpress
          exact ⟨rfl, not_not.mp hissues, rfl, rfl⟩
  | reply id =>
      obtain ⟨pending, hpending, rfl⟩ := Option.map_eq_some_iff.mp h
      exact .replied pending id rfl hpending rfl rfl rfl rfl rfl rfl rfl
  | failure =>
      obtain ⟨pending, -, rfl⟩ := Option.map_eq_some_iff.mp h
      exact .failed rfl ⟨rfl, rfl, rfl, rfl⟩ rfl rfl
  | answer index valid =>
      obtain ⟨act, hact, rfl⟩ := Option.map_eq_some_iff.mp h
      exact .answer hact valid
  | newWorkflow =>
      cases h
      exact .resetDocument _ _ _
  | openTemplate workflow =>
      cases h
      exact .resetDocument _ _ _
  | openDraft item =>
      cases h
      exact .resetDocument _ _ _

/-- No handler touches the record of what was shown. -/
theorem Composer.Handles.shown (h : s.Handles event s') : s'.shown = s.shown := by
  cases h with
  | edited hkeeps _ _ _ => exact hkeeps.shown
  | opened _ _ _ _ _ _ _ hshown => exact hshown
  | joined _ _ _ _ _ hkeeps _ _ => exact hkeeps.shown
  | started _ _ _ _ _ _ _ _ _ hkeeps _ _ => exact hkeeps.shown
  | replied _ _ _ _ _ _ _ _ _ _ hshown => exact hshown
  | failed _ hkeeps _ _ => exact hkeeps.shown
  | published _ _ hkeeps _ _ _ => exact hkeeps.shown

end Handlers

/-! ## References and the record -/

/-- Between events the references hold what is shown, and the record ends with it. -/
structure Composer.Settled (s : Composer) : Prop where
  latest : s.latest = ⟨s.content, s.changeVersion⟩
  draftRef : s.draftRef = s.draft
  shown : s.shown[s.shown.length - 1]? = some (s.document, s.content)

theorem Composer.settled_effects (s : Composer) : s.effects.Settled := by
  refine ⟨rfl, rfl, ?_⟩
  simp only [Composer.effects, List.length_append, List.length_singleton, Nat.add_sub_cancel]
  rw [List.getElem?_append_right (le_refl _), Nat.sub_self]
  rfl

open TransitionSystem in
theorem Composer.settled_of_reachable {capabilities : List Capability}
    {guard : Composer → ComposerEvent → Prop} {s : Composer}
    (hreach : (composer capabilities).Reachable guard s) : s.Settled := by
  refine hreach.invariant Composer.Settled ?_ ?_
  · rintro s rfl
    exact ⟨rfl, rfl, rfl⟩
  · intro s event s' _ _ _ hstep
    obtain ⟨handled, -, rfl⟩ := Option.map_eq_some_iff.mp hstep
    exact handled.settled_effects

end QhpcEcosystem
