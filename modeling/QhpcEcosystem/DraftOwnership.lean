/-
The draft of the document on the canvas.  A reply to a save makes its draft the draft of
whatever is on the canvas then, so that a document which was opened in between is saved into
the draft of the one before it.
-/
import QhpcEcosystem.ComposerSession

namespace QhpcEcosystem

/-- The draft that is held is the draft of the document on the canvas. -/
def Composer.HoldsOwnDraft (s : Composer) : Prop :=
  s.draftRef = s.draft ∧ s.draft.map DraftRecord.id = s.owners s.document

/-- Every update of a draft carries the content of a document that was opened from the draft
or saved as it. -/
def Composer.SavesOwnContent (s : Composer) : Prop :=
  ∀ id revision workflow layout, .save (.updateDraft id revision workflow layout) ∈ s.calls →
    ∃ item ∈ s.shown, s.owners item.1 = some id ∧ item.2.translate = .ok (workflow, layout)

/-- A save is answered while its document is on the canvas. -/
def Composer.answersInPlace (s : Composer) (event : ComposerEvent) : Bool :=
  match event, s.savePromise with
  | .reply _, some pending => pending.document = s.document
  | _, _ => true

/-- The draft that a pending save belongs to. -/
def Composer.Belongs (s : Composer) (pending : PendingSave) : Prop :=
  match pending.request with
  | .createDraft _ _ => s.owners pending.document = none
  | .updateDraft id _ _ _ => s.owners pending.document = some id

/-- The documents with their drafts, whatever is pending. -/
structure Composer.Owned (s : Composer) : Prop where
  held : s.draft.map DraftRecord.id = s.owners s.document
  numbered : ∀ item ∈ s.shown, item.1 ≤ s.document
  pendingDocument : ∀ pending, s.savePromise = some pending → pending.document ≤ s.document
  pending : ∀ pending, s.savePromise = some pending → s.Belongs pending
  sent : s.SavesOwnContent

section Owned

variable {s s' : Composer} {event : ComposerEvent}

/-- What a handler keeps of the drafts of documents, the effects keep. -/
theorem Composer.Owned.effects (h : s.Owned) : s.effects.Owned := by
  refine ⟨h.held, fun item hitem => ?_, h.pendingDocument, h.pending,
    fun id revision workflow layout hcall => ?_⟩
  · rcases List.mem_append.mp hitem with hold | hnew
    · exact h.numbered item hold
    · rw [List.mem_singleton.mp hnew]
      exact le_refl _
  · obtain ⟨item, hitem, hitem'⟩ := h.sent id revision workflow layout hcall
    exact ⟨item, List.mem_append_left _ hitem, hitem'⟩

/-- Documents that keep their drafts keep what was saved of them. -/
theorem Composer.SavesOwnContent.mono (h : s.SavesOwnContent) (hshown : s'.shown = s.shown)
    (howners : ∀ item ∈ s.shown, ∀ id, s.owners item.1 = some id → s'.owners item.1 = some id)
    (hcalls : ∀ request, .save request ∈ s'.calls → .save request ∈ s.calls) :
    s'.SavesOwnContent := by
  intro id revision workflow layout hcall
  obtain ⟨item, hitem, howner, htranslate⟩ := h id revision workflow layout (hcalls _ hcall)
  exact ⟨item, hshown ▸ hitem, howners item hitem id howner, htranslate⟩

/-- A handler that keeps the documents and the requests. -/
theorem Composer.Owned.keeps (h : s.Owned) (hkeeps : s.Keeps s')
    (hpending : ∀ pending, s'.savePromise = some pending → ∃ before, s.savePromise = some before ∧
      pending.request = before.request ∧ pending.document = before.document)
    (hcalls : ∀ request, .save request ∈ s'.calls → .save request ∈ s.calls) : s'.Owned := by
  refine ⟨?_, ?_, fun pending hsome => ?_, fun pending hsome => ?_, h.sent.mono hkeeps.shown ?_
    hcalls⟩
  · rw [hkeeps.draft, hkeeps.owners, hkeeps.document]
    exact h.held
  · rw [hkeeps.shown, hkeeps.document]
    exact h.numbered
  · obtain ⟨before, hbefore, -, hdocument⟩ := hpending pending hsome
    rw [hdocument, hkeeps.document]
    exact h.pendingDocument before hbefore
  · obtain ⟨before, hbefore, hrequest, hdocument⟩ := hpending pending hsome
    have hbelongs := h.pending before hbefore
    unfold Composer.Belongs at hbelongs ⊢
    rw [hrequest, hdocument, hkeeps.owners]
    exact hbelongs
  · rw [hkeeps.owners]
    exact fun _ _ _ howner => howner

/-- A document that is opened has a number of its own. -/
theorem Composer.Owned.opened (h : s.Owned) {nextDraft : Option DraftRecord}
    (hdraft : s'.draft = nextDraft) (hdocument : s'.document = s.document + 1)
    (howners : s'.owners =
      Function.update s.owners (s.document + 1) (nextDraft.map DraftRecord.id))
    (hpending : s'.savePromise = s.savePromise) (hcalls : s'.calls = s.calls)
    (hshown : s'.shown = s.shown) : s'.Owned := by
  have hother : ∀ n ≤ s.document, s'.owners n = s.owners n := by
    intro n hn
    rw [howners, Function.update_of_ne (by omega)]
  refine ⟨?_, fun item hitem => ?_, fun pending hsome => ?_, fun pending hsome => ?_,
    h.sent.mono hshown (fun item hitem id howner => ?_) fun request hcall => hcalls ▸ hcall⟩
  · rw [hdraft, hdocument, howners, Function.update_self]
  · rw [hshown] at hitem
    have := h.numbered item hitem
    omega
  · rw [hpending] at hsome
    have := h.pendingDocument pending hsome
    omega
  · rw [hpending] at hsome
    have hbelongs := h.pending pending hsome
    unfold Composer.Belongs at hbelongs ⊢
    rw [hother _ (h.pendingDocument pending hsome)]
    exact hbelongs
  · rw [hother _ (h.numbered item hitem)]
    exact howner

/-- A save asks for the draft of the document on the canvas. -/
theorem Composer.Owned.belongs (h : s.Owned) (hsettled : s.Settled) {request : SaveRequest}
    {pending : PendingSave}
    (hrequest : match s.draftRef with
      | some existing => ∃ workflow layout,
          request = .updateDraft existing.id existing.revision workflow layout
      | none => ∃ workflow layout, request = .createDraft workflow layout)
    (hsent : pending.request = request) (hdocument : pending.document = s.document) :
    s.Belongs pending := by
  have hheld := h.held
  rw [← hsettled.draftRef] at hheld
  unfold Composer.Belongs
  rw [hsent, hdocument]
  cases hdraft : s.draftRef with
  | none =>
      rw [hdraft] at hrequest hheld
      obtain ⟨workflow, layout, rfl⟩ := hrequest
      exact hheld.symm
  | some existing =>
      rw [hdraft] at hrequest hheld
      obtain ⟨workflow, layout, rfl⟩ := hrequest
      exact hheld.symm

/-- A save that starts is of the document on the canvas. -/
theorem Composer.Owned.started (h : s.Owned) (hsettled : s.Settled) {request : SaveRequest}
    {pending : PendingSave} (htranslate : s.latest.content.translate = .ok request.body)
    (hbelongs : s.Belongs pending) (hstarted : s'.savePromise = some pending)
    (hsent : pending.request = request) (hdocument : pending.document = s.document)
    (hkeeps : s.Keeps s') (hcalls : s'.calls = s.calls ++ [.save request]) : s'.Owned := by
  refine ⟨?_, ?_, fun other hsome => ?_, fun other hsome => ?_,
    fun id revision workflow layout hcall => ?_⟩
  · rw [hkeeps.draft, hkeeps.owners, hkeeps.document]
    exact h.held
  · rw [hkeeps.shown, hkeeps.document]
    exact h.numbered
  · obtain rfl := Option.some.inj (hstarted.symm.trans hsome)
    rw [hdocument, hkeeps.document]
  · obtain rfl := Option.some.inj (hstarted.symm.trans hsome)
    unfold Composer.Belongs at hbelongs ⊢
    rw [hkeeps.owners]
    exact hbelongs
  · rw [hcalls] at hcall
    rw [hkeeps.shown, hkeeps.owners]
    rcases List.mem_append.mp hcall with hold | hnew
    · exact h.sent id revision workflow layout hold
    · obtain rfl := ComposerCall.save.inj (List.mem_singleton.mp hnew).symm
      refine ⟨(s.document, s.content), List.mem_of_getElem? hsettled.shown, ?_, ?_⟩
      · unfold Composer.Belongs at hbelongs
        rw [hsent, hdocument] at hbelongs
        exact hbelongs
      · rw [hsettled.latest] at htranslate
        exact htranslate

/-- A save that is answered in place gives the document on the canvas its draft. -/
theorem Composer.Owned.replied (h : s.Owned) {pending : PendingSave} {id : String}
    (hpending : s.savePromise = some pending) (hsame : pending.document = s.document)
    (hended : s'.savePromise = none) (hdraft : s'.draft = some (pending.request.saved id))
    (hdocument : s'.document = s.document)
    (howners : s'.owners = match pending.request with
      | .createDraft _ _ => Function.update s.owners pending.document (some id)
      | .updateDraft _ _ _ _ => s.owners)
    (hcalls : s'.calls = s.calls ++ pending.waiting.map
      fun press => .validate press (pending.request.saved id))
    (hshown : s'.shown = s.shown) : s'.Owned := by
  have hbelongs := h.pending pending hpending
  refine ⟨?_, ?_, fun other hsome => ?_, fun other hsome => ?_, h.sent.mono hshown
    (fun item hitem owner howner => ?_) fun request hcall => ?_⟩
  · rw [hdraft, hdocument, howners, Option.map_some]
    unfold Composer.Belongs at hbelongs
    cases hrequest : pending.request with
    | createDraft workflow layout =>
        rw [← hsame]
        exact (Function.update_self pending.document (some id) s.owners).symm
    | updateDraft draftId revision workflow layout =>
        rw [hrequest, hsame] at hbelongs
        exact hbelongs.symm
  · rw [hshown, hdocument]
    exact h.numbered
  · rw [hended] at hsome
    cases hsome
  · rw [hended] at hsome
    cases hsome
  · unfold Composer.Belongs at hbelongs
    rw [howners]
    cases hrequest : pending.request with
    | createDraft workflow layout =>
        rw [hrequest] at hbelongs
        have hne : item.1 ≠ pending.document := by
          intro heq
          rw [heq, hbelongs] at howner
          cases howner
        exact (Function.update_of_ne hne _ _).trans howner
    | updateDraft draftId revision workflow layout => exact howner
  · rw [hcalls] at hcall
    rcases List.mem_append.mp hcall with hold | hnew
    · exact hold
    · obtain ⟨press, -, hpress⟩ := List.mem_map.mp hnew
      cases hpress

/-- What a handler does to the drafts of the documents. -/
theorem Composer.Owned.handles (h : s.Owned) (hsettled : s.Settled)
    (hinPlace : s.answersInPlace event = true) (hhandles : s.Handles event s') : s'.Owned := by
  cases hhandles with
  | edited hkeeps hpending _ hcalls =>
      exact h.keeps hkeeps (fun pending hsome => ⟨pending, hpending ▸ hsome, rfl, rfl⟩)
        fun request hcall => hcalls ▸ hcall
  | joined before waiting hbefore hjoined _ hkeeps _ hcalls =>
      refine h.keeps hkeeps (fun pending hsome => ⟨before, hbefore, ?_⟩)
        fun request hcall => hcalls ▸ hcall
      obtain rfl := Option.some.inj (hjoined.symm.trans hsome)
      exact ⟨rfl, rfl⟩
  | failed hended hkeeps _ hcalls =>
      refine h.keeps hkeeps (fun pending hsome => ?_) fun request hcall => hcalls ▸ hcall
      rw [hended] at hsome
      cases hsome
  | published act _ hkeeps hpending _ hcalls =>
      refine h.keeps hkeeps (fun pending hsome => ⟨pending, hpending ▸ hsome, rfl, rfl⟩)
        fun request hcall => ?_
      rw [hcalls] at hcall
      rcases List.mem_append.mp hcall with hold | hnew
      · exact hold
      · cases List.mem_singleton.mp hnew
  | opened nextDraft hdraft hdocument howners hpending _ hcalls hshown =>
      exact h.opened hdraft hdocument howners hpending hcalls hshown
  | started request pending _ htranslate hrequest hstarted hsent hdocument _ hkeeps _ hcalls =>
      exact h.started hsettled htranslate (h.belongs hsettled hrequest hsent hdocument) hstarted
        hsent hdocument hkeeps hcalls
  | replied pending id hevent hpending hended hdraft hdocument howners _ hcalls hshown =>
      have hsame : pending.document = s.document := by
        simpa [Composer.answersInPlace, hevent, hpending] using hinPlace
      exact h.replied hpending hsame hended hdraft hdocument howners hcalls hshown

end Owned

open TransitionSystem in
theorem Composer.owned_of_reachable {capabilities : List Capability} {s : Composer}
    (hreach : (composer capabilities).Reachable
      (fun s event => s.answersInPlace event = true) s) : s.Owned := by
  refine hreach.invariant Composer.Owned ?_ ?_
  · rintro s rfl
    refine ⟨rfl, fun item hitem => ?_, nofun, nofun, nofun⟩
    rw [List.mem_singleton.mp hitem]
    exact le_refl _
  · intro s event s' hreach howned hinPlace hstep
    obtain ⟨handled, hhandled, rfl⟩ := Option.map_eq_some_iff.mp hstep
    exact (howned.handles (Composer.settled_of_reachable hreach) hinPlace
      (Composer.handle_cases hhandled)).effects

open TransitionSystem in
/-- When every save is answered while its document is on the canvas, the composer holds the
draft of the document on the canvas, and saves no document into the draft of another. -/
theorem own_draft_saved {capabilities : List Capability} {s : Composer}
    (hreach : (composer capabilities).Reachable
      (fun s event => s.answersInPlace event = true) s) :
    s.HoldsOwnDraft ∧ s.SavesOwnContent := by
  have howned := Composer.owned_of_reachable hreach
  exact ⟨⟨(Composer.settled_of_reachable hreach).draftRef, howned.held⟩, howned.sent⟩

/-! ## A document opened before the reply -/

/-- A draft of the empty workflow under a name. -/
def namedDraft (id name : String) : DraftRecord where
  id := id
  revision := 1
  workflow := { emptyWorkflow with metadata := { emptyWorkflow.metadata with name := name } }
  layout := none

def renamed (name : String) : ComposerEvent :=
  .updateMetadata { emptyWorkflow.metadata with name := name }

def composerAfter (events : List ComposerEvent) : Composer :=
  (composer []).after Composer.answersInPlace (Composer.start []) events

/-- The first draft is edited and saved. -/
def savedInPlace : List ComposerEvent :=
  [.openDraft (namedDraft "draft-a" "A"), renamed "A2", .timer, .reply ""]

theorem own_draft_saved_inPlace :
    (composerAfter savedInPlace).draft.map (fun draft => (draft.id, draft.revision)) =
      some ("draft-a", 2) ∧
    (composerAfter savedInPlace).HoldsOwnDraft ∧ (composerAfter savedInPlace).SavesOwnContent :=
  ⟨by decide, own_draft_saved ((TransitionSystem.Reachable.initial rfl).after savedInPlace)⟩

/-- The second draft is opened while the save of the first is pending. -/
def openedBeforeReply : List ComposerEvent :=
  [.openDraft (namedDraft "draft-a" "A"), renamed "A2", .timer,
    .openDraft (namedDraft "draft-b" "B"), .reply "", renamed "B2", .timer]

def overwritten : Composer :=
  (composer []).after (fun _ _ => true) (Composer.start []) openedBeforeReply

open TransitionSystem in
theorem draft_overwritten : ∃ capabilities s, (composer capabilities).Reachable anyStep s ∧
    ¬ s.HoldsOwnDraft ∧ ¬ s.SavesOwnContent := by
  have hreach : (composer []).Reachable (fun _ _ => true = true) overwritten :=
    (Reachable.initial rfl).after openedBeforeReply
  refine ⟨[], overwritten, hreach.weaken fun _ _ _ => trivial, fun hholds => ?_, fun hsaves => ?_⟩
  · exact absurd hholds.2 (by decide)
  · have hlast : ∃ workflow layout,
        .save (.updateDraft "draft-a" 2 workflow layout) ∈ overwritten.calls ∧
          workflow.metadata.name = "B2" :=
      ⟨_, _, List.mem_cons_of_mem _ (List.mem_singleton_self _), rfl⟩
    obtain ⟨workflow, layout, hcall, hname⟩ := hlast
    obtain ⟨item, hitem, howner, htranslate⟩ := hsaves _ _ _ _ hcall
    have hnames : ∀ item ∈ overwritten.shown, overwritten.owners item.1 = some "draft-a" →
        item.2.metadata.name ≠ "B2" := by decide
    rw [CanvasContent.metadata_of_translate htranslate] at hname
    exact hnames item hitem howner hname

end QhpcEcosystem
