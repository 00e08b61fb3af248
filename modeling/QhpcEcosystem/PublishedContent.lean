/-
What is validated and published.  A button pressed while a save is pending awaits that save,
so that what goes on to the validation was saved before the press.
-/
import QhpcEcosystem.ClientValidation
import QhpcEcosystem.DraftOwnership

namespace QhpcEcosystem

theorem SaveRequest.saved_body (request : SaveRequest) (id : String) :
    (request.saved id).workflow = request.body.1 ∧
      (request.saved id).layout = some request.body.2 := by
  cases request <;> exact ⟨rfl, rfl⟩

/-- The document of a call had this content when the button was pressed, or later. -/
def Composer.ShowsSince (s : Composer) (press : Press) (body : WorkflowDocument × DraftLayout) :
    Prop :=
  ∃ place content, press.place ≤ place ∧ s.shown[place]? = some (press.document, content) ∧
    content.translate = .ok body

/-- The draft that a call goes on with holds what its document showed since the press. -/
def Composer.Carries (s : Composer) (press : Press) (saved : DraftRecord) : Prop :=
  ∃ layout, saved.layout = some layout ∧ s.ShowsSince press (saved.workflow, layout)

/-- Every draft revision that is validated or published holds what the user saw. -/
def Composer.ActsOnShown (s : Composer) : Prop :=
  ∀ press saved, .validate press saved ∈ s.calls ∨ .publish press saved ∈ s.calls →
    s.Carries press saved

/-- A button that is pressed without issues while a save is pending awaits a save of what is
shown. -/
def Composer.AwaitsShown (s : Composer) (event : ComposerEvent) : Prop :=
  ∀ button pending, event = .press button →
    validateCanvas s.editor.graph.nodes s.editor.graph.edges = [] →
    s.savePromise = some pending → s.content.translate = .ok pending.request.body

/-- What is saved, validated and published for calls, in flight or sent. -/
structure Composer.Current (s : Composer) : Prop where
  waiting : ∀ pending, s.savePromise = some pending → ∀ press ∈ pending.waiting,
    s.ShowsSince press pending.request.body
  acts : ∀ act ∈ s.acts, s.Carries act.press act.saved
  sent : s.ActsOnShown

section Current

variable {s s' : Composer} {event : ComposerEvent} {press : Press}
  {body : WorkflowDocument × DraftLayout} {saved : DraftRecord}

theorem Composer.ShowsSince.append (h : s.ShowsSince press body) (shown : List (Nat × CanvasContent))
    (hshown : s'.shown = s.shown ++ shown) : s'.ShowsSince press body := by
  obtain ⟨place, content, hplace, hsome, htranslate⟩ := h
  refine ⟨place, content, hplace, ?_, htranslate⟩
  rw [hshown, List.getElem?_append_left (List.getElem?_eq_some_iff.mp hsome).1]
  exact hsome

theorem Composer.Carries.append (h : s.Carries press saved) (shown : List (Nat × CanvasContent))
    (hshown : s'.shown = s.shown ++ shown) : s'.Carries press saved := by
  obtain ⟨layout, hlayout, hshows⟩ := h
  exact ⟨layout, hlayout, hshows.append shown hshown⟩

theorem Composer.ShowsSince.carries {request : SaveRequest} (h : s.ShowsSince press request.body)
    (id : String) : s.Carries press (request.saved id) := by
  obtain ⟨hworkflow, hlayout⟩ := request.saved_body id
  refine ⟨request.body.2, hlayout, ?_⟩
  rw [hworkflow]
  exact h

/-- More is shown, and nothing is awaited or sent. -/
theorem Composer.Current.append (h : s.Current) (shown : List (Nat × CanvasContent))
    (hshown : s'.shown = s.shown ++ shown)
    (hpending : ∀ pending, s'.savePromise = some pending → s.savePromise = some pending)
    (hacts : ∀ act ∈ s'.acts, act ∈ s.acts) (hcalls : s'.calls = s.calls) : s'.Current := by
  refine ⟨fun pending hsome press hpress => ?_, fun act hact => ?_, fun press saved hcall => ?_⟩
  · exact (h.waiting pending (hpending pending hsome) press hpress).append shown hshown
  · exact (h.acts act (hacts act hact)).append shown hshown
  · rw [hcalls] at hcall
    exact (h.sent press saved hcall).append shown hshown

/-- The button that is pressed now awaits what is shown now. -/
theorem Composer.PressesNow.showsSince (hpress : s.PressesNow event press) (hsettled : s.Settled)
    (htranslate : s.content.translate = .ok body) : s.ShowsSince press body := by
  obtain ⟨-, -, hdocument, hplace⟩ := hpress
  refine ⟨s.shown.length - 1, s.content, hplace.le, ?_, htranslate⟩
  rw [hdocument]
  exact hsettled.shown

/-- What a handler does to the contents that are awaited and sent. -/
theorem Composer.Current.handles (h : s.Current) (hsettled : s.Settled)
    (hawaits : s.AwaitsShown event) (hhandles : s.Handles event s') : s'.Current := by
  have hshown : s'.shown = s.shown ++ [] := by
    rw [List.append_nil, hhandles.shown]
  cases hhandles with
  | edited _ hpending hacts hcalls =>
      exact h.append [] hshown (fun pending hsome => hpending ▸ hsome)
        (fun act hact => hacts hact) hcalls
  | opened nextDraft _ _ _ hpending hacts hcalls _ =>
      exact h.append [] hshown (fun pending hsome => hpending ▸ hsome)
        (fun act hact => hacts ▸ hact) hcalls
  | failed hended _ hacts hcalls =>
      refine h.append [] hshown (fun pending hsome => ?_) (fun act hact => hacts ▸ hact) hcalls
      rw [hended] at hsome
      cases hsome
  | joined before waiting hbefore hjoined hwaiting _ hacts hcalls =>
      refine ⟨fun pending hsome press hpress => ?_, fun act hact => ?_,
        fun press saved hcall => ?_⟩
      · obtain rfl := Option.some.inj (hjoined.symm.trans hsome)
        rcases List.mem_append.mp hpress with hold | hnew
        · exact (h.waiting before hbefore press hold).append [] hshown
        · have hnow := hwaiting press hnew
          have htranslate := hawaits press.button before hnow.1 hnow.2.1 hbefore
          exact (hnow.showsSince hsettled htranslate).append [] hshown
      · exact (h.acts act (hacts ▸ hact)).append [] hshown
      · exact (h.sent press saved (hcalls ▸ hcall)).append [] hshown
  | started request pending _ htranslate _ hstarted hrequest _ hwaiting _ hacts hcalls =>
      refine ⟨fun other hsome press hpress => ?_, fun act hact => ?_, fun press saved hcall => ?_⟩
      · obtain rfl := Option.some.inj (hstarted.symm.trans hsome)
        rw [hsettled.latest] at htranslate
        rw [hrequest]
        exact ((hwaiting press hpress).showsSince hsettled htranslate).append [] hshown
      · exact (h.acts act (hacts ▸ hact)).append [] hshown
      · have hold : .validate press saved ∈ s.calls ∨ .publish press saved ∈ s.calls := by
          simpa [hcalls] using hcall
        exact (h.sent press saved hold).append [] hshown
  | replied pending id _ hpending hended _ _ _ hacts hcalls _ =>
      -- the presses that awaited the save go on with its draft
      have hcarries : ∀ press ∈ pending.waiting, s'.Carries press (pending.request.saved id) :=
        fun press hpress => ((h.waiting pending hpending press hpress).carries id).append [] hshown
      refine ⟨fun other hsome => ?_, fun act hact => ?_, fun press saved hcall => ?_⟩
      · rw [hended] at hsome
        cases hsome
      · rw [hacts] at hact
        rcases List.mem_append.mp hact with hold | hnew
        · exact (h.acts act hold).append [] hshown
        · obtain ⟨press, hpress, rfl⟩ := List.mem_map.mp hnew
          exact hcarries press hpress
      · have hold : (.validate press saved ∈ s.calls ∨ .publish press saved ∈ s.calls) ∨
            press ∈ pending.waiting ∧ pending.request.saved id = saved := by
          rw [hcalls] at hcall
          simpa [or_right_comm] using hcall
        rcases hold with hold | ⟨hpress, rfl⟩
        · exact (h.sent press saved hold).append [] hshown
        · exact hcarries press hpress
  | published act hact _ hpending hacts hcalls =>
      refine ⟨fun pending hsome press hpress => ?_, fun other hother => ?_,
        fun press saved hcall => ?_⟩
      · exact (h.waiting pending (hpending ▸ hsome) press hpress).append [] hshown
      · rcases hacts other hother with hold | rfl
        · exact (h.acts other hold).append [] hshown
        · exact (h.acts act hact).append [] hshown
      · have hold : (.validate press saved ∈ s.calls ∨ .publish press saved ∈ s.calls) ∨
            press = act.press ∧ saved = act.saved := by
          rw [hcalls] at hcall
          simpa [or_assoc] using hcall
        rcases hold with hold | ⟨rfl, rfl⟩
        · exact (h.sent press saved hold).append [] hshown
        · exact (h.acts act hact).append [] hshown

end Current

open TransitionSystem in
theorem Composer.current_of_reachable {capabilities : List Capability} {s : Composer}
    (hreach : (composer capabilities).Reachable Composer.AwaitsShown s) : s.Current := by
  refine hreach.invariant Composer.Current ?_ ?_
  · rintro s rfl
    exact ⟨nofun, nofun, by simp [Composer.ActsOnShown, Composer.start]⟩
  · intro s event s' hreach hcurrent hawaits hstep
    obtain ⟨handled, hhandled, rfl⟩ := Option.map_eq_some_iff.mp hstep
    exact (hcurrent.handles (Composer.settled_of_reachable hreach) hawaits
      (Composer.handle_cases hhandled)).append _ rfl (fun _ hsome => hsome) (fun _ hact => hact) rfl

open TransitionSystem in
/-- When no button awaits a save of something else, every draft revision that is validated or
published holds the document as it was shown when the button was pressed, or later. -/
theorem shown_document_published {capabilities : List Capability} {s : Composer}
    (hreach : (composer capabilities).Reachable Composer.AwaitsShown s) : s.ActsOnShown :=
  (Composer.current_of_reachable hreach).sent

/-! ## A button pressed while an earlier save is pending -/

def chainDraft : DraftRecord where
  id := "draft-a"
  revision := 1
  workflow := draftedChain "data@1"
  layout := none

def chainComposer (check : Composer → ComposerEvent → Bool) (events : List ComposerEvent) :
    Composer :=
  (composer chainRegistry.capabilities).after check (Composer.start chainRegistry.capabilities)
    events

open TransitionSystem in
theorem chainComposer_reachable (check : Composer → ComposerEvent → Bool)
    (events : List ComposerEvent) : (composer chainRegistry.capabilities).Reachable
      (fun s event => check s event = true) (chainComposer check events) :=
  (Reachable.initial rfl).after events

/-- The publications with the name of what is published. -/
def ComposerCall.published? : ComposerCall → Option (Press × String)
  | .publish press saved => some (press, saved.workflow.metadata.name)
  | _ => none

/-- No button is pressed while a save is pending. -/
def Composer.pressesIdle (s : Composer) : ComposerEvent → Bool
  | .press _ => s.savePromise.isNone
  | _ => true

theorem Composer.awaitsShown_of_pressesIdle {s : Composer} {event : ComposerEvent}
    (h : s.pressesIdle event = true) : s.AwaitsShown event := by
  rintro button pending rfl - hpending
  simp [Composer.pressesIdle, hpending] at h

def publishedIdle : Composer :=
  chainComposer Composer.pressesIdle
    [.openDraft chainDraft, renamed "X", .press .publish, .reply "", .answer 0 (some true)]

theorem shown_document_published_idle :
    publishedIdle.calls.filterMap ComposerCall.published? = [(⟨.publish, 1, 2⟩, "X")] ∧
     publishedIdle.ActsOnShown :=
  ⟨by decide, shown_document_published ((chainComposer_reachable Composer.pressesIdle _).weaken
    fun _ _ => Composer.awaitsShown_of_pressesIdle)⟩

/-- The workflow is renamed twice, with a save between. -/
def publishedStale : Composer :=
  chainComposer (fun _ _ => true)
    [.openDraft chainDraft, renamed "X", .timer, renamed "Y", .press .publish, .reply "",
      .answer 0 (some true)]

open TransitionSystem in
/-- The name that is published is not the one on the screen when the button was pressed. -/
theorem stale_document_published : ∃ capabilities s,
    (composer capabilities).Reachable anyStep s ∧ ¬ s.ActsOnShown := by
  refine ⟨chainRegistry.capabilities, publishedStale,
    (chainComposer_reachable (fun _ _ => true) _).weaken fun _ _ _ => trivial, fun hshown => ?_⟩
  have hpublished : (⟨.publish, 1, 4⟩, "X") ∈
      publishedStale.calls.filterMap ComposerCall.published? := by decide
  obtain ⟨call, hcall, hcalled⟩ := List.mem_filterMap.mp hpublished
  cases call with
  | save request => cases hcalled
  | validate press saved => cases hcalled
  | publish press saved =>
  obtain ⟨rfl, hname⟩ := Prod.mk.inj (Option.some.inj hcalled)
  obtain ⟨layout, -, place, content, hplace, hsome, htranslate⟩ := hshown _ _ (.inr hcall)
  have hnames : ∀ item ∈ publishedStale.shown.drop 4, item.2.metadata.name = "Y" := by decide
  have hsince : (1, content) ∈ publishedStale.shown.drop 4 := by
    refine List.mem_of_getElem? (i := place - 4) ?_
    rw [List.getElem?_drop, Nat.add_sub_cancel' hplace]
    exact hsome
  rw [CanvasContent.metadata_of_translate htranslate, hnames _ hsince] at hname
  exact absurd hname (by decide)

end QhpcEcosystem
