/-
The order of the update records.  A call keeps the records of the components that it is
not for; the recorded check of a component is the latest that was written, and never goes
back, as long as observations are written in the order in which they started.
-/
import QhpcEcosystem.RepositoryUpdates

namespace QhpcEcosystem

/-- The recorded check of a component is one that was written for it, and none that was
written for it is later. -/
structure UpdateStore.ShowsLatest (s : UpdateStore) : Prop where
  recorded : ∀ component record, s.checks.row? component = some (component, record) →
    ∃ entry ∈ s.written, entry.component = component ∧ entry.checkedAt = record.checkedAt
  latest : ∀ entry ∈ s.written, ∃ record,
    s.checks.row? entry.component = some (entry.component, record) ∧
      entry.checkedAt ≤ record.checkedAt

/-- Every component that has a recorded check keeps one, no older. -/
def UpdateStore.Forward (s s' : UpdateStore) : Prop :=
  ∀ component record, s.checks.row? component = some (component, record) → ∃ record',
    s'.checks.row? component = some (component, record') ∧ record.checkedAt ≤ record'.checkedAt

/-- The components that an event is for. -/
def UpdateStore.touched (s : UpdateStore) : UpdateEvent → List String
  | .write id => ((s.calls id).map UpdateCall.components).getD []
  | _ => []

/-- The clock does not go back, and no observation is written after one of the same component
that started later. -/
def UpdateStore.inOrder (s : UpdateStore) : UpdateEvent → Bool
  | .tick now => s.clock ≤ now
  | .write id => ((s.calls id).map UpdateCall.slots).getD [] |>.all fun slot =>
      slot.observation.all fun observation => s.written.all fun entry =>
        entry.component ≠ slot.target.componentId || entry.number ≤ observation.number
  | _ => true

/-! ## Slots -/

section Slots

variable {call : UpdateCall} {index : Nat} {f : ObservedTarget → ObservedTarget}

theorem UpdateCall.mem_modify {slot : ObservedTarget} (h : slot ∈ (call.modify index f).slots) :
    slot ∈ call.slots ∨ ∃ old, call.slots[index]? = some old ∧ slot = f old := by
  cases call with
  | check slots =>
      obtain ⟨place, hplace⟩ := List.getElem?_of_mem h
      simp only [UpdateCall.modify, UpdateCall.slots, List.getElem?_modify] at hplace
      obtain ⟨old, hold, heq⟩ := Option.map_eq_some_iff.mp hplace
      by_cases hindex : index = place
      · subst hindex
        exact .inr ⟨old, hold, by simpa using heq.symm⟩
      · rw [if_neg hindex] at heq
        exact .inl (heq ▸ List.mem_of_getElem? hold)
  | stage old candidateRevision staged =>
      obtain rfl := List.mem_singleton.mp h
      by_cases hindex : index = 0
      · subst hindex
        exact .inr ⟨old, rfl, if_pos rfl⟩
      · rw [if_neg hindex]
        exact .inl (List.mem_singleton_self old)
  | discard target => cases h

theorem UpdateCall.components_modify (hf : ∀ slot, (f slot).target = slot.target) :
    ((call.modify index f).slots.map fun slot => slot.target.componentId) =
      call.slots.map fun slot => slot.target.componentId := by
  cases call with
  | check slots =>
      refine List.ext_getElem? fun place => ?_
      simp only [UpdateCall.modify, UpdateCall.slots, List.getElem?_map, List.getElem?_modify]
      cases slots[place]? with
      | none => rfl
      | some slot =>
          by_cases hindex : index = place
          · simp [hindex, hf]
          · simp [hindex]
  | stage old candidateRevision staged =>
      simp only [UpdateCall.modify, UpdateCall.slots, List.map_cons, List.map_nil]
      split
      · rw [hf]
      · rfl
  | discard target => rfl

end Slots

/-! ## Writes -/

section Writes

variable {slots : List ObservedTarget} {records : List (String × CheckRecord)}

theorem ObservedTarget.record?_eq_some {slot : ObservedTarget} {record : String × CheckRecord}
    (h : slot.record? = some record) : ∃ observation latest, slot.observation = some observation ∧
      record = (slot.target.componentId, slot.target.checkRecord observation.checkedAt latest) := by
  unfold ObservedTarget.record? at h
  split at h
  · next number checkedAt latest hobservation =>
      exact ⟨_, latest, hobservation, (Option.some.inj h).symm⟩
  · cases h

theorem forall₂_of_mapM (h : slots.mapM ObservedTarget.record? = some records) :
    List.Forall₂ (fun slot record => slot.record? = some record) slots records := by
  induction slots generalizing records with
  | nil =>
      cases h
      exact .nil
  | cons slot rest ih =>
      rw [List.mapM_cons] at h
      obtain ⟨record, hrecord, h⟩ := Option.bind_eq_some_iff.mp h
      obtain ⟨others, hothers, h⟩ := Option.bind_eq_some_iff.mp h
      cases h
      exact .cons hrecord (ih hothers)

theorem keys_of_forall₂
    (h : List.Forall₂ (fun slot record => ObservedTarget.record? slot = some record) slots records) :
    records.map Prod.fst = slots.map fun slot => slot.target.componentId := by
  induction h with
  | nil => rfl
  | cons hrecord _ ih =>
      obtain ⟨_, _, -, rfl⟩ := ObservedTarget.record?_eq_some hrecord
      rw [List.map_cons, List.map_cons, ih]

/-- The check of a component after a write. -/
theorem UpdateStore.row?_writeChecks (s : UpdateStore)
    (hrecords : slots.mapM ObservedTarget.record? = some records)
    (hnodup : (slots.map fun slot => slot.target.componentId).Nodup) (component : String) :
    (∃ slot ∈ slots, slot.target.componentId = component ∧ ∃ observation latest,
      slot.observation = some observation ∧
      (s.writeChecks slots records).checks.row? component =
        some (component, slot.target.checkRecord observation.checkedAt latest)) ∨
    (component ∉ slots.map fun slot => slot.target.componentId) ∧
      (s.writeChecks slots records).checks.row? component = s.checks.row? component := by
  have hforall := forall₂_of_mapM hrecords
  have hkeys := keys_of_forall₂ hforall
  rw [← hkeys] at hnodup
  have hrow : (s.writeChecks slots records).checks.row? component =
      (records.find? fun record => decide (record.1 = component)).or (s.checks.row? component) :=
    Table.row?_foldl_set records hnodup s.checks component
  rw [hrow]
  by_cases hmem : component ∈ slots.map fun slot => slot.target.componentId
  · obtain ⟨slot, hslot, rfl⟩ := List.mem_map.mp hmem
    obtain ⟨place, hplace⟩ := List.getElem?_of_mem hslot
    obtain ⟨hlt, hget⟩ := List.getElem?_eq_some_iff.mp hplace
    have hrecord := hforall.get hlt (hforall.length_eq ▸ hlt)
    rw [List.get_eq_getElem, hget] at hrecord
    obtain ⟨observation, latest, hobservation, heq⟩ := ObservedTarget.record?_eq_some hrecord
    refine .inl ⟨slot, hslot, rfl, observation, latest, hobservation, ?_⟩
    have hfound : records.find? (fun record => decide (record.1 = slot.target.componentId)) =
        some (slot.target.componentId,
          slot.target.checkRecord observation.checkedAt latest) := by
      refine find?_eq_some_of_unique (heq ▸ List.get_mem _ _) (by simp) fun other hother hkey => ?_
      exact List.inj_on_of_nodup_map hnodup hother (heq ▸ List.get_mem _ _)
        (of_decide_eq_true hkey)
    rw [hfound]
    rfl
  · refine .inr ⟨hmem, ?_⟩
    have hnone : records.find? (fun record => decide (record.1 = component)) = none := by
      rw [List.find?_eq_none]
      intro record hrecord hkey
      rw [← hkeys] at hmem
      exact hmem (List.mem_map.mpr ⟨record, hrecord, of_decide_eq_true hkey⟩)
    rw [hnone]
    rfl

end Writes

/-! ## The order of observations -/

/-- Observations that started later were not made earlier, and what is written and recorded
are observations. -/
structure UpdateStore.Timed (s : UpdateStore) : Prop where
  sorted : s.times.Pairwise (· ≤ ·)
  clock : ∀ time ∈ s.times, time ≤ s.clock
  observed : ∀ id call, s.calls id = some call → ∀ slot ∈ call.slots, ∀ observation,
    slot.observation = some observation →
      s.times[observation.number]? = some observation.checkedAt
  nodup : ∀ id call, s.calls id = some call →
    (call.slots.map fun slot => slot.target.componentId).Nodup
  written : ∀ entry ∈ s.written, s.times[entry.number]? = some entry.checkedAt
  shows : s.ShowsLatest

section Timed

variable {s s' : UpdateStore} {id : Nat}

/-- An observation that did not start before another was not made before it. -/
theorem UpdateStore.Timed.checkedAt_le (h : s.Timed) {number number' checkedAt checkedAt' : Nat}
    (hle : number ≤ number') (hold : s.times[number]? = some checkedAt)
    (hnew : s.times[number']? = some checkedAt') : checkedAt ≤ checkedAt' := by
  obtain ⟨hlt, rfl⟩ := List.getElem?_eq_some_iff.mp hold
  obtain ⟨hlt', rfl⟩ := List.getElem?_eq_some_iff.mp hnew
  rcases hle.lt_or_eq with hless | rfl
  · exact List.pairwise_iff_getElem.mp h.sorted number number' hlt hlt' hless
  · exact le_refl _

/-- A step that changes only calls: each slot afterwards is one from before. -/
theorem UpdateStore.Timed.setCall (h : s.Timed) (call : Option UpdateCall)
    (hobserved : ∀ new, call = some new → ∀ slot ∈ new.slots, ∀ observation,
      slot.observation = some observation →
        s.times[observation.number]? = some observation.checkedAt)
    (hnodup : ∀ new, call = some new →
      (new.slots.map fun slot => slot.target.componentId).Nodup) :
    (s.setCall id call).Timed := by
  refine ⟨h.sorted, h.clock, fun other new hnew => ?_, fun other new hnew => ?_, h.written,
    ⟨h.shows.recorded, h.shows.latest⟩⟩
  · rw [setCall_calls] at hnew
    split at hnew
    · exact hobserved new hnew
    · exact h.observed other new hnew
  · rw [setCall_calls] at hnew
    split at hnew
    · exact hnodup new hnew
    · exact h.nodup other new hnew

theorem UpdateStore.Timed.endCall (h : s.Timed) : (s.setCall id none).Timed :=
  h.setCall none nofun nofun

/-- A change of one slot that keeps its target. -/
theorem UpdateStore.Timed.modify (h : s.Timed) {call : UpdateCall} (hcall : s.calls id = some call)
    {index : Nat} {f : ObservedTarget → ObservedTarget}
    (hf : ∀ slot, (f slot).target = slot.target)
    (hobserved : ∀ slot, call.slots[index]? = some slot → ∀ observation,
      (f slot).observation = some observation →
        s.times[observation.number]? = some observation.checkedAt) :
    (s.setCall id (some (call.modify index f))).Timed := by
  refine h.setCall _ (fun new hnew slot hslot observation hobservation => ?_) fun new hnew => ?_
  · obtain rfl := Option.some.inj hnew
    rcases UpdateCall.mem_modify hslot with hold | ⟨old, hold, rfl⟩
    · exact h.observed id call hcall slot hold observation hobservation
    · exact hobserved old hold observation hobservation
  · obtain rfl := Option.some.inj hnew
    rw [UpdateCall.components_modify hf]
    exact h.nodup id call hcall

/-- An instant is added to the record of observations. -/
theorem UpdateStore.Timed.addTime (h : s.Timed) :
    { s with times := s.times ++ [s.clock] }.Timed := by
  have hkept : ∀ {number checkedAt : Nat}, s.times[number]? = some checkedAt →
      (s.times ++ [s.clock])[number]? = some checkedAt := by
    intro number checkedAt hsome
    rw [List.getElem?_append_left (List.getElem?_eq_some_iff.mp hsome).1]
    exact hsome
  refine ⟨?_, fun time htime => ?_, fun id call hcall slot hslot observation hobservation =>
    hkept (h.observed id call hcall slot hslot observation hobservation), h.nodup,
    fun entry hentry => hkept (h.written entry hentry),
    ⟨h.shows.recorded, h.shows.latest⟩⟩
  · refine List.pairwise_append.mpr
      ⟨h.sorted, List.pairwise_singleton _ _, fun time htime now hnow => ?_⟩
    rw [List.mem_singleton.mp hnow]
    exact h.clock time htime
  · rcases List.mem_append.mp htime with hold | hnew
    · exact h.clock time hold
    · exact (List.mem_singleton.mp hnew).le

/-- The checks that a call writes are the latest of their components. -/
theorem UpdateStore.Timed.writeChecks (h : s.Timed) {slots : List ObservedTarget}
    {records : List (String × CheckRecord)}
    (hrecords : slots.mapM ObservedTarget.record? = some records)
    (hnodup : (slots.map fun slot => slot.target.componentId).Nodup)
    (hobserved : ∀ slot ∈ slots, ∀ observation, slot.observation = some observation →
      s.times[observation.number]? = some observation.checkedAt)
    (horder : ∀ slot ∈ slots, ∀ observation, slot.observation = some observation →
      ∀ entry ∈ s.written, entry.component = slot.target.componentId →
        entry.number ≤ observation.number) :
    (s.writeChecks slots records).Timed ∧ s.Forward (s.writeChecks slots records) := by
  have hrow := s.row?_writeChecks hrecords hnodup
  have hnew : ∀ slot ∈ slots, ∀ observation, slot.observation = some observation →
      ⟨slot.target.componentId, observation.number, observation.checkedAt⟩ ∈
        (s.writeChecks slots records).written := by
    intro slot hslot observation hobservation
    refine List.mem_append_right _ (List.mem_filterMap.mpr ⟨slot, hslot, ?_⟩)
    rw [hobservation]
    rfl
  have hlatest : ∀ entry ∈ s.written, ∃ record,
      (s.writeChecks slots records).checks.row? entry.component = some (entry.component, record) ∧
        entry.checkedAt ≤ record.checkedAt := by
    intro entry hentry
    rcases hrow entry.component with
      ⟨slot, hslot, hcomponent, observation, latest, hobservation, hfound⟩ | ⟨-, hsame⟩
    · refine ⟨_, hfound, ?_⟩
      exact h.checkedAt_le (horder slot hslot observation hobservation entry hentry hcomponent.symm)
        (h.written entry hentry) (hobserved slot hslot observation hobservation)
    · rw [hsame]
      exact h.shows.latest entry hentry
  have hentries : ∀ entry ∈ (s.writeChecks slots records).written, entry ∈ s.written ∨
      ∃ slot ∈ slots, ∃ observation, slot.observation = some observation ∧
        entry = ⟨slot.target.componentId, observation.number, observation.checkedAt⟩ := by
    intro entry hentry
    rcases List.mem_append.mp hentry with hold | hadded
    · exact .inl hold
    · obtain ⟨slot, hslot, hmap⟩ := List.mem_filterMap.mp hadded
      obtain ⟨observation, hobservation, rfl⟩ := Option.map_eq_some_iff.mp hmap
      exact .inr ⟨slot, hslot, observation, hobservation, rfl⟩
  refine ⟨⟨h.sorted, h.clock, h.observed, h.nodup, fun entry hentry => ?_,
    ⟨fun component record hrecord => ?_, fun entry hentry => ?_⟩⟩,
    fun component record hrecord => ?_⟩
  · rcases hentries entry hentry with hold | ⟨slot, hslot, observation, hobservation, rfl⟩
    · exact h.written entry hold
    · exact hobserved slot hslot observation hobservation
  · rcases hrow component with
      ⟨slot, hslot, rfl, observation, latest, hobservation, hfound⟩ | ⟨-, hsame⟩
    · rw [hfound] at hrecord
      obtain rfl := (Prod.mk.inj (Option.some.inj hrecord)).2
      exact ⟨_, hnew slot hslot observation hobservation, rfl, rfl⟩
    · rw [hsame] at hrecord
      obtain ⟨entry, hentry, hentry'⟩ := h.shows.recorded component record hrecord
      exact ⟨entry, List.mem_append_left _ hentry, hentry'⟩
  · rcases hentries entry hentry with hold | ⟨slot, hslot, observation, hobservation, rfl⟩
    · exact hlatest entry hold
    · rcases hrow slot.target.componentId with
        ⟨other, hother, hcomponent, observation', latest, hobservation', hfound⟩ | ⟨hfresh, -⟩
      · obtain rfl := List.inj_on_of_nodup_map hnodup hother hslot hcomponent
        obtain rfl := Option.some.inj (hobservation'.symm.trans hobservation)
        exact ⟨_, hfound, le_refl _⟩
      · exact absurd (List.mem_map_of_mem hslot) hfresh
  · obtain ⟨entry, hentry, rfl, hcheckedAt⟩ := h.shows.recorded component record hrecord
    rw [← hcheckedAt]
    exact hlatest entry hentry

theorem UpdateStore.Timed.setStaged (h : s.Timed) (staged : Dict String StagedRecord) :
    { s with staged := staged }.Timed :=
  ⟨h.sorted, h.clock, h.observed, h.nodup, h.written, ⟨h.shows.recorded, h.shows.latest⟩⟩

/-- A call starts without observations. -/
theorem UpdateRequest.call?_slots {request : UpdateRequest} {call : UpdateCall}
    (h : request.call? = some call) : (∀ slot ∈ call.slots, slot.observation = none) ∧
      (call.slots.map fun slot => slot.target.componentId).Nodup := by
  cases request with
  | check selected =>
      simp only [UpdateRequest.call?] at h
      split at h
      · next hnodup =>
          cases h
          refine ⟨fun slot hslot => ?_, ?_⟩
          · obtain ⟨target, -, rfl⟩ := List.mem_map.mp hslot
            rfl
          · rw [UpdateCall.slots, List.map_map]
            exact hnodup
      · cases h
  | stage target candidateRevision =>
      cases h
      exact ⟨fun slot hslot => by rw [List.mem_singleton.mp hslot], List.nodup_singleton _⟩
  | discard target =>
      cases h
      exact ⟨nofun, List.nodup_nil⟩

/-- The checks of a call in flight that are written in order. -/
theorem UpdateStore.Timed.writeCall (h : s.Timed) {call : UpdateCall}
    (hcall : s.calls id = some call) (horder : s.inOrder (.write id) = true)
    {records : List (String × CheckRecord)}
    (hrecords : call.slots.mapM ObservedTarget.record? = some records) :
    ((s.writeChecks call.slots records).setCall id none).Timed ∧
      s.Forward (s.writeChecks call.slots records) := by
  have hinOrder : ∀ slot ∈ call.slots, ∀ observation, slot.observation = some observation →
      ∀ entry ∈ s.written, entry.component = slot.target.componentId →
        entry.number ≤ observation.number := by
    intro slot hslot observation hobservation entry hentry hcomponent
    simp only [UpdateStore.inOrder, hcall, Option.map_some, Option.getD_some, List.all_eq_true]
      at horder
    have hslots := horder slot hslot
    rw [hobservation, Option.all_some, List.all_eq_true] at hslots
    simpa [hcomponent] using hslots entry hentry
  obtain ⟨htimed, hforward⟩ := h.writeChecks hrecords (h.nodup id call hcall)
    (h.observed id call hcall) hinOrder
  exact ⟨htimed.endCall, hforward⟩

/-- What a step with every observation in order keeps. -/
theorem UpdateStore.Timed.step (h : s.Timed) {event : UpdateEvent}
    (horder : s.inOrder event = true) (hstep : s.step event = some s') :
    s'.Timed ∧ s.Forward s' := by
  have hkept : ∀ {s' : UpdateStore}, s'.checks = s.checks → s.Forward s' :=
    fun hchecks component record hrecord => ⟨record, by rw [hchecks, hrecord], le_refl _⟩
  cases event with
  | tick now =>
      cases hstep
      have hnow : s.clock ≤ now := of_decide_eq_true horder
      exact ⟨⟨h.sorted, fun time htime => (h.clock time htime).trans hnow, h.observed, h.nodup,
        h.written, ⟨h.shows.recorded, h.shows.latest⟩⟩, hkept rfl⟩
  | start id request =>
      simp only [UpdateStore.step] at hstep
      split at hstep
      · cases hstep
      · obtain ⟨call, hcall, rfl⟩ := Option.map_eq_some_iff.mp hstep
        obtain ⟨hnone, hnodup⟩ := UpdateRequest.call?_slots hcall
        refine ⟨h.setCall _ (fun new hnew slot hslot observation hobservation => ?_)
          (fun new hnew => Option.some.inj hnew ▸ hnodup), hkept rfl⟩
        obtain rfl := Option.some.inj hnew
        rw [hnone slot hslot] at hobservation
        cases hobservation
  | observe id index =>
      obtain ⟨call, hcall, hstep⟩ := Option.bind_eq_some_iff.mp hstep
      unfold UpdateStore.observe at hstep
      split at hstep
      · next target hslot =>
          cases hstep
          refine ⟨?_, hkept rfl⟩
          refine UpdateStore.Timed.modify (s := { s with times := s.times ++ [s.clock] }) h.addTime
            hcall (fun _ => rfl) fun slot _ observation hobservation => ?_
          cases hobservation
          simp
      · cases hstep
  | observed id index latest =>
      obtain ⟨call, hcall, hstep⟩ := Option.bind_eq_some_iff.mp hstep
      unfold UpdateStore.observed at hstep
      split at hstep
      · next target number checkedAt hslot =>
          cases hstep
          refine ⟨h.modify hcall (fun _ => rfl) fun slot hfound observation hobservation => ?_,
            hkept rfl⟩
          obtain ⟨old, hold, rfl⟩ := Option.map_eq_some_iff.mp hobservation
          exact h.observed id call hcall slot (List.mem_of_getElem? hfound) old hold
      · cases hstep
  | prepared id checkout =>
      obtain ⟨call, hcall, hstep⟩ := Option.bind_eq_some_iff.mp hstep
      unfold UpdateStore.prepared at hstep
      split at hstep
      · split at hstep
        · obtain ⟨candidate, -, rfl⟩ := Option.map_eq_some_iff.mp hstep
          -- the slot is the one from before
          have hobserved := h.observed id _ hcall
          have hnodup := h.nodup id _ hcall
          refine ⟨h.setCall _ (fun new hnew => ?_) (fun new hnew => ?_), hkept rfl⟩
          · obtain rfl := Option.some.inj hnew
            exact hobserved
          · obtain rfl := Option.some.inj hnew
            exact hnodup
        · cases hstep
      · cases hstep
  | write id =>
      obtain ⟨call, hcall, hstep⟩ := Option.bind_eq_some_iff.mp hstep
      unfold UpdateStore.write at hstep
      split at hstep
      · next slots =>
          obtain ⟨records, hrecords, rfl⟩ := Option.map_eq_some_iff.mp hstep
          exact h.writeCall hcall horder hrecords
      · next slot candidateRevision staged =>
          obtain ⟨record, hrecord, rfl⟩ := Option.map_eq_some_iff.mp hstep
          have hrecords : [slot].mapM ObservedTarget.record? = some [record] := by
            rw [List.mapM_cons, hrecord]
            rfl
          obtain ⟨htimed, hforward⟩ := h.writeCall hcall horder hrecords
          exact ⟨htimed.setStaged _, hforward⟩
      · cases hstep
      · next target =>
          cases hstep
          exact ⟨h.endCall.setStaged _, hkept rfl⟩
  | fail id =>
      obtain ⟨call, -, rfl⟩ := Option.map_eq_some_iff.mp hstep
      exact ⟨h.endCall, hkept rfl⟩

end Timed

/-! ## Other components -/

section Frame

variable {s s' : UpdateStore}

theorem row?_foldl_set_of_notMem {records : List (String × CheckRecord)}
    (checks : Dict String CheckRecord) {component : String}
    (h : component ∉ records.map Prod.fst) :
    (records.foldl Table.set checks).row? component = checks.row? component := by
  induction records generalizing checks with
  | nil => rfl
  | cons record rest ih =>
      rw [List.map_cons, List.mem_cons, not_or] at h
      rw [List.foldl_cons, ih _ h.2, Table.row?_set, if_neg fun hkey => h.1 hkey.symm]

/-- A step keeps the records of the components that its call is not for. -/
theorem UpdateStore.step_frame {event : UpdateEvent} (hstep : s.step event = some s')
    {component : String} (h : component ∉ s.touched event) :
    s'.checks.row? component = s.checks.row? component ∧
      s'.staged.row? component = s.staged.row? component := by
  cases event with
  | tick now =>
      cases hstep
      exact ⟨rfl, rfl⟩
  | start id request =>
      simp only [UpdateStore.step] at hstep
      split at hstep
      · cases hstep
      · obtain ⟨call, -, rfl⟩ := Option.map_eq_some_iff.mp hstep
        exact ⟨rfl, rfl⟩
  | observe id index =>
      obtain ⟨call, -, hstep⟩ := Option.bind_eq_some_iff.mp hstep
      unfold UpdateStore.observe at hstep
      split at hstep <;> cases hstep
      exact ⟨rfl, rfl⟩
  | observed id index latest =>
      obtain ⟨call, -, hstep⟩ := Option.bind_eq_some_iff.mp hstep
      unfold UpdateStore.observed at hstep
      split at hstep <;> cases hstep
      exact ⟨rfl, rfl⟩
  | prepared id checkout =>
      obtain ⟨call, -, hstep⟩ := Option.bind_eq_some_iff.mp hstep
      unfold UpdateStore.prepared at hstep
      split at hstep
      · split at hstep
        · obtain ⟨candidate, -, rfl⟩ := Option.map_eq_some_iff.mp hstep
          exact ⟨rfl, rfl⟩
        · cases hstep
      · cases hstep
  | write id =>
      obtain ⟨call, hcall, hstep⟩ := Option.bind_eq_some_iff.mp hstep
      simp only [UpdateStore.touched, hcall, Option.map_some, Option.getD_some] at h
      unfold UpdateStore.write at hstep
      split at hstep
      · next slots =>
          obtain ⟨records, hrecords, rfl⟩ := Option.map_eq_some_iff.mp hstep
          have hkeys := keys_of_forall₂ (forall₂_of_mapM hrecords)
          exact ⟨row?_foldl_set_of_notMem s.checks (hkeys ▸ h), rfl⟩
      · next slot candidateRevision staged =>
          obtain ⟨record, hrecord, rfl⟩ := Option.map_eq_some_iff.mp hstep
          obtain ⟨_, _, -, rfl⟩ := ObservedTarget.record?_eq_some hrecord
          refine ⟨row?_foldl_set_of_notMem s.checks h, ?_⟩
          exact (Table.row?_set _ _ _).trans
            (if_neg fun hkey => h (List.mem_singleton.mpr hkey.symm))
      · cases hstep
      · next target =>
          cases hstep
          exact ⟨rfl, (Table.row?_remove _ _ _).trans
            (if_neg fun hkey => h (List.mem_singleton.mpr hkey))⟩
  | fail id =>
      obtain ⟨call, -, rfl⟩ := Option.map_eq_some_iff.mp hstep
      exact ⟨rfl, rfl⟩

end Frame

/-! ## Runs -/

theorem UpdateStore.Forward.refl (s : UpdateStore) : s.Forward s :=
  fun _ record hrecord => ⟨record, hrecord, le_refl _⟩

theorem UpdateStore.Forward.trans {s s' s'' : UpdateStore} (h : s.Forward s')
    (h' : s'.Forward s'') : s.Forward s'' := by
  intro component record hrecord
  obtain ⟨record', hrecord', hle⟩ := h component record hrecord
  obtain ⟨record'', hrecord'', hle'⟩ := h' component record' hrecord'
  exact ⟨record'', hrecord'', hle.trans hle'⟩

open TransitionSystem in
theorem timed_of_reachable {s : UpdateStore}
    (hreach : repositoryUpdates.Reachable (fun s event => s.inOrder event = true) s) : s.Timed := by
  refine hreach.invariant UpdateStore.Timed ?_ ?_
  · rintro s rfl
    exact ⟨.nil, nofun, nofun, nofun, nofun, ⟨nofun, nofun⟩⟩
  · intro s event s' _ htimed horder hstep
    exact (htimed.step horder hstep).1

open TransitionSystem in
/-- In a run with every observation in order, a recorded check never goes back and is the
latest that was written; and in every run, a call keeps the records of other components. -/
theorem update_records_forward {s s' : UpdateStore}
    (hreach : repositoryUpdates.Reachable (fun s event => s.inOrder event = true) s)
    (hleads : repositoryUpdates.Leads (fun s event => s.inOrder event = true) s s') :
    s.Forward s' ∧ s'.ShowsLatest ∧
    ∀ (before : UpdateStore) (event : UpdateEvent) (after : UpdateStore),
      before.step event = some after → ∀ component ∉ before.touched event,
        after.checks.row? component = before.checks.row? component ∧
          after.staged.row? component = before.staged.row? component := by
  refine ⟨?_, (timed_of_reachable (hleads.reachable hreach)).shows,
    fun _ _ _ hstep _ => UpdateStore.step_frame hstep⟩
  refine hleads.invariant (fun later => s.Forward later) ?_ hreach (.refl s)
  intro earlier event later hearlier hforward horder hstep
  exact hforward.trans ((timed_of_reachable hearlier).step horder hstep).2

def sampleTarget (componentId : String) : RepositoryTarget where
  componentId := componentId
  repositoryUrl := "sample"
  currentRepositoryUrl := "sample"
  trackedRef := "HEAD"
  currentRevision := "0000000000000000000000000000000000000000"

/-- One check after the other. -/
def checksInTurn : List UpdateEvent :=
  [.start 0 (.check [sampleTarget "a"]), .observe 0 0, .observed 0 0 (.error "offline"), .write 0,
    .tick 1, .start 0 (.check [sampleTarget "a"]), .observe 0 0, .observed 0 0 (.error "offline"),
    .write 0]

def updatesAfter (check : UpdateStore → UpdateEvent → Bool) (events : List UpdateEvent) :
    UpdateStore :=
  repositoryUpdates.after check {} events

theorem update_records_forward_inTurn :
    (updatesAfter UpdateStore.inOrder checksInTurn).written.map WrittenCheck.checkedAt = [0, 1] ∧
      (updatesAfter UpdateStore.inOrder checksInTurn).ShowsLatest :=
  ⟨by decide, (update_records_forward (.initial rfl) (.after UpdateStore.inOrder {} _)).2.1⟩

/-- The second check starts later and is written first. -/
def checksCrossed : List UpdateEvent :=
  [.start 0 (.check [sampleTarget "a"]), .observe 0 0, .tick 1,
    .start 1 (.check [sampleTarget "a"]), .observe 1 0, .observed 1 0 (.error "offline"), .write 1,
    .observed 0 0 (.error "offline")]

open TransitionSystem in
/-- The older observation replaces the newer one. -/
theorem update_records_go_back : ∃ s s', repositoryUpdates.Reachable anyStep s ∧
    repositoryUpdates.Leads anyStep s s' ∧ ¬ s.Forward s' ∧ ¬ s'.ShowsLatest := by
  have hreach : repositoryUpdates.Reachable (fun _ _ => true = true)
      (updatesAfter (fun _ _ => true) checksCrossed) := (Reachable.initial rfl).after _
  have hleads := Leads.after (T := repositoryUpdates) (fun _ _ => true)
    (updatesAfter (fun _ _ => true) checksCrossed) [.write 0]
  have hbefore : (updatesAfter (fun _ _ => true) checksCrossed).checks.row? "a" =
      some ("a", (sampleTarget "a").checkRecord 1 (.error "offline")) := by decide
  have hafter : (repositoryUpdates.after (fun _ _ => true)
      (updatesAfter (fun _ _ => true) checksCrossed) [.write 0]).checks.row? "a" =
        some ("a", (sampleTarget "a").checkRecord 0 (.error "offline")) := by decide
  refine ⟨_, _, hreach.unguarded, hleads.unguarded, fun hforward => ?_, fun hshows => ?_⟩
  · obtain ⟨record, hrecord, hle⟩ := hforward "a" _ hbefore
    rw [hafter] at hrecord
    obtain rfl := (Prod.mk.inj (Option.some.inj hrecord)).2
    exact absurd hle (by decide)
  · have hentry : ⟨"a", 1, 1⟩ ∈ (repositoryUpdates.after (fun _ _ => true)
        (updatesAfter (fun _ _ => true) checksCrossed) [.write 0]).written := by decide
    obtain ⟨record, hrecord, hle⟩ := hshows.latest _ hentry
    rw [hafter] at hrecord
    obtain rfl := (Prod.mk.inj (Option.some.inj hrecord)).2
    exact absurd hle (by decide)

end QhpcEcosystem
