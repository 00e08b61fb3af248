/-
The execution events are the history of the attempts.  What the log says of an
attempt, read from its first event to its last, is an admissible sequence, and
it ends in the state and the target handle of the row.
-/
import QhpcEcosystem.AttemptHistory

namespace QhpcEcosystem

/-! ## Replay -/

/-- The columns of an attempt that its events tell. -/
structure AttemptView where
  state : AttemptState
  targetHandle : Option String := none
deriving DecidableEq, Repr

def Attempt.view (row : Attempt) : AttemptView := ⟨row.state, row.targetHandle⟩

/-- The state after an event of an attempt that keeps its handle. -/
def AttemptState.next? (state : AttemptState) (eventType : String)
    (reported : Option String) : Option AttemptState :=
  if eventType = "stage.completed" then some state
  else if eventType = "lease.acquired" then
    if reported = some state.name then some state else none
  else if eventType = "lease.expired" then
    if reported = some state.name then some state
    else if reported = some "abandoned" then some .abandoned else none
  else if eventType = "target.submit-intent" then
    if state = .leased then some .submitting else none
  else if eventType = "target.state" then
    (reported.bind TargetState.ofName?).map (observedState state)
  else if eventType ∈ ["target.cancel-requested", "task.cancel-requested"] then
    some .cancelRequested
  else if eventType = "task.succeeded" then some .succeeded
  else if eventType = "task.failed" then some .failed
  else if eventType = "task.canceled" then some .canceled
  else none

/-- What an event makes of an attempt; nothing follows the end of one, and only a
submission changes the handle. -/
def AttemptView.next? (view : AttemptView) (eventType : String) (reported : Option String)
    (targetHandle : Option String) : Option AttemptView :=
  if view.state.live = false then none
  else if eventType = "target.submitted" then
    (reported.bind TargetState.ofName?).map fun target =>
      ⟨if view.state = .cancelRequested then .cancelRequested else submittedState target,
        targetHandle⟩
  else if targetHandle ≠ view.targetHandle then none
  else (view.state.next? eventType reported).map fun state => ⟨state, view.targetHandle⟩

def AttemptView.after? (view : AttemptView) (event : Event) : Option AttemptView :=
  view.next? event.eventType event.state event.targetHandle

/-- The first event leases the attempt. -/
def replay : List Event → Option AttemptView
  | [] => none
  | first :: rest =>
      if first.eventType = "task.leased" ∧ first.targetHandle = none then
        rest.foldlM AttemptView.after? ⟨.leased, none⟩
      else none

/-- The events of an attempt. -/
def Db.history (db : Db) (attemptId : Uuid) : List Event :=
  db.executionEvents.filter fun event => event.attemptId = some attemptId

theorem replay_append {events : List Event} {view : AttemptView} (h : replay events = some view)
    (event : Event) : replay (events ++ [event]) = view.after? event := by
  cases events with
  | nil => cases h
  | cons first rest =>
      simp only [replay] at h
      split at h
      · next hfirst =>
          rw [List.cons_append, replay, if_pos hfirst, List.foldlM_append, h]
          simp
      · cases h

/-! ## One attempt at a time -/

/-- The log replays to the rows, but for one attempt, where it has come to a
view. -/
structure Db.ReplaysTo (db : Db) (row : Attempt) (view : AttemptView) : Prop where
  stored : db.attempt? row.id = some row
  others : ∀ other ∈ db.taskAttempts.rows, other.id ≠ row.id →
    replay (db.history other.id) = some other.view
  replayed : replay (db.history row.id) = some view
  places : ∀ event ∈ db.executionEvents, ∀ attemptId, event.attemptId = some attemptId →
    ∃ other, db.attempt? attemptId = some other ∧ event.runId = other.runId ∧
      event.nodeId = other.nodeId

/-- The log replays to the rows: each attempt's events end in its state and its
handle, and an event about an attempt names its run and its node. -/
structure Db.Replays (db : Db) : Prop where
  attempts : ∀ row ∈ db.taskAttempts.rows, replay (db.history row.id) = some row.view
  places : ∀ event ∈ db.executionEvents, ∀ attemptId, event.attemptId = some attemptId →
    ∃ row, db.attempt? attemptId = some row ∧ event.runId = row.runId ∧
      event.nodeId = row.nodeId

theorem Db.Replays.pick {db : Db} (h : db.Replays) {row : Attempt}
    (hrow : row ∈ db.taskAttempts.rows) : db.ReplaysTo row row.view where
  stored := Table.row?_of_mem hrow
  others other hother _ := h.attempts other hother
  replayed := h.attempts row hrow
  places := h.places

/-- Only the attempts and the events count. -/
theorem Db.Replays.congr {db db' : Db} (h : db.Replays)
    (hattempts : db'.taskAttempts = db.taskAttempts)
    (hevents : db'.executionEvents = db.executionEvents) : db'.Replays := by
  refine ⟨?_, ?_⟩
  · simp only [Db.history, hattempts, hevents]
    exact h.attempts
  · simp only [Db.attempt?, hattempts, hevents]
    exact h.places

namespace Db.ReplaysTo

variable {db db' : Db} {row : Attempt} {view view' : AttemptView}

theorem done (h : db.ReplaysTo row view) (hview : view = row.view) : db.Replays where
  attempts other hother := by
    by_cases hsame : other.id = row.id
    · rw [db.taskAttempts.eq_of_key_eq hother (Table.mem_of_row? h.stored) hsame, h.replayed,
        hview]
    · exact h.others other hother hsame
  places := h.places

/-- The row changes and its events follow. -/
theorem update (h : db.ReplaysTo row view) {f : RowUpdate Attempt}
    (hrun : (f.apply row).runId = row.runId) (hnode : (f.apply row).nodeId = row.nodeId) :
    (db.updateAttempt row.id f).ReplaysTo (f.apply row) view := by
  have hid : (f.apply row).id = row.id := Attempt.apply_id f row
  have hfound : (db.updateAttempt row.id f).attempt? row.id = some (f.apply row) := by
    have hstored := h.stored
    simp only [Db.attempt?] at hstored
    simp [Db.attempt?, Db.updateAttempt, hstored]
  refine ⟨by rw [hid, hfound], ?_, by rw [hid]; exact h.replayed, ?_⟩
  · intro other hother hne
    rw [hid] at hne
    simp only [Db.updateAttempt, Table.rows_update] at hother
    obtain ⟨old, hold, rfl⟩ := List.mem_map.mp hother
    rw [RowUpdate.forKey_apply] at hne ⊢
    split at hne
    · next hkey => exact absurd ((Attempt.apply_id f old).trans hkey) hne
    · next hkey =>
        rw [if_neg hkey]
        exact h.others old hold hkey
  · intro event hevent attemptId hattempt
    obtain ⟨other, hother, hplace⟩ := h.places event hevent attemptId hattempt
    by_cases hsame : attemptId = row.id
    · subst hsame
      cases h.stored.symm.trans hother
      exact ⟨_, hfound, hplace.1.trans hrun.symm, hplace.2.trans hnode.symm⟩
    · refine ⟨other, ?_, hplace⟩
      simp only [Db.attempt?] at hother
      simp only [Db.attempt?, Db.updateAttempt, Table.row?_update_of_ne _ _ hsame, hother]

/-- An event of the attempt. -/
theorem append (h : db.ReplaysTo row view) {eventType : String} {now : Time}
    {stage state : Option String} {durationMs : Option Int} {details : List (String × Value)}
    {source : String} (hnext : view.next? eventType state row.targetHandle = some view') :
    (db.appendEvent row.runId row.nodeId (some row.id) eventType now stage state durationMs
      details source).ReplaysTo row view' := by
  have hstored := h.stored
  refine ⟨hstored, ?_, ?_, ?_⟩
  · intro other hother hne
    have hkept := h.others other hother hne
    simp only [Db.history] at hkept
    simp [Db.history, Db.appendEvent, Ne.symm hne, hkept]
  · have hreplayed := h.replayed
    simp only [Db.history] at hreplayed
    simp only [Db.history, Db.appendEvent, List.filter_append]
    simp only [decide_true, List.filter_cons_of_pos, List.filter_nil]
    rw [replay_append hreplayed]
    simpa [AttemptView.after?, hstored] using hnext
  · intro event hevent attemptId hattempt
    rcases List.mem_append.mp hevent with hold | hnew
    · exact h.places event hold attemptId hattempt
    · obtain rfl := List.mem_singleton.mp hnew
      cases hattempt
      exact ⟨row, hstored, rfl, rfl⟩

end Db.ReplaysTo

section Steps

variable {view : AttemptView} {eventType : String} {reported targetHandle : Option String}

theorem AttemptView.next?_eq (hlive : view.state.live = true)
    (htype : eventType ≠ "target.submitted") :
    view.next? eventType reported view.targetHandle =
      (view.state.next? eventType reported).map fun state => ⟨state, view.targetHandle⟩ := by
  simp [AttemptView.next?, hlive, htype]

theorem AttemptView.next?_submitted (hlive : view.state.live = true) {target : TargetState}
    (htarget : reported.bind TargetState.ofName? = some target) :
    view.next? "target.submitted" reported targetHandle =
      some ⟨if view.state = .cancelRequested then .cancelRequested else submittedState target,
        targetHandle⟩ := by
  simp [AttemptView.next?, hlive, htarget]

end Steps

/-! ## The operations of a worker -/

/-- The reported stages leave an attempt as it is. -/
theorem Db.ReplaysTo.stages {db : Db} {row : Attempt} {now : Time} {lease : TaskLease}
    (h : db.ReplaysTo row row.view) (hlive : row.state.live = true)
    (hid : lease.attemptId = row.id) (hrun : lease.runId = row.runId)
    (hnode : lease.nodeId = row.nodeId) (metadata : Metadata) :
    (appendReportedStages db now lease metadata).ReplaysTo row row.view := by
  unfold appendReportedStages
  induction reportedStages metadata generalizing db with
  | nil => exact h
  | cons item rest ih =>
      rw [List.foldl_cons, hid, hrun, hnode] at *
      refine ih (h.append ?_)
      exact AttemptView.next?_eq hlive (by decide)

namespace Db.Replays

variable {db db' : Db} {now : Time} {lease : TaskLease} {row : Attempt}

theorem renewLease (h : db.Replays) {leaseSeconds : Int} {renewed : TaskLease}
    (hok : renewLease db now lease leaseSeconds = .ok (renewed, db')) : db'.Replays := by
  simp only [QhpcEcosystem.renewLease, bind, Except.bind] at hok
  split at hok
  · cases hok
  · split at hok
    · cases hok
    · next row hrow =>
        cases hok
        have hholds := assertLease_eq_ok.mp hrow
        have hupdated := (h.pick (Table.mem_of_row? hholds.found)).update
          (f := Attempt.renew (leaseExpiration now leaseSeconds)) rfl rfl
        rw [Db.id_of_attempt? hholds.found] at hupdated
        exact (hupdated.done rfl).congr rfl rfl

theorem releaseLease (h : db.Replays) (hok : releaseLease db lease = .ok db') :
    db'.Replays := by
  simp only [QhpcEcosystem.releaseLease, bind, Except.bind] at hok
  split at hok
  · cases hok
  · next row hrow =>
      cases hok
      have hholds := assertLease_eq_ok.mp hrow
      have hupdated := (h.pick (Table.mem_of_row? hholds.found)).update
        (f := Attempt.clearLease) rfl rfl
      rw [Db.id_of_attempt? hholds.found] at hupdated
      exact (hupdated.done rfl).congr rfl rfl

theorem recordStage (h : db.Replays) (htokens : db.Tokens) {stage source : String}
    {durationMs : Int} {details : List (String × Value)}
    (hok : recordStage db now lease stage durationMs details source = .ok db') :
    db'.Replays := by
  simp only [QhpcEcosystem.recordStage, bind, Except.bind] at hok
  split at hok
  · cases hok
  · split at hok
    · cases hok
    · next row hrow =>
        split at hok
        · cases hok
        · cases hok
          have hholds := assertLease_eq_ok.mp hrow
          have hlive := htokens.held_live hholds.toLeased
          rw [← hholds.runId, ← hholds.nodeId, ← Db.id_of_attempt? hholds.found]
          exact ((h.pick (Table.mem_of_row? hholds.found)).append
            (AttemptView.next?_eq hlive (by decide))).done rfl

theorem recordReportedStages (h : db.Replays) (htokens : db.Tokens) {metadata : Metadata}
    (hok : recordReportedStages db now lease metadata = .ok db') : db'.Replays := by
  simp only [QhpcEcosystem.recordReportedStages, bind, Except.bind] at hok
  split at hok
  · cases hok
  · next row hrow =>
      cases hok
      have hholds := assertLease_eq_ok.mp hrow
      exact ((h.pick (Table.mem_of_row? hholds.found)).stages
        (htokens.held_live hholds.toLeased) (Db.id_of_attempt? hholds.found).symm
        hholds.runId.symm hholds.nodeId.symm metadata).done rfl

/-- A change of one attempt with its event. -/
theorem logged (h : db.Replays) (hrow : row ∈ db.taskAttempts.rows) {f : RowUpdate Attempt}
    (hrun : (f.apply row).runId = row.runId) (hnode : (f.apply row).nodeId = row.nodeId)
    {eventType : String} {state : Option String}
    (hnext : row.view.next? eventType state (f.apply row).targetHandle =
      some (f.apply row).view)
    {stage : Option String} {durationMs : Option Int} {details : List (String × Value)}
    {source : String} :
    ((db.updateAttempt row.id f).appendEvent row.runId row.nodeId (some row.id) eventType now
      stage state durationMs details source).Replays := by
  have happended : ((db.updateAttempt row.id f).appendEvent (f.apply row).runId
      (f.apply row).nodeId (some (f.apply row).id) eventType now stage state durationMs details
      source).ReplaysTo (f.apply row) (f.apply row).view :=
    ((h.pick hrow).update hrun hnode).append hnext
  rw [hrun, hnode, Attempt.apply_id f row] at happended
  exact happended.done rfl

theorem markSubmitting (h : db.Replays) (hok : markSubmitting db now lease = .ok db') :
    db'.Replays := by
  simp only [QhpcEcosystem.markSubmitting, bind, Except.bind] at hok
  split at hok
  · cases hok
  · next row hrow =>
      have hholds := assertLease_eq_ok.mp hrow
      split at hok
      · cases hok
        exact h
      · next hstate =>
          cases hok
          rw [← hholds.runId, ← hholds.nodeId, ← Db.id_of_attempt? hholds.found]
          refine h.logged (Table.mem_of_row? hholds.found) rfl rfl ?_
          simp [AttemptView.next?, AttemptState.next?, Attempt.view, hstate, AttemptState.live,
            Attempt.setState]
      · next hstate =>
          cases hok
          rw [← Db.id_of_attempt? hholds.found]
          refine ((h.pick (Table.mem_of_row? hholds.found)).update rfl rfl).done ?_
          simp [Attempt.view, Attempt.setState, hstate]
      · cases hok

theorem recordSubmission (h : db.Replays) (htokens : db.Tokens) {handle targetState : String}
    {metadata : Metadata} {state : AttemptState}
    (hok : recordSubmission db now lease handle targetState metadata = .ok (state, db')) :
    db'.Replays := by
  simp only [QhpcEcosystem.recordSubmission, bind, Except.bind] at hok
  split at hok
  · cases hok
  · split at hok
    · cases hok
    · next target htarget =>
        split at hok
        · cases hok
        · next row hrow =>
            cases hok
            have hholds := assertLease_eq_ok.mp hrow
            have hlive := htokens.held_live hholds.toLeased
            have hpicked := h.pick (Table.mem_of_row? hholds.found)
            rw [← hholds.runId, ← hholds.nodeId, ← Db.id_of_attempt? hholds.found]
            have hnext : row.view.next? "target.submitted" (some targetState) (some handle) =
                some ⟨if row.state = .cancelRequested then .cancelRequested
                  else submittedState target, some handle⟩ :=
              AttemptView.next?_submitted hlive htarget
            refine ((hpicked.update rfl rfl).append hnext).stages ?_
              (Db.id_of_attempt? hholds.found).symm hholds.runId.symm hholds.nodeId.symm metadata
                |>.done rfl
            simp only [Attempt.submit]
            split
            · rfl
            · cases target <;> rfl

theorem recordTargetStatus (h : db.Replays) (htokens : db.Tokens) {targetState : String}
    {metadata : Metadata}
    (hok : recordTargetStatus db now lease targetState metadata = .ok db') : db'.Replays := by
  simp only [QhpcEcosystem.recordTargetStatus, bind, Except.bind] at hok
  split at hok
  · cases hok
  · next target htarget =>
      split at hok
      · cases hok
      · next row hrow =>
          cases hok
          have hholds := assertLease_eq_ok.mp hrow
          have hlive := htokens.held_live hholds.toLeased
          have hpicked := h.pick (Table.mem_of_row? hholds.found)
          rw [← hholds.runId, ← hholds.nodeId, ← Db.id_of_attempt? hholds.found]
          have hstate : (observedState row.state target).live = true := by
            cases target <;> first | rfl | exact hlive
          have hnext : row.view.next? "target.state" (some targetState) row.targetHandle =
              some ⟨observedState row.state target, row.targetHandle⟩ := by
            rw [show row.targetHandle = row.view.targetHandle from rfl,
              AttemptView.next?_eq hlive (by decide)]
            simp [AttemptState.next?, htarget, Attempt.view]
          exact ((hpicked.update rfl rfl).append hnext).stages hstate
            (Db.id_of_attempt? hholds.found).symm hholds.runId.symm hholds.nodeId.symm metadata
              |>.done rfl

/-- The end of a run is no event of an attempt. -/
theorem finishRun (h : db.Replays) {runId : Uuid}
    (hok : finishRunIfTerminal db now runId = .ok db') : db'.Replays := by
  simp only [finishRunIfTerminal] at hok
  split at hok
  · cases hok
    exact h
  · split at hok
    · cases hok
    · simp only [bind, Except.bind] at hok
      split at hok
      · cases hok
      · cases hok
        exact h.congr rfl rfl

theorem markAttemptCanceled (h : db.Replays) (htokens : db.Tokens) {log : String}
    {details : List (String × Value)}
    (hok : markAttemptCanceled db now lease log details = .ok db') : db'.Replays := by
  simp only [QhpcEcosystem.markAttemptCanceled, bind, Except.bind] at hok
  split at hok
  · cases hok
  · next row hrow =>
      cases hok
      have hholds := assertLease_eq_ok.mp hrow
      have hlive := htokens.held_live hholds.toLeased
      rw [← hholds.runId, ← hholds.nodeId, ← Db.id_of_attempt? hholds.found]
      have htask : (db.updateTask row.runId row.nodeId (Task.cancel now)).Replays :=
        h.congr rfl rfl
      have hnext : row.view.next? "task.canceled" (some "canceled") row.targetHandle =
          some ⟨.canceled, row.targetHandle⟩ := AttemptView.next?_eq hlive (by decide)
      exact htask.logged (Table.mem_of_row? hholds.found) rfl rfl hnext

theorem failTask (h : db.Replays) (htokens : db.Tokens) {error : Exn}
    (hok : failTask db now lease error = .ok db') : db'.Replays := by
  unfold QhpcEcosystem.failTask at hok
  split at hok
  · cases hok
  · split at hok
    · cases hok
      exact h
    · split at hok
      · cases hok
        exact h
      · next row hrow =>
          split at hok
          · cases hok
            exact h
          · next hid =>
            cases hok
            have hleased := leased_of_leasedAttempt? hrow (not_not.mp hid)
            have hlive := htokens.held_live hleased
            rw [← hleased.runId, ← hleased.nodeId]
            have hothers : ((db.updateTask row.runId row.nodeId (Task.fail now
                (taskFailure error))).updateRun row.runId (Run.finish .failed now)).Replays :=
              h.congr rfl rfl
            have hnext : row.view.next? "task.failed" (some "failed") row.targetHandle =
                some ⟨.failed, row.targetHandle⟩ := AttemptView.next?_eq hlive (by decide)
            exact hothers.logged (Table.mem_of_row? hleased.found) rfl rfl hnext

theorem completeTask (h : db.Replays) (htokens : db.Tokens) {result : TaskResult}
    (hok : completeTask db now lease result = .ok db') : db'.Replays := by
  unfold QhpcEcosystem.completeTask at hok
  split at hok
  · cases hok
  · split at hok
    · cases hok
      exact h
    · split at hok
      · cases hok
      · split at hok
        · cases hok
        · next row hrow =>
            split at hok
            · cases hok
            · next hid =>
                simp only at hok
                split at hok
                · cases hok
                · split at hok
                  · cases hok
                  · simp only [bind, Except.bind] at hok
                    split at hok
                    · cases hok
                    · next pair hinsert =>
                        obtain ⟨stored, outputIds⟩ := pair
                        obtain ⟨artifacts, uuids, added, rfl, -⟩ := insertOutputs_core hinsert
                        have hleased := leased_of_leasedAttempt? hrow (not_not.mp hid)
                        have hlive := htokens.held_live hleased
                        have hcompleted : (storeCompletion { db with
                            artifacts := artifacts
                            uuids := uuids } now lease row.id outputIds result.log).Replays := by
                          rw [storeCompletion, ← hleased.runId, ← hleased.nodeId]
                          have hothers : (Db.updateTask { db with
                              artifacts := artifacts
                              uuids := uuids } row.runId row.nodeId
                                (Task.succeed now outputIds result.log)).Replays :=
                            h.congr rfl rfl
                          have hnext : row.view.next? "task.succeeded" (some "succeeded")
                              row.targetHandle = some ⟨.succeeded, row.targetHandle⟩ :=
                            AttemptView.next?_eq hlive (by decide)
                          exact hothers.logged (Table.mem_of_row? hleased.found) rfl rfl hnext
                        exact hcompleted.finishRun hok

/-! ## The operations of a client -/

/-- A loop over different attempts, each turn of which keeps the others. -/
theorem foldl {α : Type} (attempt : α → Option Attempt) {body : Db → α → Db} {items : List α}
    (hbody : ∀ db item, item ∈ items → db.Replays →
      (∀ row, attempt item = some row → row ∈ db.taskAttempts.rows) →
      (body db item).Replays ∧ ∀ other ∈ db.taskAttempts.rows,
        (∀ row, attempt item = some row → other.id ≠ row.id) →
        other ∈ (body db item).taskAttempts.rows)
    (hnodup : ((items.filterMap attempt).map Attempt.id).Nodup) (h : db.Replays)
    (hstored : ∀ row ∈ items.filterMap attempt, row ∈ db.taskAttempts.rows) :
    (items.foldl body db).Replays := by
  induction items generalizing db with
  | nil => exact h
  | cons item rest ih =>
      obtain ⟨hreplays, hkept⟩ := hbody db item List.mem_cons_self h fun row hrow =>
        hstored row (List.mem_filterMap.mpr ⟨item, List.mem_cons_self, hrow⟩)
      refine ih (fun db other hother => hbody db other (List.mem_cons_of_mem _ hother)) ?_ hreplays
        fun row hrow => ?_
      · exact hnodup.sublist (((List.sublist_cons_self item rest).filterMap attempt).map Attempt.id)
      · obtain ⟨other, hother, hattempt⟩ := List.mem_filterMap.mp hrow
        refine hkept row (hstored row (List.mem_filterMap.mpr
          ⟨other, List.mem_cons_of_mem _ hother, hattempt⟩)) fun first hfirst hsame => ?_
        rw [List.filterMap_cons_some hfirst, List.map_cons, List.nodup_cons] at hnodup
        exact hnodup.1 (by rw [← hsame]; exact List.mem_map_of_mem hrow)

/-- Other attempts than the updated one stay. -/
theorem mem_updateAttempt {attemptId : Uuid} {f : RowUpdate Attempt} {other : Attempt}
    (hother : other ∈ db.taskAttempts.rows) (hne : other.id ≠ attemptId) :
    other ∈ (db.updateAttempt attemptId f).taskAttempts.rows := by
  simp only [Db.updateAttempt, Table.rows_update]
  refine List.mem_map.mpr ⟨other, hother, ?_⟩
  rw [RowUpdate.forKey_apply]
  exact if_neg hne

theorem cancelAttempt (h : db.Replays) (hrow : row ∈ db.taskAttempts.rows)
    (hlive : row.state.live = true) : (cancelAttempt now db row).Replays := by
  have hhandle : (Attempt.requestCancel.apply row).targetHandle = row.targetHandle := by
    simp only [Attempt.requestCancel]
    split <;> rfl
  have hview : (Attempt.requestCancel.apply row).view = ⟨.cancelRequested, row.targetHandle⟩ := by
    simp only [Attempt.requestCancel]
    split <;> rfl
  have hkeeps := Attempt.keeps_requestCancel row
  simp only [QhpcEcosystem.cancelAttempt]
  cases hsome : row.targetHandle with
  | some handle =>
      refine h.logged hrow hkeeps.1 hkeeps.2.1 ?_
      rw [hhandle, hview]
      exact AttemptView.next?_eq hlive (by decide)
  | none =>
      refine h.logged hrow hkeeps.1 hkeeps.2.1 ?_
      rw [hhandle, hview]
      exact AttemptView.next?_eq hlive (by decide)

theorem cancelRun (h : db.Replays) {runId : Uuid} (hok : cancelRun db now runId = .ok db') :
    db'.Replays := by
  unfold QhpcEcosystem.cancelRun at hok
  split at hok
  · cases hok
  · split at hok
    · cases hok
      exact h
    · cases hok
      have hactive : (List.foldl (QhpcEcosystem.cancelAttempt now) db
          (db.taskAttempts.rows.filter (Attempt.selectedForCancel runId))).Replays := by
        refine foldl some ?_ ?_ h ?_
        · intro db row hrow hreplays hstored
          have hlive : row.state.live = true := by
            have hselected := (List.mem_filter.mp hrow).2
            simp only [Attempt.selectedForCancel, Bool.and_eq_true, decide_eq_true_eq,
              List.mem_cons, List.not_mem_nil, or_false] at hselected
            rcases hselected.2 with hstate | hstate | hstate | hstate | hstate <;>
              rw [hstate] <;> rfl
          refine ⟨hreplays.cancelAttempt (hstored row rfl) hlive, fun other hother hne => ?_⟩
          have hmem := mem_updateAttempt (f := Attempt.requestCancel) hother (hne row rfl)
          simp only [QhpcEcosystem.cancelAttempt]
          cases row.targetHandle <;> exact hmem
        · rw [List.filterMap_some]
          exact db.taskAttempts.nodup.sublist (List.filter_sublist.map Attempt.id)
        · rw [List.filterMap_some]
          exact fun row hrow => (List.mem_filter.mp hrow).1
      exact hactive.congr rfl rfl

/-- An event of no attempt. -/
theorem appendRunEvent (h : db.Replays) {runId : Uuid} {nodeId eventType source : String}
    {stage state : Option String} {durationMs : Option Int} {details : List (String × Value)} :
    (db.appendEvent runId nodeId none eventType now stage state durationMs details
      source).Replays where
  attempts row hrow := by
    have hreplays := h.attempts row hrow
    simp only [Db.history] at hreplays
    simp [Db.history, Db.appendEvent, hreplays]
  places event hevent attemptId hattempt := by
    rcases List.mem_append.mp hevent with hold | hnew
    · exact h.places event hold attemptId hattempt
    · rw [List.mem_singleton.mp hnew] at hattempt
      cases hattempt

theorem retryTask (h : db.Replays) {runId : Uuid} {nodeId : String}
    (hok : retryTask db now runId nodeId = .ok db') : db'.Replays := by
  have happend : ∀ nodes {db db' : Db}, db.Replays →
      appendRetryEvents now runId nodes db = .ok db' → db'.Replays := by
    intro nodes
    induction nodes with
    | nil =>
        intro db db' h hok
        cases hok
        exact h
    | cons node rest ih =>
        intro db db' h hok
        simp only [appendRetryEvents] at hok
        split at hok
        · cases hok
        · exact ih h.appendRunEvent hok
  unfold QhpcEcosystem.retryTask at hok
  split at hok
  · cases hok
  · split at hok
    · cases hok
    · simp only [bind, Except.bind] at hok
      split at hok
      · cases hok
      · next stored hstored =>
          cases hok
          have hreset : (db.updateTasksWhere (fun row => row.runId = runId &&
              row.nodeId ∈ descendants ‹Workflow› nodeId) Task.retry).Replays := h.congr rfl rfl
          exact (happend _ hreset hstored).congr rfl rfl

/-! ## Claims -/

theorem expireLease (h : db.Replays) {expired : ExpiredLease} (hattempt : expired.attempt = some row)
    (hrow : row ∈ db.taskAttempts.rows) (hlive : row.state.live = true) :
    (expireLease now db expired).Replays := by
  have hupdated : (expired.expiry.appendEvent (db.updateAttempt row.id
      (expired.expiry.attemptUpdate now)) now row).Replays := by
    cases expired.expiry with
    | closeCanceled =>
        have hnext : row.view.next? "task.canceled" (some "canceled") row.targetHandle =
            some ⟨.canceled, row.targetHandle⟩ := AttemptView.next?_eq hlive (by decide)
        exact h.logged hrow (f := Attempt.closeCanceled now) rfl rfl hnext
    | keepTarget =>
        have hnext : row.view.next? "lease.expired" (some row.state.name) row.targetHandle =
            some ⟨row.state, row.targetHandle⟩ :=
          (AttemptView.next?_eq hlive (by decide)).trans
            (by simp [AttemptState.next?, Attempt.view])
        exact h.logged hrow (f := Attempt.clearLease) rfl rfl hnext
    | reopen =>
        have hnext : row.view.next? "lease.expired" (some "abandoned") row.targetHandle =
            some ⟨.abandoned, row.targetHandle⟩ := by
          refine (AttemptView.next?_eq hlive (by decide)).trans ?_
          simp only [Attempt.view]
          cases row.state <;> rfl
        exact h.logged hrow (f := Attempt.abandon now) rfl rfl hnext
  simp only [QhpcEcosystem.expireLease, hattempt]
  exact hupdated.congr rfl rfl

theorem resetExpiredLeases (h : db.Replays) (hintegrity : db.Integrity)
    (hheld : db.RunningHeld) : (resetExpiredLeases db now).Replays := by
  have hlive : ∀ expired ∈ db.tasks.rows.filterMap (db.expiredLease? now), ∀ row,
      expired.attempt = some row → row ∈ db.taskAttempts.rows ∧ row.state.live = true := by
    intro expired hexpired row hrow
    obtain ⟨task, htask, hlease⟩ := List.mem_filterMap.mp hexpired
    obtain ⟨-, -, hmem, hrun, hnode, -⟩ := expiredPair?_spec
      (show db.expiredPair? now task = some (expired, row) by
        simp [Db.expiredPair?, hlease, hrow])
    have hfound : db.task? row.runId row.nodeId = some task := by
      rw [hrun, hnode]
      exact Table.row?_of_mem htask
    have hswept : db.expiredAttempt? now row = some expired := by
      simp [Db.expiredAttempt?, hfound, hlease, hrow, Option.filter]
    exact ⟨hmem, hheld.expired_live hintegrity hmem hswept⟩
  refine foldl ExpiredLease.attempt ?_ ?_ h ?_
  · intro db' expired hexpired hreplays hstored
    cases hattempt : expired.attempt with
    | none =>
        simp only [QhpcEcosystem.expireLease, hattempt]
        exact ⟨hreplays.congr rfl rfl, fun other hother _ => hother⟩
    | some row =>
        refine ⟨hreplays.expireLease hattempt (hstored row hattempt)
          (hlive expired hexpired row hattempt).2, fun other hother hne => ?_⟩
        have hmem := mem_updateAttempt (f := expired.expiry.attemptUpdate now) hother
          (hne row rfl)
        simp only [QhpcEcosystem.expireLease, hattempt]
        cases hexpiry : expired.expiry <;> rw [hexpiry] at hmem <;> exact hmem
  · have hnodup : ((db.tasks.rows.filterMap (db.expiredPair? now)).map
        fun pair => pair.2.id).Nodup := nodup_expiredPairs
    rw [← expiredPairs_eq, expiredPairs, List.map_filterMap] at hnodup
    rw [List.map_filterMap]
    simpa [Option.map_map, Function.comp_def] using hnodup
  · intro row hrow
    obtain ⟨expired, hexpired, hattempt⟩ := List.mem_filterMap.mp hrow
    exact (hlive expired hexpired row hattempt).1

theorem recoverAttempt (h : db.Replays) {workerId : String} {leaseSeconds : Int}
    (hrow : row ∈ db.taskAttempts.rows) (hlive : row.state.live = true) :
    (recoverAttempt db now workerId leaseSeconds row).2.Replays := by
  have hothers : (Db.updateTask { db with uuids := db.uuids + 1 } row.runId row.nodeId
      (Task.lease db.uuids (leaseExpiration now leaseSeconds))).Replays := h.congr rfl rfl
  have hnext : row.view.next? "lease.acquired" (some row.state.name) row.targetHandle =
      some ⟨row.state, row.targetHandle⟩ :=
    (AttemptView.next?_eq hlive (by decide)).trans (by simp [AttemptState.next?, Attempt.view])
  exact hothers.logged hrow
    (f := Attempt.lease workerId db.uuids (leaseExpiration now leaseSeconds)) rfl rfl hnext

/-- The first event of an attempt. -/
theorem insertAttempt (h : db.Replays) (hinsert : db.insertAttempt? row = some db')
    (hrow : row.view = ⟨.leased, none⟩) {source : String} {details : List (String × Value)} :
    (db'.appendEvent row.runId row.nodeId (some row.id) "task.leased" now none (some "leased")
      none details source).Replays := by
  unfold Db.insertAttempt? at hinsert
  split at hinsert
  · cases hinsert
  · obtain ⟨attempts, hattempts, rfl⟩ := Option.map_eq_some_iff.mp hinsert
    have hfresh : db.attempt? row.id = none := Table.row?_key_of_insert? hattempts
    have hfound : ∀ attemptId, attempts.row? attemptId =
        if row.id = attemptId then some row else db.attempt? attemptId :=
      fun attemptId => Table.row?_insert? hattempts attemptId
    have hempty : db.history row.id = [] := by
      refine List.filter_eq_nil_iff.mpr fun event hevent hattempt => ?_
      obtain ⟨other, hother, -⟩ := h.places event hevent row.id (by simpa using hattempt)
      rw [hfresh] at hother
      cases hother
    refine ⟨?_, ?_⟩
    · intro other hother
      simp only [Db.appendEvent] at hother
      rw [Table.insert?_rows hattempts] at hother
      rcases List.mem_append.mp hother with hold | hnew
      · have hne : row.id ≠ other.id := by
          intro hsame
          have hstored : db.attempt? other.id = some other := Table.row?_of_mem hold
          rw [← hsame, hfresh] at hstored
          cases hstored
        have hreplays := h.attempts other hold
        simp only [Db.history] at hreplays
        simp [Db.history, Db.appendEvent, hne, hreplays]
      · obtain rfl := List.mem_singleton.mp hnew
        have hhandle : other.targetHandle = none := congrArg AttemptView.targetHandle hrow
        simp only [Db.history] at hempty
        simp [Db.history, Db.appendEvent, hempty, replay, Db.attempt?, hfound, hhandle, hrow]
    · intro event hevent attemptId hattempt
      simp only [Db.attempt?, Db.appendEvent, hfound]
      rcases List.mem_append.mp hevent with hold | hnew
      · obtain ⟨other, hother, hplace⟩ := h.places event hold attemptId hattempt
        refine ⟨other, ?_, hplace⟩
        rw [if_neg fun hsame => ?_]
        · exact hother
        · rw [← hsame, hfresh] at hother
          cases hother
      · rw [List.mem_singleton.mp hnew] at hattempt ⊢
        cases hattempt
        exact ⟨row, if_pos rfl, rfl, rfl⟩

theorem leaseTask (h : db.Replays) {workerId : String} {leaseSeconds : Int} {task : Task}
    (hok : leaseTask db now workerId leaseSeconds task = .ok (lease, db')) : db'.Replays := by
  simp only [QhpcEcosystem.leaseTask] at hok
  split at hok
  · cases hok
  · next stored hstored =>
      cases hok
      have hothers : (Db.updateTask { db with uuids := db.uuids + 2 } task.runId task.nodeId
        (Task.start db.uuids (leaseExpiration now leaseSeconds) now)).Replays := h.congr rfl rfl
      exact (hothers.insertAttempt hstored rfl).congr rfl rfl

theorem claimTask (h : db.Replays) (hintegrity : db.Integrity) (hheld : db.RunningHeld)
    {workerId : String} {leaseSeconds : Int} {admission : Admission}
    {claimed : Option TaskLease}
    (hok : claimTask db now workerId leaseSeconds admission = .ok (claimed, db')) :
    db'.Replays := by
  have hswept : (QhpcEcosystem.resetExpiredLeases db now).Replays :=
    h.resetExpiredLeases hintegrity hheld
  cases claimTask_ok hok with
  | idle _ _ => exact hswept
  | recovered hjoined =>
      obtain ⟨hmem, hrecoverable, -⟩ :=
        mem_recoverableAttempts.mp (List.mem_of_find?_eq_some hjoined)
      exact hswept.recoverAttempt hmem (Attempt.live_of_recoverable _ hrecoverable)
  | started _ _ hlease => exact hswept.leaseTask hlease

/-! ## Every operation -/

theorem step (h : db.Replays) (hintegrity : db.Integrity) (htokens : db.Tokens)
    (hheld : db.RunningHeld) (operation : Operation) (now : Time) :
    (operation.after now db).Replays := by
  unfold Operation.after
  split
  · next reply stored hperform =>
    cases operation with
    | registerWorkflow workflow registry digest =>
        obtain ⟨stored, hok, heq⟩ := map_ok hperform
        cases heq
        simp only [registerWorkflow, bind, Except.bind] at hok
        repeat' split at hok
        all_goals cases hok
        all_goals first | exact h | exact h.congr rfl rfl
    | registerInputArtifact artifactType fileName uri checksum sizeBytes =>
        obtain ⟨⟨artifactId, stored⟩, hok, heq⟩ := map_ok hperform
        cases heq
        simp only [registerInputArtifact] at hok
        repeat' split at hok
        all_goals cases hok
        exact h.congr rfl rfl
    | submitRun workflowId version registry inputs executionTarget executionClass =>
        obtain ⟨⟨runId, stored⟩, hok, heq⟩ := map_ok hperform
        cases heq
        simp only [submitRun, bind, Except.bind] at hok
        repeat' split at hok
        all_goals cases hok
        exact h.congr rfl rfl
    | claimTask workerId leaseSeconds admission =>
        obtain ⟨⟨claimed, stored⟩, hok, heq⟩ := map_ok hperform
        cases heq
        exact h.claimTask hintegrity hheld hok
    | taskRequest lease | attemptState lease =>
        obtain ⟨_, -, heq⟩ := map_ok hperform
        cases heq
        exact h
    | renewLease lease leaseSeconds =>
        obtain ⟨⟨renewed, stored⟩, hok, heq⟩ := map_ok hperform
        cases heq
        exact h.renewLease hok
    | recordStage lease stage durationMs details =>
        obtain ⟨stored, hok, heq⟩ := map_ok hperform
        cases heq
        exact h.recordStage htokens hok
    | recordReportedStages lease metadata =>
        obtain ⟨stored, hok, heq⟩ := map_ok hperform
        cases heq
        exact h.recordReportedStages htokens hok
    | markSubmitting lease =>
        obtain ⟨stored, hok, heq⟩ := map_ok hperform
        cases heq
        exact h.markSubmitting hok
    | recordSubmission lease targetHandle targetState metadata =>
        obtain ⟨⟨state, stored⟩, hok, heq⟩ := map_ok hperform
        cases heq
        exact h.recordSubmission htokens hok
    | recordTargetStatus lease targetState metadata =>
        obtain ⟨stored, hok, heq⟩ := map_ok hperform
        cases heq
        exact h.recordTargetStatus htokens hok
    | releaseLease lease =>
        obtain ⟨stored, hok, heq⟩ := map_ok hperform
        cases heq
        exact h.releaseLease hok
    | markAttemptCanceled lease log details =>
        obtain ⟨stored, hok, heq⟩ := map_ok hperform
        cases heq
        exact h.markAttemptCanceled htokens hok
    | completeTask lease result =>
        obtain ⟨stored, hok, heq⟩ := map_ok hperform
        cases heq
        exact h.completeTask htokens hok
    | failTask lease error =>
        obtain ⟨stored, hok, heq⟩ := map_ok hperform
        cases heq
        exact h.failTask htokens hok
    | cancelRun runId =>
        obtain ⟨stored, hok, heq⟩ := map_ok hperform
        cases heq
        exact h.cancelRun hok
    | retryTask runId nodeId =>
        obtain ⟨stored, hok, heq⟩ := map_ok hperform
        cases heq
        exact h.retryTask hok
  · exact h

end Db.Replays

end QhpcEcosystem
