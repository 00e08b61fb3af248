/-
The history that the engine keeps.  Attempts that have ended, stored artifacts
and execution events are never rewritten, whatever is retried, expires or is
canceled, and whether an operation succeeds or raises.
-/
import QhpcEcosystem.RunningTasks

namespace QhpcEcosystem

/-! ## Ended attempts -/

section Ended

variable {db : Db} {now : Time}

/-- The sweep finds no attempt that has ended. -/
theorem Db.RunningHeld.expired_live (h : db.RunningHeld) (hintegrity : db.Integrity)
    {row : Attempt} {expired : ExpiredLease} (hrow : row ∈ db.taskAttempts.rows)
    (hexpired : db.expiredAttempt? now row = some expired) : row.state.live = true := by
  obtain ⟨-, task, run, htask, -, -, hnumber, hrunning | hrequested⟩ :=
    expiredAttempt?_spec hrow hexpired
  · obtain ⟨attempt, hattempt, hrun, hnode, hcounter, hlive⟩ :=
      h task (Table.mem_of_row? htask) hrunning
    obtain ⟨htaskRun, htaskNode⟩ := Db.place_of_task? htask
    rw [hintegrity.number_inj row hrow attempt hattempt (by rw [hrun, htaskRun])
      (by rw [hnode, htaskNode]) (by rw [hcounter, hnumber])]
    exact hlive
  · rw [hrequested]
    rfl

/-- An attempt that has ended does not change. -/
theorem Db.AttemptChange.eq_of_ended {operation : Operation} {row row' : Attempt}
    (h : db.AttemptChange now operation row row') (hheld : db.RunningHeld)
    (hintegrity : db.Integrity) (htokens : db.Tokens) (hrow : row ∈ db.taskAttempts.rows)
    (hended : row.state.live = false) : row' = row := by
  have hleased : ∀ {lease : TaskLease}, db.Leased lease row → False := by
    intro lease hleased
    have := htokens.held_live hleased
    simp [hended] at this
  have hexpired : ∀ {expired : ExpiredLease}, db.expiredAttempt? now row = some expired →
      False := by
    intro expired hsome
    have := hheld.expired_live hintegrity hrow hsome
    simp [hended] at this
  cases h with
  | kept => rfl
  | renewed hholds => exact (hleased hholds.toLeased).elim
  | marked hholds _ => exact (hleased hholds.toLeased).elim
  | recorded hholds _ => exact (hleased hholds.toLeased).elim
  | observed hholds _ => exact (hleased hholds.toLeased).elim
  | released hholds => exact (hleased hholds.toLeased).elim
  | markedCanceled hholds => exact (hleased hholds.toLeased).elim
  | completed _ _ _ hrowLeased => exact (hleased hrowLeased).elim
  | failed _ _ _ hrowLeased => exact (hleased hrowLeased).elim
  | expired hsome => exact (hexpired hsome).elim
  | recovered hrecoverable =>
      have hlive := Attempt.live_of_recoverable _ hrecoverable
      simp only [Db.sweepAttempt] at hlive
      split at hlive
      · next expired hsome => exact (hexpired hsome).elim
      · simp [hended] at hlive
  | requested _ _ hselected =>
      simp only [Attempt.selectedForCancel, Bool.and_eq_true, decide_eq_true_eq,
        List.mem_cons, List.not_mem_nil, or_false] at hselected
      rcases hselected.2 with hstate | hstate | hstate | hstate | hstate <;>
        simp [hstate, AttemptState.live] at hended

end Ended

/-! ## Events -/

/-- Events are only appended. -/
def Db.KeepsEvents (db db' : Db) : Prop := db.executionEvents <+: db'.executionEvents

namespace Db.KeepsEvents

variable {db db' : Db} {now : Time}

theorem foldl {α : Type} {f : Db → α → Db}
    (hf : ∀ (db : Db) (item : α), db.KeepsEvents (f db item)) (items : List α) (db : Db) :
    db.KeepsEvents (items.foldl f db) := by
  induction items generalizing db with
  | nil => exact List.prefix_rfl
  | cons item rest ih => exact (hf db item).trans (ih (f db item))

theorem appendReportedStages (lease : TaskLease) (metadata : Metadata)
    (h : db.KeepsEvents db') :
    db.KeepsEvents (QhpcEcosystem.appendReportedStages db' now lease metadata) := by
  refine List.IsPrefix.trans h ?_
  unfold QhpcEcosystem.appendReportedStages
  refine foldl (fun _ _ => ?_) _ _
  exact List.prefix_append _ _

theorem resetExpiredLeases (db : Db) (now : Time) :
    db.KeepsEvents (QhpcEcosystem.resetExpiredLeases db now) := by
  refine foldl (fun db row => ?_) _ db
  simp only [expireLease]
  cases row.attempt with
  | none => exact List.prefix_rfl
  | some attempt =>
      cases row.expiry with
      | closeCanceled => exact List.prefix_append _ _
      | keepTarget => exact List.prefix_append _ _
      | reopen => exact List.prefix_append _ _

theorem registerWorkflow {workflow : Workflow} {registry : Registry} {digest : String}
    (h : registerWorkflow db workflow registry digest = .ok db') : db.KeepsEvents db' := by
  simp only [QhpcEcosystem.registerWorkflow, bind, Except.bind] at h
  split at h
  · cases h
  · split at h
    · split at h
      · cases h
      · cases h
        exact List.prefix_rfl
    · split at h <;> cases h <;> exact List.prefix_rfl

theorem registerInputArtifact {artifactType fileName uri checksum : String} {sizeBytes : Nat}
    {artifactId : Uuid}
    (h : registerInputArtifact db artifactType fileName uri checksum sizeBytes =
      .ok (artifactId, db')) : db.KeepsEvents db' := by
  simp only [QhpcEcosystem.registerInputArtifact] at h
  repeat' split at h
  all_goals cases h
  exact List.prefix_rfl

theorem submitRun {workflowId version executionTarget : String} {registry : Option Registry}
    {inputs : ArtifactIds} {executionClass : Option String} {runId : Uuid}
    (h : submitRun db now workflowId version registry inputs executionTarget executionClass =
      .ok (runId, db')) : db.KeepsEvents db' := by
  simp only [QhpcEcosystem.submitRun, bind, Except.bind] at h
  repeat' split at h
  all_goals cases h
  exact List.prefix_rfl

theorem claimTask {workerId : String} {leaseSeconds : Int} {admission : Admission}
    {claimed : Option TaskLease}
    (h : claimTask db now workerId leaseSeconds admission = .ok (claimed, db')) :
    db.KeepsEvents db' := by
  refine (resetExpiredLeases db now).trans ?_
  cases claimTask_ok h with
  | idle _ _ => exact List.prefix_rfl
  | recovered _ => exact List.prefix_append _ _
  | started _ _ hlease =>
      simp only [leaseTask] at hlease
      split at hlease
      · cases hlease
      · next stored hstored =>
          cases hlease
          unfold Db.insertAttempt? at hstored
          split at hstored
          · cases hstored
          · obtain ⟨attempts, -, rfl⟩ := Option.map_eq_some_iff.mp hstored
            exact List.prefix_append _ _

theorem renewLease {lease renewed : TaskLease} {leaseSeconds : Int}
    (h : renewLease db now lease leaseSeconds = .ok (renewed, db')) : db.KeepsEvents db' := by
  simp only [QhpcEcosystem.renewLease, bind, Except.bind] at h
  repeat' split at h
  all_goals cases h
  exact List.prefix_rfl

theorem recordStage {lease : TaskLease} {stage source : String} {durationMs : Int}
    {details : List (String × Value)}
    (h : recordStage db now lease stage durationMs details source = .ok db') :
    db.KeepsEvents db' := by
  simp only [QhpcEcosystem.recordStage, bind, Except.bind] at h
  split at h
  · cases h
  · split at h
    · cases h
    · split at h <;> cases h
      exact List.prefix_append _ _

theorem recordReportedStages {lease : TaskLease} {metadata : Metadata}
    (h : recordReportedStages db now lease metadata = .ok db') : db.KeepsEvents db' := by
  simp only [QhpcEcosystem.recordReportedStages, bind, Except.bind] at h
  split at h <;> cases h
  exact appendReportedStages lease metadata List.prefix_rfl

theorem markSubmitting {lease : TaskLease} (h : markSubmitting db now lease = .ok db') :
    db.KeepsEvents db' := by
  simp only [QhpcEcosystem.markSubmitting, bind, Except.bind] at h
  repeat' split at h
  all_goals cases h
  · exact List.prefix_rfl
  · exact List.prefix_append _ _
  · exact List.prefix_rfl

theorem recordSubmission {lease : TaskLease} {targetHandle targetState : String}
    {metadata : Metadata} {state : AttemptState}
    (h : recordSubmission db now lease targetHandle targetState metadata = .ok (state, db')) :
    db.KeepsEvents db' := by
  simp only [QhpcEcosystem.recordSubmission, bind, Except.bind] at h
  split at h
  · cases h
  · split at h
    · cases h
    · split at h
      · cases h
      · cases h
        exact appendReportedStages lease metadata (List.prefix_append _ _)

theorem recordTargetStatus {lease : TaskLease} {targetState : String} {metadata : Metadata}
    (h : recordTargetStatus db now lease targetState metadata = .ok db') :
    db.KeepsEvents db' := by
  simp only [QhpcEcosystem.recordTargetStatus, bind, Except.bind] at h
  split at h
  · cases h
  · split at h
    · cases h
    · cases h
      exact appendReportedStages lease metadata (List.prefix_append _ _)

theorem releaseLease {lease : TaskLease} (h : releaseLease db lease = .ok db') :
    db.KeepsEvents db' := by
  simp only [QhpcEcosystem.releaseLease, bind, Except.bind] at h
  split at h <;> cases h
  exact List.prefix_rfl

theorem markAttemptCanceled {lease : TaskLease} {log : String}
    {details : List (String × Value)}
    (h : markAttemptCanceled db now lease log details = .ok db') : db.KeepsEvents db' := by
  simp only [QhpcEcosystem.markAttemptCanceled, bind, Except.bind] at h
  split at h <;> cases h
  exact List.prefix_append _ _

theorem completeTask {lease : TaskLease} {result : TaskResult}
    (h : completeTask db now lease result = .ok db') : db.KeepsEvents db' := by
  unfold QhpcEcosystem.completeTask at h
  split at h
  · cases h
  · split at h
    · cases h
      exact List.prefix_rfl
    · split at h
      · cases h
      · split at h
        · cases h
        · next attempt _ =>
            split at h
            · cases h
            · simp only at h
              split at h
              · cases h
              · split at h
                · cases h
                · simp only [bind, Except.bind] at h
                  split at h
                  · cases h
                  · next pair hinsert =>
                      obtain ⟨stored, outputIds⟩ := pair
                      obtain ⟨artifacts, uuids, added, hstored, -⟩ := insertOutputs_core hinsert
                      simp only [finishRunIfTerminal, hstored] at h
                      split at h
                      · cases h
                        exact List.prefix_append _ _
                      · split at h
                        · cases h
                        · simp only [bind, Except.bind] at h
                          split at h
                          · cases h
                          · cases h
                            exact List.prefix_append _ _

theorem failTask {lease : TaskLease} {error : Exn}
    (h : failTask db now lease error = .ok db') : db.KeepsEvents db' := by
  unfold QhpcEcosystem.failTask at h
  split at h
  · cases h
  · split at h
    · cases h
      exact List.prefix_rfl
    · split at h
      · cases h
        exact List.prefix_rfl
      · split at h
        · cases h
          exact List.prefix_rfl
        · cases h
          exact List.prefix_append _ _

theorem cancelRun {runId : Uuid} (h : cancelRun db now runId = .ok db') :
    db.KeepsEvents db' := by
  unfold QhpcEcosystem.cancelRun at h
  split at h
  · cases h
  · split at h
    · cases h
      exact List.prefix_rfl
    · cases h
      refine foldl (fun db attempt => ?_) _ db
      simp only [cancelAttempt]
      cases attempt.targetHandle <;> exact List.prefix_append _ _

theorem retryTask {runId : Uuid} {nodeId : String}
    (h : retryTask db now runId nodeId = .ok db') : db.KeepsEvents db' := by
  have happend : ∀ nodes {db db' : Db}, appendRetryEvents now runId nodes db = .ok db' →
      db.KeepsEvents db' := by
    intro nodes
    induction nodes with
    | nil =>
        intro db db' h
        cases h
        exact List.prefix_rfl
    | cons node rest ih =>
        intro db db' h
        simp only [appendRetryEvents] at h
        split at h
        · cases h
        · exact List.IsPrefix.trans (List.prefix_append _ _) (ih h)
  unfold QhpcEcosystem.retryTask at h
  split at h
  · cases h
  · split at h
    · cases h
    · simp only [bind, Except.bind] at h
      split at h
      · cases h
      · next stored hstored =>
          cases h
          have hprefix := happend _ hstored
          exact hprefix

/-- Every operation keeps the events. -/
theorem perform {operation : Operation} {reply : Reply}
    (h : perform db now operation = .ok (reply, db')) : db.KeepsEvents db' := by
  cases operation with
  | registerWorkflow workflow registry digest =>
      obtain ⟨stored, hok, heq⟩ := map_ok h
      cases heq
      exact registerWorkflow hok
  | registerInputArtifact artifactType fileName uri checksum sizeBytes =>
      obtain ⟨⟨artifactId, stored⟩, hok, heq⟩ := map_ok h
      cases heq
      exact registerInputArtifact hok
  | submitRun workflowId version registry inputs executionTarget executionClass =>
      obtain ⟨⟨runId, stored⟩, hok, heq⟩ := map_ok h
      cases heq
      exact submitRun hok
  | claimTask workerId leaseSeconds admission =>
      obtain ⟨⟨claimed, stored⟩, hok, heq⟩ := map_ok h
      cases heq
      exact claimTask hok
  | taskRequest lease =>
      obtain ⟨request, -, heq⟩ := map_ok h
      cases heq
      exact List.prefix_rfl
  | attemptState lease =>
      obtain ⟨state, -, heq⟩ := map_ok h
      cases heq
      exact List.prefix_rfl
  | renewLease lease leaseSeconds =>
      obtain ⟨⟨renewed, stored⟩, hok, heq⟩ := map_ok h
      cases heq
      exact renewLease hok
  | recordStage lease stage durationMs details =>
      obtain ⟨stored, hok, heq⟩ := map_ok h
      cases heq
      exact recordStage hok
  | recordReportedStages lease metadata =>
      obtain ⟨stored, hok, heq⟩ := map_ok h
      cases heq
      exact recordReportedStages hok
  | markSubmitting lease =>
      obtain ⟨stored, hok, heq⟩ := map_ok h
      cases heq
      exact markSubmitting hok
  | recordSubmission lease targetHandle targetState metadata =>
      obtain ⟨⟨state, stored⟩, hok, heq⟩ := map_ok h
      cases heq
      exact recordSubmission hok
  | recordTargetStatus lease targetState metadata =>
      obtain ⟨stored, hok, heq⟩ := map_ok h
      cases heq
      exact recordTargetStatus hok
  | releaseLease lease =>
      obtain ⟨stored, hok, heq⟩ := map_ok h
      cases heq
      exact releaseLease hok
  | markAttemptCanceled lease log details =>
      obtain ⟨stored, hok, heq⟩ := map_ok h
      cases heq
      exact markAttemptCanceled hok
  | completeTask lease result =>
      obtain ⟨stored, hok, heq⟩ := map_ok h
      cases heq
      exact completeTask hok
  | failTask lease error =>
      obtain ⟨stored, hok, heq⟩ := map_ok h
      cases heq
      exact failTask hok
  | cancelRun runId =>
      obtain ⟨stored, hok, heq⟩ := map_ok h
      cases heq
      exact cancelRun hok
  | retryTask runId nodeId =>
      obtain ⟨stored, hok, heq⟩ := map_ok h
      cases heq
      exact retryTask hok

theorem after (operation : Operation) (now : Time) (db : Db) :
    db.KeepsEvents (operation.after now db) := by
  unfold Operation.after
  split
  · next reply db' hok => exact perform hok
  · exact List.prefix_rfl

end Db.KeepsEvents

/-! ## The history -/

/-- What no operation rewrites: attempts that have ended, where every attempt
belongs, the stored artifacts and the events. -/
structure Db.KeepsHistory (db db' : Db) : Prop where
  ended : ∀ row ∈ db.taskAttempts.rows, row.state.live = false → row ∈ db'.taskAttempts.rows
  attempts : ∀ row ∈ db.taskAttempts.rows, ∃ row' ∈ db'.taskAttempts.rows,
    row'.id = row.id ∧ row'.runId = row.runId ∧ row'.nodeId = row.nodeId ∧
      row'.number = row.number ∧ row'.startedAt = row.startedAt
  artifacts : db.artifacts.rows <+: db'.artifacts.rows
  inputArtifacts : db.inputArtifacts.rows ⊆ db'.inputArtifacts.rows
  events : db.KeepsEvents db'

theorem Db.Transition.artifacts {db db' : Db} {now : Time} {operation : Operation}
    (h : db.Transition now operation db') : db.artifacts.rows <+: db'.artifacts.rows ∧
      db.inputArtifacts.rows ⊆ db'.inputArtifacts.rows := by
  rcases h.stages with ⟨_, hchanges⟩ | ⟨_, hchanges⟩
  · exact ⟨⟨_, hchanges.artifacts.symm⟩, hchanges.inputArtifacts⟩
  · have hsweep := resetExpiredLeases_changes db now
    exact ⟨List.IsPrefix.trans ⟨_, hsweep.artifacts.symm⟩ ⟨_, hchanges.artifacts.symm⟩,
      fun _ hrow => hchanges.inputArtifacts (hsweep.inputArtifacts hrow)⟩

/-- The history of an attempt is frozen once it has ended: no operation, whether
it succeeds or raises, rewrites it, an artifact or an event. -/
theorem history_kept {db : Db} (hreach : engine.Reachable TransitionSystem.anyStep db)
    (operation : Operation) (now : Time) : db.KeepsHistory (operation.after now db) := by
  have htransition := operation.transition now db
  obtain ⟨hartifacts, hinputs⟩ := htransition.artifacts
  refine ⟨fun row hrow hended => ?_, fun row hrow => ?_, hartifacts, hinputs,
    .after operation now db⟩
  · obtain ⟨row', hrow', -, hchange⟩ := htransition.attemptChanges.old row hrow
    rwa [hchange.eq_of_ended (engine_runningHeld hreach) (engine_integrity hreach)
      (engine_tokens hreach) hrow hended] at hrow'
  · obtain ⟨row', hrow', hid, hchange⟩ := htransition.attemptChanges.old row hrow
    exact ⟨row', hrow', hid, hchange.keeps.2⟩

/-- A task that failed is retried; its first attempt stays as it ended. -/
theorem history_kept_retry :
    let db := engine.after retriesSettled {} settledRetry
    (db.taskAttempts.rows.map Attempt.state) = [.failed, .leased] ∧
      db.KeepsHistory ((Operation.cancelRun 0).after 5 db) :=
  ⟨by decide, history_kept ((TransitionSystem.Reachable.initial rfl).after
    settledRetry).unguarded _ _⟩

end QhpcEcosystem
