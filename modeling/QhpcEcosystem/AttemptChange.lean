/-
What an operation does to the row of one attempt, over all operations.  An
attempt under a lease is changed by the bearer of the lease alone, apart from
the cancellation of its run and the expiry of the lease.
-/
import QhpcEcosystem.EngineInvariants

namespace QhpcEcosystem

/-- The lease that an operation bears. -/
def Operation.lease? : Operation → Option TaskLease
  | .taskRequest lease | .attemptState lease | .renewLease lease _
  | .recordStage lease _ _ _ | .recordReportedStages lease _ | .markSubmitting lease
  | .recordSubmission lease _ _ _ | .recordTargetStatus lease _ _ | .releaseLease lease
  | .markAttemptCanceled lease _ _ | .completeTask lease _ | .failTask lease _ => some lease
  | .registerWorkflow _ _ _ | .registerInputArtifact _ _ _ _ _ | .submitRun _ _ _ _ _ _
  | .claimTask _ _ _ | .cancelRun _ | .retryTask _ _ => none

/-- The change of an attempt that was there before the operation. -/
inductive Db.AttemptChange (db : Db) (now : Time) : Operation → Attempt → Attempt → Prop
  | kept {operation : Operation} {row : Attempt} : db.AttemptChange now operation row row
  | renewed {lease : TaskLease} {leaseSeconds : Int} {row : Attempt} : db.Holds lease row →
      db.AttemptChange now (.renewLease lease leaseSeconds) row
        ((Attempt.renew (leaseExpiration now leaseSeconds)).apply row)
  | marked {lease : TaskLease} {row : Attempt} : db.Holds lease row →
      row.state = .leased ∨ row.state = .submitting →
      db.AttemptChange now (.markSubmitting lease) row
        ((Attempt.setState .submitting).apply row)
  | recorded {lease : TaskLease} {targetHandle targetState : String} {metadata : Metadata}
      {row : Attempt} {target : TargetState} : db.Holds lease row →
      TargetState.ofName? targetState = some target →
      db.AttemptChange now (.recordSubmission lease targetHandle targetState metadata) row
        ((Attempt.submit (if row.state = .cancelRequested then .cancelRequested
          else submittedState target) targetHandle target metadata now).apply row)
  | observed {lease : TaskLease} {targetState : String} {metadata : Metadata}
      {row : Attempt} {target : TargetState} : db.Holds lease row →
      TargetState.ofName? targetState = some target →
      db.AttemptChange now (.recordTargetStatus lease targetState metadata) row
        ((Attempt.observe (observedState row.state target) target
          (Metadata.merge row.targetMetadata metadata)).apply row)
  | released {lease : TaskLease} {row : Attempt} : db.Holds lease row →
      db.AttemptChange now (.releaseLease lease) row (Attempt.clearLease.apply row)
  | markedCanceled {lease : TaskLease} {log : String} {details : List (String × Value)}
      {row : Attempt} : db.Holds lease row →
      db.AttemptChange now (.markAttemptCanceled lease log details) row
        ((Attempt.cancel now log).apply row)
  | completed {lease : TaskLease} {result : TaskResult} {row : Attempt} {task : Task}
      {outputIds : ArtifactIds} : db.task? lease.runId lease.nodeId = some task →
      task.state = .running → task.leaseToken = some lease.token → db.Leased lease row →
      db.AttemptChange now (.completeTask lease result) row
        ((Attempt.succeed now outputIds result.log).apply row)
  | failed {lease : TaskLease} {error : Exn} {row : Attempt} {task : Task} :
      db.task? lease.runId lease.nodeId = some task → task.state = .running →
      task.leaseToken = some lease.token → db.Leased lease row →
      db.AttemptChange now (.failTask lease error) row
        ((Attempt.fail now (taskFailure error)).apply row)
  | expired {workerId : String} {leaseSeconds : Int} {admission : Admission}
      {row : Attempt} {expired : ExpiredLease} : db.expiredAttempt? now row = some expired →
      db.AttemptChange now (.claimTask workerId leaseSeconds admission) row
        ((expired.expiry.attemptUpdate now).apply row)
  | recovered {workerId : String} {leaseSeconds : Int} {admission : Admission}
      {row : Attempt} : ((db.sweepAttempt now).apply row).recoverable = true →
      db.AttemptChange now (.claimTask workerId leaseSeconds admission) row
        ((Attempt.lease workerId db.uuids (leaseExpiration now leaseSeconds)).apply
          ((db.sweepAttempt now).apply row))
  | requested {runId : Uuid} {run : Run} {row : Attempt} : db.run? runId = some run →
      run.state.terminal = false → row.selectedForCancel runId = true →
      db.AttemptChange now (.cancelRun runId) row (Attempt.requestCancel.apply row)

/-- The attempt that a claim of a pending task opens. -/
inductive Db.AttemptAdded (db : Db) (now : Time) : Operation → Attempt → Prop
  | started {workerId : String} {leaseSeconds : Int} {admission : Admission} {task : Task} :
      (resetExpiredLeases db now).Ready admission task →
      db.AttemptAdded now (.claimTask workerId leaseSeconds admission)
        (freshAttempt (db.uuids + 1) db.uuids workerId now (leaseExpiration now leaseSeconds)
          task)

/-- The attempts after an operation: each one from before with its change, and
the added ones. -/
structure Db.AttemptChanges (db : Db) (now : Time) (operation : Operation) (db' : Db) :
    Prop where
  old : ∀ row ∈ db.taskAttempts.rows, ∃ row' ∈ db'.taskAttempts.rows, row'.id = row.id ∧
    db.AttemptChange now operation row row'
  new : ∀ row' ∈ db'.taskAttempts.rows,
    (∃ row ∈ db.taskAttempts.rows, row'.id = row.id ∧
      db.AttemptChange now operation row row') ∨ db.AttemptAdded now operation row'

section Changes

variable {db db' : Db} {now : Time} {operation : Operation}

theorem resetExpiredLeases_uuids (db : Db) (now : Time) :
    (resetExpiredLeases db now).uuids = db.uuids :=
  (others_foldl_expireLease now
    (db.tasks.rows.filterMap (db.expiredLease? now)) db).2.2.2.2

/-- A rewriting of the attempts, each by a change of the operation. -/
theorem Db.Changes.attemptChanges {e : Effect} (hchanges : db.Changes e db')
    (hnew : e.newAttempts = [])
    (hold : ∀ row ∈ db.taskAttempts.rows,
      db.AttemptChange now operation row (e.attempt.apply row)) :
    db.AttemptChanges now operation db' where
  old row hrow := ⟨_, hchanges.mem_attempts.mpr (.inl ⟨row, hrow, rfl⟩),
    Attempt.apply_id _ _, hold row hrow⟩
  new row' hrow' := by
    obtain ⟨row, hrow, rfl⟩ | hadded := hchanges.mem_attempts.mp hrow'
    · exact .inl ⟨row, hrow, Attempt.apply_id _ _, hold row hrow⟩
    · simp [hnew] at hadded

/-- The update of the attempt of a lease changes that attempt only. -/
theorem Db.AttemptChange.ofLeased {lease : TaskLease} {held : Attempt}
    {f : RowUpdate Attempt} (hleased : db.Leased lease held)
    (hchange : db.AttemptChange now operation held (f.apply held)) {row : Attempt}
    (hrow : row ∈ db.taskAttempts.rows) :
    db.AttemptChange now operation row
      ((RowUpdate.forKey lease.attemptId f).apply row) := by
  rw [RowUpdate.forKey_apply]
  split
  · next hid =>
      rw [db.taskAttempts.eq_of_key_eq hrow (Table.mem_of_row? hleased.found)
        (hid.trans (Db.id_of_attempt? hleased.found).symm)]
      exact hchange
  · exact .kept

theorem Db.AttemptChange.sweep {workerId : String} {leaseSeconds : Int}
    {admission : Admission} (row : Attempt) :
    db.AttemptChange now (.claimTask workerId leaseSeconds admission) row
      ((db.sweepAttempt now).apply row) := by
  simp only [Db.sweepAttempt]
  split
  · next expired hexpired => exact .expired hexpired
  · exact .kept

theorem Db.Claims.attemptChanges {workerId : String} {leaseSeconds : Int}
    {admission : Admission} {claimed : Option TaskLease}
    (hclaims : (resetExpiredLeases db now).Claims now workerId leaseSeconds admission
      claimed db') :
    db.AttemptChanges now (.claimTask workerId leaseSeconds admission) db' := by
  have hsweep := resetExpiredLeases_changes db now
  have huuids := resetExpiredLeases_uuids db now
  cases hclaims with
  | idle _ _ => exact hsweep.attemptChanges rfl fun row _ => .sweep row
  | @recovered joined hjoined =>
      have hchanges := recoverAttempt_changes (resetExpiredLeases db now) now workerId
        leaseSeconds joined.attempt
      obtain ⟨hmem, hrecoverable, -⟩ :=
        mem_recoverableAttempts.mp (List.mem_of_find?_eq_some hjoined)
      have hold : ∀ row ∈ db.taskAttempts.rows,
          db.AttemptChange now (.claimTask workerId leaseSeconds admission) row
            ((Effect.recover joined.attempt workerId db.uuids
              (leaseExpiration now leaseSeconds)).attempt.apply
                ((db.sweepAttempt now).apply row)) := by
        intro row hrow
        simp only [Effect.recover, RowUpdate.forKey_apply]
        split
        · next hid =>
            refine .recovered ?_
            have hswept := hsweep.mem_attempts.mpr (.inl ⟨row, hrow, rfl⟩)
            have hsame : (db.sweepAttempt now).apply row = joined.attempt :=
              (resetExpiredLeases db now).taskAttempts.eq_of_key_eq hswept hmem hid
            rw [hsame]
            exact hrecoverable
        · exact .sweep row
      rw [huuids] at hchanges
      constructor
      · intro row hrow
        refine ⟨_, hchanges.mem_attempts.mpr (.inl ⟨_, hsweep.mem_attempts.mpr
          (.inl ⟨row, hrow, rfl⟩), rfl⟩), ?_, hold row hrow⟩
        rw [Attempt.apply_id, Effect.sweep, Attempt.apply_id]
      · intro row' hrow'
        obtain ⟨swept, hswept, rfl⟩ | hadded := hchanges.mem_attempts.mp hrow'
        · obtain ⟨row, hrow, rfl⟩ | hadded := hsweep.mem_attempts.mp hswept
          · refine .inl ⟨row, hrow, ?_, hold row hrow⟩
            rw [Attempt.apply_id, Attempt.apply_id]
          · cases hadded
        · cases hadded
  | started _ hready hlease =>
      obtain ⟨-, -, -, -, -, -, -, -, hchanges⟩ := leaseTask_ok hlease
      rw [huuids] at hchanges
      constructor
      · intro row hrow
        exact ⟨_, hchanges.mem_attempts.mpr (.inl ⟨_, hsweep.mem_attempts.mpr
          (.inl ⟨row, hrow, rfl⟩), rfl⟩), Attempt.apply_id (db.sweepAttempt now) row,
          .sweep row⟩
      · intro row' hrow'
        obtain ⟨swept, hswept, rfl⟩ | hadded := hchanges.mem_attempts.mp hrow'
        · obtain ⟨row, hrow, rfl⟩ | hadded := hsweep.mem_attempts.mp hswept
          · exact .inl ⟨row, hrow, Attempt.apply_id (db.sweepAttempt now) row, .sweep row⟩
          · cases hadded
        · obtain rfl := List.mem_singleton.mp hadded
          exact .inr (.started hready)

theorem Db.Transition.attemptChanges (h : db.Transition now operation db') :
    db.AttemptChanges now operation db' := by
  cases h with
  | quiet hchanges => exact hchanges.attemptChanges rfl fun _ _ => .kept
  | submitted _ _ hchanges => exact hchanges.attemptChanges rfl fun _ _ => .kept
  | claimed hclaims => exact hclaims.attemptChanges
  | renewed hholds hchanges =>
      exact hchanges.attemptChanges rfl fun _ hrow =>
        .ofLeased hholds.toLeased (.renewed hholds) hrow
  | marked hholds hstate hchanges =>
      exact hchanges.attemptChanges rfl fun _ hrow =>
        .ofLeased hholds.toLeased (.marked hholds hstate) hrow
  | recorded hholds htarget hchanges =>
      exact hchanges.attemptChanges rfl fun _ hrow =>
        .ofLeased hholds.toLeased (.recorded hholds htarget) hrow
  | observed hholds htarget hchanges =>
      exact hchanges.attemptChanges rfl fun _ hrow =>
        .ofLeased hholds.toLeased (.observed hholds htarget) hrow
  | released hholds hchanges =>
      exact hchanges.attemptChanges rfl fun _ hrow =>
        .ofLeased hholds.toLeased (.released hholds) hrow
  | markedCanceled hholds hchanges =>
      exact hchanges.attemptChanges rfl fun _ hrow =>
        .ofLeased hholds.toLeased (.markedCanceled hholds) hrow
  | completed htask hrunning htoken hleased _ _ _ _ _ _ hchanges =>
      exact hchanges.attemptChanges rfl fun _ hrow =>
        .ofLeased hleased (.completed htask hrunning htoken hleased) hrow
  | failed htask hrunning htoken hleased hchanges =>
      exact hchanges.attemptChanges rfl fun _ hrow =>
        .ofLeased hleased (.failed htask hrunning htoken hleased) hrow
  | runCanceled hrun hopen hchanges =>
      refine hchanges.attemptChanges rfl fun row _ => ?_
      simp only [Effect.cancelRun, RowUpdate.onlyIf_apply]
      split
      · next hselected => exact .requested hrun hopen hselected
      · exact .kept
  | retried _ _ _ hchanges => exact hchanges.attemptChanges rfl fun _ _ => .kept

end Changes

/-- `cancel_run` selects the attempt, whose run has not ended, and leaves it its
lease. -/
structure Db.CancelsLeased (db : Db) (row : Attempt) : Prop where
  run : ∃ run, db.run? row.runId = some run ∧ run.state.terminal = false
  selected : row.selectedForCancel row.runId = true
  targetHandle : row.targetHandle = none

/-! ## What every change keeps -/

namespace Db.AttemptChange

variable {db : Db} {now : Time} {operation : Operation} {row row' : Attempt}

theorem keeps (h : db.AttemptChange now operation row row') :
    row'.id = row.id ∧ row'.runId = row.runId ∧ row'.nodeId = row.nodeId ∧
      row'.number = row.number ∧ row'.startedAt = row.startedAt := by
  have hswept := Attempt.keeps_sweep db now row
  cases h with
  | expired _ =>
      refine ⟨Attempt.apply_id _ _, ?_⟩
      simp only [Db.sweepAttempt, *] at hswept
      exact hswept
  | recovered _ => exact ⟨Attempt.apply_id (db.sweepAttempt now) row, hswept⟩
  | requested _ _ _ => exact ⟨Attempt.apply_id _ _, Attempt.keeps_requestCancel row⟩
  | _ => exact ⟨rfl, rfl, rfl, rfl, rfl⟩

/-- No attempt comes back to life. -/
theorem live (h : db.AttemptChange now operation row row') (htokens : db.Tokens)
    (hlive : row'.state.live = true) : row.state.live = true := by
  cases h with
  | kept => exact hlive
  | renewed hholds => exact hlive
  | marked hholds _ => exact htokens.held_live hholds.toLeased
  | recorded hholds _ => exact htokens.held_live hholds.toLeased
  | observed hholds _ => exact htokens.held_live hholds.toLeased
  | released hholds => exact hlive
  | markedCanceled hholds => cases hlive
  | completed _ _ _ _ => cases hlive
  | failed _ _ _ _ => cases hlive
  | @expired _ _ _ _ expired _ =>
      cases hexpiry : expired.expiry <;>
        simp only [hexpiry, Expiry.attemptUpdate] at hlive
      · cases hlive
      · exact hlive
      · cases hlive
  | recovered hrecoverable =>
      have hlive := Attempt.live_of_recoverable _ hrecoverable
      simp only [Db.sweepAttempt] at hlive
      split at hlive
      · next expired _ =>
          cases hexpiry : expired.expiry <;>
            simp only [hexpiry, Expiry.attemptUpdate] at hlive
          · cases hlive
          · exact hlive
          · cases hlive
      · exact hlive
  | requested _ _ hselected =>
      simp only [Attempt.selectedForCancel, Bool.and_eq_true, decide_eq_true_eq,
        List.mem_cons, List.not_mem_nil, or_false] at hselected
      rcases hselected.2 with hstate | hstate | hstate | hstate | hstate <;>
        rw [hstate] <;> rfl

/-- The handle of an attempt is the recorded one. -/
theorem targetHandle (h : db.AttemptChange now operation row row') :
    row'.targetHandle = row.targetHandle ∨
      ∃ lease handle state metadata,
        operation = .recordSubmission lease handle state metadata ∧ db.Holds lease row ∧
        row'.targetHandle = some handle := by
  have hsweep : ((db.sweepAttempt now).apply row).targetHandle = row.targetHandle := by
    simp only [Db.sweepAttempt]
    split
    · next expired _ => cases expired.expiry <;> rfl
    · rfl
  cases h with
  | recorded hholds _ => exact .inr ⟨_, _, _, _, rfl, hholds, rfl⟩
  | @expired _ _ _ _ expired _ => exact .inl (by cases expired.expiry <;> rfl)
  | recovered _ => exact .inl hsweep
  | requested _ _ _ =>
      refine .inl ?_
      simp only [Attempt.requestCancel]
      split <;> rfl
  | _ => exact .inl rfl

/-- A lease that was drawn before the operation is not moved to another attempt
or worker. -/
theorem bearer (h : db.AttemptChange now operation row row') {token : Uuid}
    (htoken : row'.leaseToken = some token) (hdrawn : token < db.uuids) :
    row.leaseToken = some token ∧ row'.workerId = row.workerId := by
  cases h with
  | released _ => cases htoken
  | markedCanceled _ => cases htoken
  | completed _ _ _ _ => cases htoken
  | failed _ _ _ _ => cases htoken
  | @expired _ _ _ _ expired _ =>
      have hnone : ((expired.expiry.attemptUpdate now).apply row).leaseToken = none := by
        cases expired.expiry <;> rfl
      rw [hnone] at htoken
      cases htoken
  | recovered _ =>
      have htoken : some db.uuids = some token := htoken
      rw [Option.some.injEq] at htoken
      grind
  | requested _ _ _ =>
      simp only [Attempt.requestCancel] at htoken ⊢
      split at htoken
      · cases htoken
      · next hhandle =>
          rw [if_neg hhandle]
          exact ⟨htoken, rfl⟩
  | _ => exact ⟨htoken, rfl⟩

/-- Under a lease that the operation does not bear an attempt changes at most
by the cancellation of its run, and then it has no handle. -/
theorem foreign (h : db.AttemptChange now operation row row') {token : Uuid}
    (htoken : row'.leaseToken = some token) (hdrawn : token < db.uuids)
    (hforeign : ∀ lease, operation.lease? = some lease → lease.token ≠ token) :
    row.leaseToken = some token ∧ (row' = row ∨
      operation = .cancelRun row.runId ∧ db.CancelsLeased row ∧
        row' = { row with state := .cancelRequested }) := by
  have hheld := (h.bearer htoken hdrawn).1
  have hborne : ∀ {lease : TaskLease}, operation.lease? = some lease →
      db.Leased lease row → False := by
    intro lease hlease hleased
    rw [hleased.token, Option.some.injEq] at hheld
    exact hforeign lease hlease hheld
  refine ⟨hheld, ?_⟩
  cases h with
  | kept => exact .inl rfl
  | renewed hholds => exact (hborne rfl hholds.toLeased).elim
  | marked hholds _ => exact (hborne rfl hholds.toLeased).elim
  | recorded hholds _ => exact (hborne rfl hholds.toLeased).elim
  | observed hholds _ => exact (hborne rfl hholds.toLeased).elim
  | released hholds => exact (hborne rfl hholds.toLeased).elim
  | markedCanceled hholds => exact (hborne rfl hholds.toLeased).elim
  | completed _ _ _ hleased => exact (hborne rfl hleased).elim
  | failed _ _ _ hleased => exact (hborne rfl hleased).elim
  | @expired _ _ _ _ expired _ =>
      have hnone : ((expired.expiry.attemptUpdate now).apply row).leaseToken = none := by
        cases expired.expiry <;> rfl
      rw [hnone] at htoken
      cases htoken
  | recovered _ =>
      have htoken : some db.uuids = some token := htoken
      rw [Option.some.injEq] at htoken
      grind
  | @requested runId run _ hfound hopen hselected =>
      have hrun : row.runId = runId := by
        simp only [Attempt.selectedForCancel, Bool.and_eq_true, decide_eq_true_eq]
          at hselected
        exact hselected.1
      subst hrun
      simp only [Attempt.requestCancel] at htoken
      split at htoken
      · cases htoken
      · next hhandle =>
          exact .inr ⟨rfl, ⟨⟨run, hfound, hopen⟩, hselected, by simpa using hhandle⟩,
            if_neg hhandle⟩

end Db.AttemptChange

/-! ## What no operation takes back -/

/-- Workflow versions and drawn identifiers stay. -/
structure Db.Grows (db db' : Db) : Prop where
  workflowVersions : db.workflowVersions.rows ⊆ db'.workflowVersions.rows
  resolvedVersions : db.ResolvedVersions db'
  uuids : db.uuids ≤ db'.uuids

theorem Db.Grows.trans {db next db' : Db} (hfirst : db.Grows next) (hsecond : next.Grows db') :
    db.Grows db' where
  workflowVersions := List.Subset.trans hfirst.workflowVersions hsecond.workflowVersions
  resolvedVersions row hrow := by
    rcases hsecond.resolvedVersions row hrow with hold | hnew
    · exact hfirst.resolvedVersions row hold
    · exact .inr hnew
  uuids := hfirst.uuids.trans hsecond.uuids

theorem Db.Changes.grows {db db' : Db} {e : Effect} (h : db.Changes e db') : db.Grows db' :=
  ⟨h.workflowVersions, h.resolvedVersions, h.uuids⟩

/-- A transition is one change, for a claim after the sweep. -/
theorem Db.Transition.stages {db db' : Db} {now : Time} {operation : Operation}
    (h : db.Transition now operation db') :
    (∃ e, db.Changes e db') ∨ ∃ e, (resetExpiredLeases db now).Changes e db' := by
  cases h with
  | claimed hclaims =>
      cases hclaims with
      | idle _ _ => exact .inl ⟨_, resetExpiredLeases_changes db now⟩
      | recovered _ => exact .inr ⟨_, recoverAttempt_changes _ _ _ _ _⟩
      | started _ _ hlease => exact .inr ⟨_, (leaseTask_ok hlease).2.2.2.2.2.2.2.2⟩
  | quiet hchanges => exact .inl ⟨_, hchanges⟩
  | submitted _ _ hchanges => exact .inl ⟨_, hchanges⟩
  | renewed _ hchanges => exact .inl ⟨_, hchanges⟩
  | marked _ _ hchanges => exact .inl ⟨_, hchanges⟩
  | recorded _ _ hchanges => exact .inl ⟨_, hchanges⟩
  | observed _ _ hchanges => exact .inl ⟨_, hchanges⟩
  | released _ hchanges => exact .inl ⟨_, hchanges⟩
  | markedCanceled _ hchanges => exact .inl ⟨_, hchanges⟩
  | completed _ _ _ _ _ _ _ _ _ _ hchanges => exact .inl ⟨_, hchanges⟩
  | failed _ _ _ _ hchanges => exact .inl ⟨_, hchanges⟩
  | runCanceled _ _ hchanges => exact .inl ⟨_, hchanges⟩
  | retried _ _ _ hchanges => exact .inl ⟨_, hchanges⟩

theorem Db.Transition.grows {db db' : Db} {now : Time} {operation : Operation}
    (h : db.Transition now operation db') : db.Grows db' := by
  rcases h.stages with ⟨_, hchanges⟩ | ⟨_, hchanges⟩
  · exact hchanges.grows
  · exact (resetExpiredLeases_changes db now).grows.trans hchanges.grows

/-! ## The held attempt -/

/-- A call that returns to the bearer of a valid lease: the row that the lease
holds, the reply, and the row afterwards. -/
inductive Operation.Returns (now : Time) : Operation → Attempt → Reply → Attempt → Prop
  | taskRequest {lease : TaskLease} {row : Attempt} {request : TaskRequest} :
      Returns now (.taskRequest lease) row (.request request) row
  | attemptState {lease : TaskLease} {row : Attempt} :
      Returns now (.attemptState lease) row (.state row.state) row
  | renewLease {lease : TaskLease} {leaseSeconds : Int} {row : Attempt} {reply : Reply} :
      Returns now (.renewLease lease leaseSeconds) row reply
        ((Attempt.renew (leaseExpiration now leaseSeconds)).apply row)
  | recordStage {lease : TaskLease} {stage : String} {durationMs : Int}
      {details : List (String × Value)} {row : Attempt} {reply : Reply} :
      Returns now (.recordStage lease stage durationMs details) row reply row
  | recordReportedStages {lease : TaskLease} {metadata : Metadata} {row : Attempt}
      {reply : Reply} : Returns now (.recordReportedStages lease metadata) row reply row
  | markSubmitting {lease : TaskLease} {row : Attempt} {reply : Reply} :
      row.state = .leased ∨ row.state = .submitting →
      Returns now (.markSubmitting lease) row reply ((Attempt.setState .submitting).apply row)
  | markCanceled {lease : TaskLease} {row : Attempt} {reply : Reply} :
      row.state = .cancelRequested → Returns now (.markSubmitting lease) row reply row
  | recordSubmission {lease : TaskLease} {targetHandle targetState : String}
      {metadata : Metadata} {row : Attempt} {target : TargetState} {state : AttemptState} :
      TargetState.ofName? targetState = some target →
      state = (if row.state = .cancelRequested then .cancelRequested
        else submittedState target) →
      Returns now (.recordSubmission lease targetHandle targetState metadata) row
        (.state state) ((Attempt.submit state targetHandle target metadata now).apply row)
  | recordTargetStatus {lease : TaskLease} {targetState : String} {metadata : Metadata}
      {row : Attempt} {target : TargetState} {reply : Reply} :
      TargetState.ofName? targetState = some target →
      Returns now (.recordTargetStatus lease targetState metadata) row reply
        ((Attempt.observe (observedState row.state target) target
          (Metadata.merge row.targetMetadata metadata)).apply row)
  | releaseLease {lease : TaskLease} {row : Attempt} {reply : Reply} :
      Returns now (.releaseLease lease) row reply (Attempt.clearLease.apply row)
  | markAttemptCanceled {lease : TaskLease} {log : String}
      {details : List (String × Value)} {row : Attempt} {reply : Reply} :
      Returns now (.markAttemptCanceled lease log details) row reply
        ((Attempt.cancel now log).apply row)
  | completeTask {lease : TaskLease} {result : TaskResult} {outputIds : ArtifactIds}
      {row : Attempt} {reply : Reply} : Returns now (.completeTask lease result) row reply
        ((Attempt.succeed now outputIds result.log).apply row)
  | alreadySucceeded {lease : TaskLease} {result : TaskResult} {row : Attempt}
      {reply : Reply} : Returns now (.completeTask lease result) row reply row
  | failTask {lease : TaskLease} {error : Exn} {row : Attempt} {reply : Reply} :
      Returns now (.failTask lease error) row reply
        ((Attempt.fail now (taskFailure error)).apply row)
  | tooLate {lease : TaskLease} {error : Exn} {row : Attempt} {reply : Reply} :
      Returns now (.failTask lease error) row reply row

section Held

variable {db db' : Db} {now : Time} {operation : Operation} {reply : Reply}
  {lease : TaskLease} {row : Attempt}

theorem Db.Changes.held {e : Effect} {f : RowUpdate Attempt} (hchanges : db.Changes e db')
    (heffect : e.attempt = .forKey lease.attemptId f) (hleased : db.Leased lease row) :
    db'.attempt? lease.attemptId = some (f.apply row) := by
  rw [hchanges.attempt?_some hleased.found, heffect, RowUpdate.forKey_apply, Attempt.key_eq,
    Db.id_of_attempt? hleased.found, if_pos rfl]

theorem returns_of_perform (hok : perform db now operation = .ok (reply, db'))
    (hlease : operation.lease? = some lease) (hholds : db.Holds lease row) :
    ∃ row', db'.attempt? lease.attemptId = some row' ∧
      operation.Returns now row reply row' := by
  have hunique : ∀ {other : Attempt}, db.Leased lease other → other = row :=
    fun hother => Option.some.inj (hother.found.symm.trans hholds.found)
  cases operation with
  | registerWorkflow workflow registry digest => cases hlease
  | registerInputArtifact artifactType fileName uri checksum sizeBytes => cases hlease
  | submitRun workflowId version registry inputs executionTarget executionClass => cases hlease
  | claimTask workerId leaseSeconds admission => cases hlease
  | cancelRun runId => cases hlease
  | retryTask runId nodeId => cases hlease
  | taskRequest _ =>
      cases hlease
      obtain ⟨request, -, heq⟩ := map_ok hok
      cases heq
      exact ⟨row, hholds.found, .taskRequest⟩
  | attemptState _ =>
      cases hlease
      obtain ⟨state, hstate, heq⟩ := map_ok hok
      cases heq
      simp only [attemptState, assertLease_eq_ok.mpr hholds] at hstate
      cases hstate
      exact ⟨row, hholds.found, .attemptState⟩
  | renewLease _ leaseSeconds =>
      cases hlease
      obtain ⟨⟨renewed, stored⟩, hrenewed, heq⟩ := map_ok hok
      cases heq
      exact ⟨_, (renewLease_ok hrenewed).2.held rfl hholds.toLeased, .renewLease⟩
  | recordStage _ stage durationMs details =>
      cases hlease
      obtain ⟨stored, hok, heq⟩ := map_ok hok
      cases heq
      obtain ⟨-, events, rfl⟩ := recordStage_ok hok
      exact ⟨row, hholds.found, .recordStage⟩
  | recordReportedStages _ metadata =>
      cases hlease
      obtain ⟨stored, hok, heq⟩ := map_ok hok
      cases heq
      obtain ⟨-, events, rfl⟩ := recordReportedStages_ok hok
      exact ⟨row, hholds.found, .recordReportedStages⟩
  | markSubmitting _ =>
      cases hlease
      obtain ⟨stored, hok, heq⟩ := map_ok hok
      cases heq
      obtain ⟨other, hother, hcase⟩ := markSubmitting_ok hok
      obtain rfl := hunique hother.toLeased
      obtain ⟨hstate, rfl⟩ | ⟨hstate, hchanges⟩ := hcase
      · exact ⟨other, hholds.found, .markCanceled hstate⟩
      · exact ⟨_, hchanges.held rfl hholds.toLeased, .markSubmitting hstate⟩
  | recordSubmission _ targetHandle targetState metadata =>
      cases hlease
      obtain ⟨⟨state, stored⟩, hrecorded, heq⟩ := map_ok hok
      cases heq
      obtain ⟨other, target, hother, htarget, hstate, hchanges⟩ :=
        recordSubmission_ok hrecorded
      obtain rfl := hunique hother.toLeased
      exact ⟨_, hchanges.held rfl hholds.toLeased, .recordSubmission htarget hstate⟩
  | recordTargetStatus _ targetState metadata =>
      cases hlease
      obtain ⟨stored, hok, heq⟩ := map_ok hok
      cases heq
      obtain ⟨other, target, hother, htarget, hchanges⟩ := recordTargetStatus_ok hok
      obtain rfl := hunique hother.toLeased
      exact ⟨_, hchanges.held rfl hholds.toLeased, .recordTargetStatus htarget⟩
  | releaseLease _ =>
      cases hlease
      obtain ⟨stored, hok, heq⟩ := map_ok hok
      cases heq
      exact ⟨_, (releaseLease_ok hok).2.held rfl hholds.toLeased, .releaseLease⟩
  | markAttemptCanceled _ log details =>
      cases hlease
      obtain ⟨stored, hok, heq⟩ := map_ok hok
      cases heq
      exact ⟨_, (markAttemptCanceled_ok hok).2.held rfl hholds.toLeased, .markAttemptCanceled⟩
  | completeTask _ result =>
      cases hlease
      obtain ⟨stored, hok, heq⟩ := map_ok hok
      cases heq
      obtain ⟨_, _, _, rfl⟩ | ⟨_, _, _, _, _, _, _, _, _, hleased, _, _, _, _, _, _, _,
        hchanges⟩ := completeTask_ok hok
      · exact ⟨row, hholds.found, .alreadySucceeded⟩
      · exact ⟨_, hchanges.held rfl hholds.toLeased, .completeTask⟩
  | failTask _ error =>
      cases hlease
      obtain ⟨stored, hok, heq⟩ := map_ok hok
      cases heq
      obtain rfl | ⟨_, _, _, _, _, hleased, hchanges⟩ := failTask_ok hok
      · exact ⟨row, hholds.found, .tooLate⟩
      · exact ⟨_, hchanges.held rfl hholds.toLeased, .failTask⟩

end Held

/-! ## The attempt of a claim -/

/-- A lease that describes the row it was claimed for. -/
structure Db.Claimed (db : Db) (lease : TaskLease) (row : Attempt) : Prop
    extends db.Holds lease row where
  number : row.number = lease.attemptNumber
  state : row.state = lease.state
  targetHandle : row.targetHandle = lease.targetHandle
  /-- A claim opens an attempt or takes over a recoverable one. -/
  origin : row.state = .leased ∧ row.targetHandle = none ∨
    row.withoutLease.recoverable = true

theorem Attempt.recoverable_withoutLease {row : Attempt} (h : row.recoverable = true) :
    row.withoutLease.recoverable = true := by
  simp only [Attempt.recoverable, Bool.and_eq_true] at h ⊢
  exact ⟨rfl, h.2⟩

theorem Db.Claims.claimed {db db' : Db} {now : Time} {workerId : String}
    {leaseSeconds : Int} {admission : Admission} {lease : TaskLease}
    (h : db.Claims now workerId leaseSeconds admission (some lease) db') :
    lease.token = db.uuids ∧ db.uuids < db'.uuids ∧ ∃ row, db'.Claimed lease row := by
  cases h with
  | @recovered joined hjoined =>
      have hchanges := recoverAttempt_changes db now workerId leaseSeconds joined.attempt
      obtain ⟨hmem, hrecoverable, -⟩ :=
        mem_recoverableAttempts.mp (List.mem_of_find?_eq_some hjoined)
      have hfound := hchanges.attempt?_some (Table.row?_of_mem hmem)
      simp only [Effect.recover, RowUpdate.forKey_apply, Attempt.key_eq, ↓reduceIte]
        at hfound
      have horigin : joined.attempt.withoutLease.recoverable = true :=
        Attempt.recoverable_withoutLease hrecoverable
      exact ⟨rfl, Nat.lt_succ_self _, _, ⟨⟨⟨hfound, rfl, rfl, rfl⟩, rfl⟩, rfl, rfl, rfl,
        .inr horigin⟩⟩
  | @started task _ _ _ _ hlease =>
      obtain ⟨hrun, hnode, hid, htoken, hworker, hstate, hhandle, huuids, hchanges⟩ :=
        leaseTask_ok hlease
      have hnumber : lease.attemptNumber = task.attempt + 1 := by
        simp only [leaseTask] at hlease
        split at hlease
        · cases hlease
        · cases hlease
          rfl
      have hmem : freshAttempt (db.uuids + 1) db.uuids workerId now
          (leaseExpiration now leaseSeconds) task ∈ db'.taskAttempts.rows :=
        hchanges.mem_attempts.mpr (.inr List.mem_cons_self)
      have hfound : db'.attempt? lease.attemptId = some (freshAttempt (db.uuids + 1) db.uuids
          workerId now (leaseExpiration now leaseSeconds) task) := by
        rw [hid]
        exact Table.row?_of_mem hmem
      exact ⟨htoken, by grind, _, ⟨⟨⟨hfound, hrun.symm, hnode.symm, by rw [htoken]; rfl⟩,
        by rw [hworker]; rfl⟩, hnumber.symm, hstate.symm, hhandle.symm, .inl ⟨rfl, rfl⟩⟩⟩

end QhpcEcosystem
