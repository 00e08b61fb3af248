/-
The phases of a worker.  While its lease is valid, the handle and the state of
the attempt are those that the program point of the worker stands for.
-/
import QhpcEcosystem.LeaseStates
import QhpcEcosystem.WorkerInvariants

namespace QhpcEcosystem

/-- What an ending says of the attempt it ends. -/
def Ending.Matches : Ending → Attempt → Prop
  | .canceled handle, row => row.targetHandle = some handle ∧ row.state = .cancelRequested
  | .completed _, row | .failed _, row => row.targetHandle ≠ none
  | .handled _, _ => True

/-- What a program point says of the attempt under its lease.  Between
`mark_submitting` and `record_submission` the attempt has no handle; a job is
polled while the attempt has a handle and no cancellation was requested, and
canceled once one was. -/
def Pc.Matches : Pc → Attempt → Prop
  | .claimed lease, row => row.targetHandle = lease.targetHandle
  | .requested work, row => row.targetHandle = work.lease.targetHandle
  | .withdrawn _, row => row.targetHandle = none ∧ row.state = .cancelRequested
  | .marking _, row => row.targetHandle = none
  | .submit _, row | .submitting _, row | .submitted _ _ _, row | .recording _ _, row =>
      row.targetHandle = none ∧ (row.state = .submitting ∨ row.state = .cancelRequested)
  | .poll _ handle, row | .polled _ handle _ _, row | .observing _ handle _, row =>
      row.targetHandle = some handle ∧ row.state ≠ .cancelRequested
  | .collect _ handle, row => row.targetHandle = some handle
  | .collected _ _ _, row | .reporting _ _, row | .release _, row => row.targetHandle ≠ none
  | .cancel _ handle, row | .cancelReturned _ handle _, row =>
      row.targetHandle = some handle ∧ row.state = .cancelRequested
  | .cancelRaised _ _ _, row => row.targetHandle ≠ none ∧ row.state = .cancelRequested
  | .finalize _ ending, row | .finalizeRaised _ ending _ _, row | .finish _ ending, row =>
      ending.Matches row
  | .idle, _ | .requesting _, _ | .execute _, _ | .complete _ _, _ | .fail _ _, _ => True

namespace Pc

variable {row : Attempt}

theorem matches_afterState {work : Work}
    (h : row.targetHandle = work.lease.targetHandle) :
    (afterState work row.state).Matches row := by
  obtain ⟨handle, hhandle, ⟨hstate, heq⟩ | ⟨hstate, heq⟩⟩ |
      ⟨hhandle, ⟨hstate, heq⟩ | ⟨hstate, heq⟩⟩ := afterState_cases work row.state <;>
    rw [heq] <;> rw [hhandle] at h
  · exact ⟨h, hstate⟩
  · exact ⟨h, hstate⟩
  · exact ⟨h, hstate⟩
  · exact h

theorem matches_afterSubmission {work : Work} {submission : TargetSubmission}
    (h : row.targetHandle = some submission.handle) :
    (afterSubmission work submission row.state).Matches row := by
  have hsome : row.targetHandle ≠ none := by simp [h]
  obtain ⟨hstate, heq⟩ | ⟨-, heq⟩ | ⟨-, _, heq⟩ | heq :=
    afterSubmission_cases work submission row.state <;> rw [heq]
  · exact ⟨h, hstate⟩
  · exact h
  · exact hsome
  · exact hsome

theorem matches_afterStatus {work : Work} {handle : String} {status : TargetStatus}
    (h : row.targetHandle = some handle) : (afterStatus work handle status).Matches row := by
  have hsome : row.targetHandle ≠ none := by simp [h]
  obtain ⟨-, heq⟩ | ⟨-, _, heq⟩ | heq := afterStatus_cases work handle status <;> rw [heq]
  · exact h
  · exact hsome
  · exact hsome

/-- The cancellation of the run leaves the phases before the handle as they
are. -/
theorem matches_cancel {pc : Pc} (h : pc.Matches row) (hhandle : row.targetHandle = none) :
    pc.Matches { row with state := .cancelRequested } := by
  cases pc with
  | withdrawn work => exact ⟨hhandle, rfl⟩
  | submit work => exact ⟨hhandle, .inr rfl⟩
  | submitting work => exact ⟨hhandle, .inr rfl⟩
  | submitted work submission elapsed => exact ⟨hhandle, .inr rfl⟩
  | recording work submission => exact ⟨hhandle, .inr rfl⟩
  | poll work handle => simp [Matches, hhandle] at h
  | polled work handle status elapsed => simp [Matches, hhandle] at h
  | observing work handle status => simp [Matches, hhandle] at h
  | cancel work handle => simp [Matches, hhandle] at h
  | cancelReturned work handle elapsed => simp [Matches, hhandle] at h
  | cancelRaised work error elapsed => simp [Matches, hhandle] at h
  | finalize work ending => cases ending <;> simp_all [Matches, Ending.Matches]
  | finalizeRaised work ending error elapsed =>
      cases ending <;> simp_all [Matches, Ending.Matches]
  | finish work ending => cases ending <;> simp_all [Matches, Ending.Matches]
  | _ => exact h

theorem matches_raised {pc : Pc} (h : pc.Matches row) (error : Exn) :
    (pc.raised error).Matches row := by
  cases pc with
  | finalizeRaised work ending _ _ => cases ending <;> trivial
  | finish work ending => cases ending <;> trivial
  | _ => trivial

theorem matches_answered {pc pc' : Pc} {elapsed : Nat} {reply : RunnerReply}
    (h : pc.Matches row) (hpc : pc.answered elapsed reply = some pc') : pc'.Matches row := by
  cases pc with
  | submitting work => cases reply <;> cases hpc <;> first | exact h | trivial
  | poll work handle => cases reply <;> cases hpc <;> first | exact h | trivial
  | collect work handle =>
      cases reply <;> cases hpc
      · trivial
      · simp only [Matches] at h ⊢
        simp [h]
  | cancel work handle =>
      cases reply <;> cases hpc
      · exact ⟨by simp [h.1], h.2⟩
      · exact h
  | finalize work ending => cases reply <;> cases hpc <;> exact h
  | execute work => cases reply <;> cases hpc <;> trivial
  | _ => cases hpc

/-- A call that returns leads to a point that matches what it did to the
attempt. -/
theorem matches_returned {profile : WorkerProfile} {pc : Pc} {now : Time}
    {operation : Operation} {reply : Reply} {row' : Attempt}
    (hcall : pc.call profile = some operation)
    (hreturns : operation.Returns now row reply row') (h : pc.Matches row)
    (htoken : row'.leaseToken ≠ none) : (pc.returned profile reply).Matches row' := by
  cases pc with
  | idle => cases hcall; cases hreturns
  | claimed lease => cases hcall; cases hreturns; exact h
  | requesting lease => cases hcall; cases hreturns; trivial
  | requested work => cases hcall; cases hreturns; exact matches_afterState h
  | withdrawn work => cases hcall; trivial
  | marking work =>
      cases hcall
      cases hreturns with
      | markSubmitting _ => exact ⟨h, .inl rfl⟩
      | markCanceled hstate => exact ⟨h, .inr hstate⟩
  | submitted work submission elapsed => cases hcall; cases hreturns; exact h
  | recording work submission =>
      cases hcall
      cases hreturns with
      | @recordSubmission _ _ _ _ _ target state _ _ =>
          exact @matches_afterSubmission ((Attempt.submit state submission.handle target
            submission.metadata now).apply row) work submission rfl
  | polled work handle status elapsed => cases hcall; cases hreturns; exact h
  | observing work handle status =>
      cases hcall
      cases hreturns with
      | recordTargetStatus _ => exact matches_afterStatus h.1
  | collected work result elapsed => cases hcall; cases hreturns; exact h
  | reporting work result => cases hcall; cases hreturns; exact h
  | cancelRaised work error elapsed => cases hcall; cases hreturns; exact h.1
  | cancelReturned work handle elapsed => cases hcall; cases hreturns; exact h
  | release work => trivial
  | finalizeRaised work ending error elapsed => cases hcall; cases hreturns; exact h
  | finish work ending => trivial
  | complete lease result => trivial
  | fail lease error => trivial
  | submit work => cases hcall
  | submitting work => cases hcall
  | poll work handle => cases hcall
  | collect work handle => cases hcall
  | cancel work handle => cases hcall
  | finalize work ending => cases hcall
  | execute work => cases hcall

/-- Only a worker without a handle or one whose job is canceled ends an attempt
as canceled. -/
theorem call_markAttemptCanceled {pc : Pc} {profile : WorkerProfile} {lease : TaskLease}
    {log : String} {details : List (String × Value)}
    (h : pc.call profile = some (.markAttemptCanceled lease log details)) :
    ∃ work, work.lease = lease ∧
      (pc = .withdrawn work ∨ ∃ handle, pc = .finish work (.canceled handle)) := by
  cases pc with
  | withdrawn work => cases h; exact ⟨work, rfl, .inl rfl⟩
  | finish work ending =>
      cases ending <;> cases h
      exact ⟨work, rfl, .inr ⟨_, rfl⟩⟩
  | _ => cases h

end Pc

namespace Workers

variable {ι : Type} [DecidableEq ι] {profile : ι → WorkerProfile}
  {guard : Workers ι → WorkerLabel ι → Prop} {s : Workers ι}

theorem heldRule_matches : HeldRule profile guard fun _ pc row => pc.Matches row where
  more h := h
  cancel _ _ _ _ hcancels h := Pc.matches_cancel h hcancels.targetHandle
  claim {_ _ worker lease row} hclaimed := by
    simp only [Pc.returned]
    cases (profile worker).kind
    · exact hclaimed.targetHandle
    · trivial
  reply _ _ hcall _ _ hreturns h _ htoken :=
    Pc.matches_returned hcall hreturns h (by simp [htoken])
  raise _ _ _ _ _ _ h := Pc.matches_raised h _
  submit h := h
  answer _ _ hpc _ _ h := Pc.matches_answered h hpc

/-- In every reachable state the attempt under a valid lease matches the program
point of its bearer. -/
theorem held_matches (h : (workerSystem profile).Reachable guard s) :
    Held Pc.Matches s.db s.pcs := heldRule_matches.reachable h

end Workers

namespace Workers

variable {ι : Type} [DecidableEq ι] {profile : ι → WorkerProfile}
  {guard : Workers ι → WorkerLabel ι → Prop} {s : Workers ι}

/-- Workers end an attempt as canceled only after its cancellation was
requested. -/
theorem requested_of_markAttemptCanceled (h : (workerSystem profile).Reachable guard s)
    {lease : TaskLease} {log : String} {details : List (String × Value)}
    (hcaller : (Operation.markAttemptCanceled lease log details).isClient = true ∨ ∃ worker,
      (s.pcs worker).call (profile worker) = some (.markAttemptCanceled lease log details))
    {row : Attempt} (hholds : s.db.Holds lease row) : row.state = .cancelRequested := by
  obtain ⟨worker, hworker⟩ := hcaller.resolve_left (by simp [Operation.isClient])
  have hrow := Table.mem_of_row? hholds.found
  obtain ⟨work, rfl, hpc | ⟨handle, hpc⟩⟩ := Pc.call_markAttemptCanceled hworker
  · have hmatches := held_matches h worker work.lease (by rw [hpc]; rfl) row hrow hholds.token
    rw [hpc] at hmatches
    exact hmatches.2
  · have hmatches := held_matches h worker work.lease (by rw [hpc]; rfl) row hrow hholds.token
    rw [hpc] at hmatches
    exact hmatches.2

end Workers

/-! ## Attempts under the workers -/

/-- The states of an attempt that workers use: a live one has a handle in the
states that follow a submission and none before. -/
structure Attempt.LeaseStates (row : Attempt) : Prop extends row.Reclaims where
  unsubmitted : row.state.live = true → row.targetHandle = none →
    row.state ∈ [.leased, .submitting, .cancelRequested]

namespace Attempt.LeaseStates

variable {row : Attempt}

/-- The sweep ends an attempt or keeps its state. -/
theorem sweep {db : Db} (h : row.LeaseStates) (hrow : row ∈ db.taskAttempts.rows)
    (now : Time) : ((db.sweepAttempt now).apply row).LeaseStates := by
  refine ⟨h.toReclaims.sweep hrow now, ?_⟩
  simp only [Db.sweepAttempt]
  split
  · next expired _ =>
      cases hexpiry : expired.expiry with
      | closeCanceled => exact fun hlive => by cases hlive
      | reopen => exact fun hlive => by cases hlive
      | keepTarget => exact h.unsubmitted
  · exact h.unsubmitted

/-- Every change keeps the states, when states are observed and leases released
after a handle is recorded. -/
theorem change {db : Db} {now : Time} {operation : Operation} {row' : Attempt}
    (h : row.LeaseStates) (hrow : row ∈ db.taskAttempts.rows) (htokens : db.Tokens)
    (hchange : db.AttemptChange now operation row row')
    (hobserve : ∀ lease state metadata, operation = .recordTargetStatus lease state metadata →
      db.Holds lease row → row.targetHandle ≠ none)
    (hrelease : ∀ lease, operation = .releaseLease lease → db.Holds lease row →
      row.targetHandle ≠ none) : row'.LeaseStates := by
  refine ⟨h.toReclaims.change hrow htokens hchange fun lease hop hholds =>
    .inl (hrelease lease hop hholds), ?_⟩
  intro hlive hnone
  have hwasLive := hchange.live htokens hlive
  cases hchange with
  | kept => exact h.unsubmitted hlive hnone
  | renewed _ => exact h.unsubmitted hlive hnone
  | marked _ _ => simp [Attempt.setState]
  | recorded _ _ => cases hnone
  | observed hholds _ => exact absurd hnone (hobserve _ _ _ rfl hholds)
  | released _ => exact h.unsubmitted hlive hnone
  | markedCanceled _ => cases hlive
  | completed _ _ _ _ => cases hlive
  | failed _ _ _ _ => cases hlive
  | @expired _ _ _ _ expired hexpired =>
      have hswept := h.sweep hrow now
      simp only [Db.sweepAttempt, hexpired] at hswept
      exact hswept.unsubmitted hlive hnone
  | recovered _ => exact (h.sweep hrow now).unsubmitted hlive hnone
  | requested _ _ _ =>
      simp only [Attempt.requestCancel]
      split <;> simp

end Attempt.LeaseStates

namespace Workers

variable {ι : Type} [DecidableEq ι] {profile : ι → WorkerProfile}
  {guard : Workers ι → WorkerLabel ι → Prop} {s : Workers ι}

/-- The attempts of a database that workers use. -/
theorem leaseStates (h : (workerSystem profile).Reachable guard s) :
    ∀ attempt ∈ s.db.taskAttempts.rows, attempt.LeaseStates := by
  refine db_invariant (fun db => ∀ attempt ∈ db.taskAttempts.rows, attempt.LeaseStates)
    (fun _ hattempt => by cases hattempt) ?_ h
  intro s label now operation hreach hinv _ _ hcaller row' hrow'
  have hmatches := held_matches hreach
  have hcall : ∀ lease, operation.lease? = some lease → ∃ worker,
      (s.pcs worker).call (profile worker) = some operation := by
    intro lease hlease
    refine hcaller.resolve_left fun hclient => ?_
    cases operation <;> cases hlease <;> cases hclient
  have hheld : ∀ (worker : ι) {lease : TaskLease} {row : Attempt},
      (s.pcs worker).lease? = some lease → s.db.Holds lease row →
      (s.pcs worker).Matches row := by
    intro worker lease row hlease hholds
    exact hmatches worker lease hlease row (Table.mem_of_row? hholds.found) hholds.token
  obtain ⟨row, hrow, -, hchange⟩ | hadded :=
    (operation.transition now s.db).attemptChanges.new row' hrow'
  · refine (hinv row hrow).change hrow (tokens hreach) hchange ?_ ?_
    · rintro lease state metadata rfl hholds
      obtain ⟨worker, hworker⟩ := hcall lease rfl
      obtain ⟨work, handle, status, hpc, rfl⟩ := Pc.call_recordTargetStatus hworker
      have := hheld worker (by rw [hpc]; rfl) hholds
      rw [hpc] at this
      simp [this.1]
    · rintro lease rfl hholds
      obtain ⟨worker, hworker⟩ := hcall lease rfl
      obtain ⟨work, hpc, rfl⟩ := Pc.call_releaseLease hworker
      have := hheld worker (by rw [hpc]; rfl) hholds
      rwa [hpc] at this
  · cases hadded with
    | started _ =>
        exact ⟨.fresh _ _ _ _ _ _, fun _ _ => by simp [freshAttempt]⟩

end Workers

end QhpcEcosystem
