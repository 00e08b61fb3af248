/-
The jobs of failed attempts.  The exception handler of the asynchronous worker
ends the attempt whatever was raised, so a job is dropped exactly when a status
query or the bookkeeping of the worker raises while the job may still run.
-/
import QhpcEcosystem.SubmissionIntent

namespace QhpcEcosystem

/-- The record tells that the target will not run the job of the attempt any
more. -/
def CallRecord.settles (attemptId : Uuid) : CallRecord → Bool
  | .targetReported reported state =>
      reported = attemptId && state ∈ ["succeeded", "failed", "canceled"]
  | .cancelReturned canceled => canceled = attemptId
  | .intent _ _ _ | .submitStarted _ _ => false

/-- A result has reported the job of the attempt terminal, or its cancellation
has returned. -/
def settled (records : List CallRecord) (attemptId : Uuid) : Bool :=
  records.any (CallRecord.settles attemptId)

theorem settled_append {records : List CallRecord} (added : List CallRecord)
    {attemptId : Uuid} (h : settled records attemptId = true) :
    settled (records ++ added) attemptId = true := by
  simp only [settled, List.any_append, Bool.or_eq_true] at h ⊢
  exact .inl h

theorem settled_of_reported {records : List CallRecord} {attemptId : Uuid} {state : String}
    (h : .targetReported attemptId state ∈ records)
    (hstate : state = "succeeded" ∨ state = "failed" ∨ state = "canceled") :
    settled records attemptId = true := by
  refine List.any_eq_true.mpr ⟨_, h, ?_⟩
  simpa [CallRecord.settles] using hstate

section Calls

variable {db : Db} {lease : TaskLease} {row : Attempt} (hholds : db.Holds lease row)

include hholds

theorem recordStage_isOk (now : Time) {stage : String} (hstage : isIdentifier stage = true)
    (elapsed : Nat) (details : List (String × Value)) :
    ∃ reply db', perform db now (.recordStage lease stage elapsed details) =
      .ok (reply, db') := by
  have hnegative : ¬ (elapsed : Int) < 0 := by omega
  simp only [perform, recordStage, hstage, Bool.true_eq_false, ↓reduceIte,
    assertLease_eq_ok.mpr hholds, bind, Except.bind, hnegative]
  exact ⟨_, _, rfl⟩

theorem attemptState_isOk (now : Time) :
    ∃ reply db', perform db now (.attemptState lease) = .ok (reply, db') := by
  simp only [perform, attemptState, assertLease_eq_ok.mpr hholds]
  exact ⟨_, _, rfl⟩

theorem releaseLease_isOk (now : Time) :
    ∃ reply db', perform db now (.releaseLease lease) = .ok (reply, db') := by
  simp only [perform, releaseLease, assertLease_eq_ok.mpr hholds]
  exact ⟨_, _, rfl⟩

theorem recordTargetStatus_isOk (now : Time) {state : String} {target : TargetState}
    (hstate : TargetState.ofName? state = some target) (metadata : Metadata) :
    ∃ reply db', perform db now (.recordTargetStatus lease state metadata) =
      .ok (reply, db') := by
  simp only [perform, recordTargetStatus, hstate, assertLease_eq_ok.mpr hholds]
  exact ⟨_, _, rfl⟩

end Calls

/-- What a program point says of the job of the attempt: a failure is only
handled without a handle or after the job was settled. -/
def Pc.Watches (records : List CallRecord) : Pc → Attempt → Prop
  | .submitted _ submission _, row | .recording _ submission, row =>
      .targetReported row.id submission.state ∈ records
  | .polled _ _ status _, row | .observing _ _ status, row =>
      .targetReported row.id status.state ∈ records ∧
        ((TargetState.ofName? status.state).isSome = true ∨ settled records row.id = true)
  | .collect _ _, row | .collected _ _ _, row | .reporting _ _, row
  | .cancelReturned _ _ _, row => settled records row.id = true
  | .finalize _ ending, row | .finalizeRaised _ ending _ _, row | .finish _ ending, row =>
      (∃ error, ending = .handled error) ∧ row.targetHandle = none ∨
        settled records row.id = true
  | .requesting _, _ | .execute _, _ | .complete _ _, _ | .fail _ _, _ => False
  | .idle, _ | .claimed _, _ | .requested _, _ | .withdrawn _, _ | .marking _, _
  | .submit _, _ | .submitting _, _ | .poll _ _, _ | .cancel _ _, _
  | .cancelRaised _ _ _, _ | .release _, _ => True

namespace Pc

variable {records : List CallRecord} {row : Attempt}

theorem watches_append {pc : Pc} (added : List CallRecord) (h : pc.Watches records row) :
    pc.Watches (records ++ added) row := by
  cases pc with
  | submitted work submission elapsed => exact List.mem_append_left _ h
  | recording work submission => exact List.mem_append_left _ h
  | polled work handle status elapsed =>
      exact ⟨List.mem_append_left _ h.1, h.2.imp_right (settled_append added)⟩
  | observing work handle status =>
      exact ⟨List.mem_append_left _ h.1, h.2.imp_right (settled_append added)⟩
  | collect work handle => exact settled_append added h
  | collected work result elapsed => exact settled_append added h
  | reporting work result => exact settled_append added h
  | cancelReturned work handle elapsed => exact settled_append added h
  | finalize work ending => exact h.imp_right (settled_append added)
  | finalizeRaised work ending error elapsed => exact h.imp_right (settled_append added)
  | finish work ending => exact h.imp_right (settled_append added)
  | _ => exact h

theorem watches_cancel {pc : Pc} (h : pc.Watches records row) :
    pc.Watches records { row with state := .cancelRequested } := by
  cases pc <;> exact h

end Pc

namespace Workers

variable {ι : Type} [DecidableEq ι] {profile : ι → WorkerProfile} {s s' : Workers ι}
  {label : WorkerLabel ι}

/-- The worker holds an attempt whose job may still run. -/
def holdsJob (s : Workers ι) (worker : ι) : Bool :=
  match (s.pcs worker).lease? with
  | none => false
  | some lease =>
      match assertLease s.db lease with
      | .ok row => row.targetHandle.isSome && !settled s.records row.id
      | .error _ => false

/-- A poll that raises or answers with a state that is not admitted. -/
def pollFails : Pc → RunnerReply → Bool
  | .poll _ _, .raised _ => true
  | .poll _ _, .status status => (TargetState.ofName? status.state).isNone
  | _, _ => false

/-- The exception handler of `run_once` ends the attempt on an exception here:
`task_request` stands outside of it. -/
def handles : Pc → Bool
  | .claimed _ => false
  | _ => true

/-- Neither a poll nor a call of the engine fails for a worker while the job of
its attempt may still run. -/
def watchesJobs (s : Workers ι) : WorkerLabel ι → Bool
  | .engine worker _ (some _) => !(handles (s.pcs worker) && s.holdsJob worker)
  | .runner worker _ reply => !(pollFails (s.pcs worker) reply && s.holdsJob worker)
  | _ => true

omit [DecidableEq ι] in
theorem holdsJob_of_holds {worker : ι} {lease : TaskLease} {row : Attempt}
    (hlease : (s.pcs worker).lease? = some lease) (hholds : s.db.Holds lease row)
    (hhandle : row.targetHandle ≠ none) (hopen : settled s.records row.id ≠ true) :
    s.holdsJob worker = true := by
  simp only [holdsJob, hlease, assertLease_eq_ok.mpr hholds, Bool.and_eq_true,
    Bool.not_eq_true']
  exact ⟨Option.isSome_iff_ne_none.mpr hhandle, by simpa using hopen⟩

omit [DecidableEq ι] in
/-- A call of the engine does not raise while the job may still run. -/
theorem call_isOk {worker : ι} {lease : TaskLease} {row : Attempt} {operation : Operation}
    (hcall : (s.pcs worker).call (profile worker) = some operation)
    (hlease : (s.pcs worker).lease? = some lease) (hholds : s.db.Holds lease row)
    (hmatches : (s.pcs worker).Matches row)
    (hwatches : (s.pcs worker).Watches s.records row)
    (hhandle : row.targetHandle ≠ none) (hopen : settled s.records row.id ≠ true)
    (hhandles : handles (s.pcs worker) = true) (now : Time) :
    ∃ reply db', perform s.db now operation = .ok (reply, db') := by
  cases hpc : s.pcs worker <;> rw [hpc] at hcall hlease hmatches hwatches hhandles <;>
    simp only [Pc.Watches] at hwatches
  case idle => cases hlease
  case claimed held => cases hhandles
  case requested work =>
      cases hcall; cases hlease
      exact attemptState_isOk hholds now
  case withdrawn work => exact absurd hmatches.1 hhandle
  case marking work => exact absurd hmatches hhandle
  case submit work => exact absurd hmatches.1 hhandle
  case submitting work => exact absurd hmatches.1 hhandle
  case submitted work submission elapsed => exact absurd hmatches.1 hhandle
  case recording work submission => exact absurd hmatches.1 hhandle
  case poll work handle => cases hcall
  case polled work handle status elapsed =>
      cases hcall; cases hlease
      exact recordStage_isOk hholds now (by decide) elapsed []
  case observing work handle status =>
      cases hcall; cases hlease
      obtain ⟨target, htarget⟩ := Option.isSome_iff_exists.mp (hwatches.2.resolve_right hopen)
      exact recordTargetStatus_isOk hholds now htarget status.metadata
  case collect work handle => cases hcall
  case collected work result elapsed => exact absurd hwatches hopen
  case reporting work result => exact absurd hwatches hopen
  case cancel work handle => cases hcall
  case cancelRaised work error elapsed =>
      cases hcall; cases hlease
      exact recordStage_isOk hholds now (by decide) elapsed _
  case cancelReturned work handle elapsed => exact absurd hwatches hopen
  case release work =>
      cases hcall; cases hlease
      exact releaseLease_isOk hholds now
  case finalize work ending => cases hcall
  case finalizeRaised work ending error elapsed =>
      rcases hwatches with ⟨-, hnone⟩ | hsettled
      · exact absurd hnone hhandle
      · exact absurd hsettled hopen
  case finish work ending =>
      rcases hwatches with ⟨-, hnone⟩ | hsettled
      · exact absurd hnone hhandle
      · exact absurd hsettled hopen

/-- An exception is handled without a handle or after the job was settled. -/
theorem watches_raised {pc : Pc} {records : List CallRecord} {row : Attempt} {error : Exn}
    (h : pc.Watches records row)
    (hharmless : handles pc = true → row.targetHandle = none ∨ settled records row.id = true) :
    (pc.raised error).Watches records row := by
  have hhandled : handles pc = true → ∀ work,
      (Pc.finalize work (.handled error)).Watches records row := fun hpc work =>
    (hharmless hpc).imp_left fun hnone => ⟨⟨error, rfl⟩, hnone⟩
  cases pc with
  | idle => trivial
  | claimed lease => trivial
  | requesting lease => cases h
  | execute work => cases h
  | complete lease result => cases h
  | fail lease error => cases h
  | finalizeRaised work ending _ _ =>
      cases ending <;> first | trivial | exact hhandled rfl work
  | finish work ending =>
      cases ending <;> first | trivial | exact hhandled rfl work
  | requested work => exact hhandled rfl work
  | withdrawn work => exact hhandled rfl work
  | marking work => exact hhandled rfl work
  | submit work => exact hhandled rfl work
  | submitting work => exact hhandled rfl work
  | submitted work submission elapsed => exact hhandled rfl work
  | recording work submission => exact hhandled rfl work
  | poll work handle => exact hhandled rfl work
  | polled work handle status elapsed => exact hhandled rfl work
  | observing work handle status => exact hhandled rfl work
  | collect work handle => exact hhandled rfl work
  | collected work result elapsed => exact hhandled rfl work
  | reporting work result => exact hhandled rfl work
  | cancel work handle => exact hhandled rfl work
  | cancelRaised work error elapsed => exact hhandled rfl work
  | cancelReturned work handle elapsed => exact hhandled rfl work
  | release work => exact hhandled rfl work
  | finalize work ending => exact hhandled rfl work

/-- A job that was reported terminal or whose cancellation returned is settled;
a call that returns keeps what its point says of the job. -/
theorem watches_returned {pc : Pc} {records : List CallRecord} {kind : WorkerProfile}
    {now : Time} {operation : Operation} {reply : Reply} {row row' : Attempt}
    (hcall : pc.call kind = some operation) (hreturns : operation.Returns now row reply row')
    (h : pc.Watches records row) : (pc.returned kind reply).Watches records row' := by
  cases pc with
  | idle => cases hcall; cases hreturns
  | claimed lease => cases hcall; cases hreturns; trivial
  | requesting lease => cases h
  | execute work => cases h
  | complete lease result => cases h
  | fail lease error => cases h
  | requested work =>
      cases hcall
      cases hreturns
      obtain ⟨_, -, ⟨-, heq⟩ | ⟨-, heq⟩⟩ | ⟨-, ⟨-, heq⟩ | ⟨-, heq⟩⟩ :=
        Pc.afterState_cases work row.state <;>
        · simp only [Pc.returned, heq]
          trivial
  | withdrawn work => trivial
  | marking work => trivial
  | submitted work submission elapsed => cases hcall; cases hreturns; exact h
  | recording work submission =>
      cases hcall
      cases hreturns with
      | @recordSubmission _ _ _ _ _ target state _ _ =>
          simp only [Pc.returned]
          obtain ⟨-, heq⟩ | ⟨hstate, heq⟩ | ⟨hstate, _, heq⟩ | heq :=
            Pc.afterSubmission_cases work submission state <;> rw [heq]
          · trivial
          · exact settled_of_reported h (.inl hstate)
          · exact .inr (settled_of_reported h (.inr hstate))
          · trivial
  | polled work handle status elapsed => cases hcall; cases hreturns; exact h
  | observing work handle status =>
      cases hcall
      cases hreturns with
      | recordTargetStatus _ =>
          simp only [Pc.returned]
          obtain ⟨hstate, heq⟩ | ⟨hstate, _, heq⟩ | heq :=
            Pc.afterStatus_cases work handle status <;> rw [heq]
          · exact settled_of_reported h.1 (.inl hstate)
          · exact .inr (settled_of_reported h.1 (.inr hstate))
          · trivial
  | collected work result elapsed => cases hcall; cases hreturns; exact h
  | reporting work result => cases hcall; cases hreturns; exact .inr h
  | cancelRaised work error elapsed => trivial
  | cancelReturned work handle elapsed => cases hcall; cases hreturns; exact .inr h
  | release work => trivial
  | finalizeRaised work ending error elapsed => cases hcall; cases hreturns; exact h
  | finish work ending => trivial
  | submit work => cases hcall
  | submitting work => cases hcall
  | poll work handle => cases hcall
  | collect work handle => cases hcall
  | cancel work handle => cases hcall
  | finalize work ending => cases hcall

theorem heldRule_watches (hasync : ∀ worker, (profile worker).kind = .async) :
    HeldRule profile (fun s label => s.watchesJobs label = true) Pc.Watches where
  more h := Pc.watches_append _ h
  cancel _ _ _ _ _ h := Pc.watches_cancel h
  claim {_ _ worker _ _} _ := by
    simp only [Pc.returned, hasync worker]
    trivial
  reply _ _ hcall _ _ hreturns h _ _ :=
    Pc.watches_append _ (watches_returned hcall hreturns h)
  raise {s worker now fault operation lease error row} hreach hguard hcall herror hlease hholds
      h := by
    have hmatches := held_matches hreach worker lease hlease row
      (Table.mem_of_row? hholds.found) hholds.token
    refine watches_raised h fun hhandles => ?_
    by_contra hrisk
    obtain ⟨hhandle, hopen⟩ := not_or.mp hrisk
    rcases herror with rfl | ⟨-, herror⟩
    · simp [watchesJobs, hhandles, holdsJob_of_holds hlease hholds hhandle hopen] at hguard
    · obtain ⟨reply, db', hok⟩ :=
        call_isOk hcall hlease hholds hmatches h hhandle hopen hhandles now
      rw [hok] at herror
      cases herror
  submit _ := trivial
  answer {s worker elapsed reply lease pc row} hreach hguard hpc hlease hholds h := by
    have hmatches := held_matches hreach worker lease hlease row
      (Table.mem_of_row? hholds.found) hholds.token
    have hid := Db.id_of_attempt? hholds.found
    have hjob := holdsJob_of_holds (s := s) hlease hholds
    simp only [watchesJobs, Bool.not_eq_true', Bool.and_eq_false_iff] at hguard
    cases hcurrent : s.pcs worker with
    | submitting work =>
        rw [hcurrent] at hpc hlease hmatches
        cases hlease
        cases reply <;> cases hpc
        · exact .inl ⟨⟨_, rfl⟩, hmatches.1⟩
        · simp [Pc.Watches, Pc.record, hid]
    | poll work handle =>
        rw [hcurrent] at hpc hlease hmatches hguard
        have hhandle : row.targetHandle ≠ none := by simp [hmatches.1]
        have hfailing : pollFails (.poll work handle) reply = true →
            settled s.records row.id = true := by
          intro hfails
          by_contra hopen
          simp [hfails, hjob hhandle hopen] at hguard
        cases hlease
        cases reply <;> cases hpc
        · exact .inr (settled_append _ (hfailing rfl))
        · next status =>
            refine ⟨by simp [Pc.record, hid], ?_⟩
            by_cases hstate : (TargetState.ofName? status.state).isSome = true
            · exact .inl hstate
            · exact .inr (settled_append _ (hfailing (by simpa [pollFails] using hstate)))
    | collect work handle =>
        rw [hcurrent] at hpc h
        cases reply <;> cases hpc
        · exact .inr (settled_append _ h)
        · exact settled_append _ h
    | cancel work handle =>
        rw [hcurrent] at hpc hlease
        cases hlease
        cases reply <;> cases hpc
        · trivial
        · simp [Pc.Watches, Pc.record, settled, CallRecord.settles, hid]
    | finalize work ending =>
        rw [hcurrent] at hpc h
        cases reply <;> cases hpc <;> exact h.imp_right (settled_append _)
    | execute work => rw [hcurrent] at h; cases h
    | _ => rw [hcurrent] at hpc; cases hpc

/-! ## Failed attempts -/

theorem call_failTask {pc : Pc} {kind : WorkerProfile} {lease : TaskLease} {error : Exn}
    (h : pc.call kind = some (.failTask lease error)) :
    (∃ work ending, work.lease = lease ∧ pc = .finish work ending) ∨ pc = .fail lease error := by
  cases pc with
  | finish work ending =>
      cases ending <;> cases h
      · exact .inl ⟨work, _, rfl, rfl⟩
      · exact .inl ⟨work, _, rfl, rfl⟩
  | fail held _ =>
      cases h
      exact .inr rfl
  | _ => cases h

/-- A failed attempt with a handle has left no job that may still run. -/
def FailuresSettled (db : Db) (records : List CallRecord) : Prop :=
  ∀ attempt ∈ db.taskAttempts.rows, attempt.state = .failed → attempt.targetHandle ≠ none →
    settled records attempt.id = true

/-- An attempt fails by `fail_task` alone. -/
theorem failed_of_change {db : Db} {now : Time} {operation : Operation} {row row' : Attempt}
    (htokens : db.Tokens) (hchange : db.AttemptChange now operation row row')
    (hfailed : row'.state = .failed) :
    row.state = .failed ∧ row'.targetHandle = row.targetHandle ∨
      ∃ lease error, operation = .failTask lease error ∧ db.Leased lease row ∧
        row'.targetHandle = row.targetHandle := by
  have hsweep : ∀ expired : ExpiredLease,
      ((expired.expiry.attemptUpdate now).apply row).state = .failed →
      row.state = .failed ∧
        ((expired.expiry.attemptUpdate now).apply row).targetHandle = row.targetHandle := by
    intro expired h
    cases hexpiry : expired.expiry <;> rw [hexpiry] at h
    · cases h
    · exact ⟨h, rfl⟩
    · cases h
  cases hchange with
  | kept => exact .inl ⟨hfailed, rfl⟩
  | renewed _ => exact .inl ⟨hfailed, rfl⟩
  | marked _ _ => cases hfailed
  | @recorded _ _ _ _ _ target _ _ =>
      simp only [Attempt.submit] at hfailed
      split at hfailed
      · cases hfailed
      · cases target <;> cases hfailed
  | @observed _ _ _ _ target hholds _ =>
      have hlive := htokens.held_live hholds.toLeased
      simp only [Attempt.observe] at hfailed
      cases target <;> simp only [observedState] at hfailed <;>
        first | cases hfailed | simp [hfailed, AttemptState.live] at hlive
  | released _ => exact .inl ⟨hfailed, rfl⟩
  | markedCanceled _ => cases hfailed
  | completed _ _ _ _ => cases hfailed
  | failed _ _ _ hleased => exact .inr ⟨_, _, rfl, hleased, rfl⟩
  | @expired _ _ _ _ expired _ => exact .inl (hsweep expired hfailed)
  | recovered hrecoverable =>
      have hlive := Attempt.live_of_recoverable _ hrecoverable
      have hfailed : ((db.sweepAttempt now).apply row).state = .failed := hfailed
      simp [hfailed, AttemptState.live] at hlive
  | requested _ _ _ =>
      simp only [Attempt.requestCancel] at hfailed ⊢
      split at hfailed <;> cases hfailed

theorem FailuresSettled.step (hasync : ∀ worker, (profile worker).kind = .async)
    (hreach : (workerSystem profile).Reachable (fun s label => s.watchesJobs label = true) s)
    (h : FailuresSettled s.db s.records) (hstep : Step profile s label s') :
    FailuresSettled s'.db s'.records := by
  have hwatches := (heldRule_watches hasync).reachable hreach
  have htokens := tokens hreach
  have hrecords : ∀ added, FailuresSettled s.db (s.records ++ added) :=
    fun added attempt hattempt hfailed hhandle =>
      settled_append added (h attempt hattempt hfailed hhandle)
  cases hstep with
  | @client operation now hclient =>
      intro attempt hattempt hfailed hhandle
      obtain ⟨row, hrow, hid, hchange⟩ | hadded :=
        (operation.transition now s.db).attemptChanges.new attempt hattempt
      · rcases failed_of_change htokens hchange hfailed with ⟨hwas, hkept⟩ | ⟨_, _, rfl, -⟩
        · rw [hid]
          exact h row hrow hwas (by rwa [← hkept])
        · cases hclient
      · cases hadded; cases hfailed
  | @replied worker now operation reply db hcall hok =>
      intro attempt hattempt hfailed hhandle
      refine settled_append _ ?_
      obtain ⟨row, hrow, hid, hchange⟩ | hadded :=
        (transition_of_perform hok).attemptChanges.new attempt hattempt
      · rw [hid]
        rcases failed_of_change htokens hchange hfailed with
          ⟨hwas, hkept⟩ | ⟨lease, error, rfl, hleased, hkept⟩
        · exact h row hrow hwas (by rwa [← hkept])
        · -- the exception handler or a terminal status has ended the attempt
          rw [hkept] at hhandle
          rcases call_failTask hcall with ⟨work, ending, rfl, hpc⟩ | hpc
          · have hfinish := hwatches worker work.lease (by rw [hpc]; rfl) row hrow
              hleased.token
            rw [hpc] at hfinish
            rcases hfinish with ⟨-, hnone⟩ | hsettled
            · exact absurd hnone hhandle
            · exact hsettled
          · have hfail := hwatches worker lease (by rw [hpc]; rfl) row hrow hleased.token
            rw [hpc] at hfail
            cases hfail
      · cases hadded; cases hfailed
  | raised _ _ => exact h
  | submit _ => exact hrecords _
  | runner _ => exact hrecords _
  | crash => exact h

/-- A job that is submitted and recorded; its lease is released and claimed
again. -/
def submittedJob : List (WorkerLabel (Fin 2)) :=
  clientSteps sampleSubmission ++ engineSteps 0 1 4 ++ [.submit 0, .runner 0 0 sampleJob] ++
    engineSteps 0 5 6

/-- The target reports that the job has failed. -/
def reportedJob : List (WorkerLabel (Fin 2)) :=
  submittedJob ++ [.runner 0 0 (.status { state := "failed" })] ++ engineSteps 0 11 2 ++
    [.runner 0 0 .done] ++ engineSteps 0 13 1

/-- The query of the status raises once. -/
def droppedJob : List (WorkerLabel (Fin 2)) :=
  submittedJob ++ [.runner 0 0 (.raised (targetExecutionError "squeue failed")),
    .runner 0 0 .done] ++ engineSteps 0 11 1

end Workers

end QhpcEcosystem
