/-
The submission intent.  `mark_submitting` returns without a word when the
attempt is to be canceled, and the worker goes on to submit.  Nothing is
submitted after a cancellation exactly while none falls between the decision of
a worker and its submission intent.
-/
import QhpcEcosystem.RunCancellation
import Mathlib.Data.Fintype.Basic

namespace QhpcEcosystem

namespace Pc

variable {pc pc' : Pc} {work : Work}

/-- A worker decides to submit when it reads a state that is not
cancel_requested. -/
theorem returned_marking {profile : WorkerProfile} {reply : Reply}
    (h : pc.returned profile reply = .marking work) :
    ∃ held state, pc = .requested held ∧ reply = .state state ∧
      state ≠ .cancelRequested := by
  cases pc with
  | idle => simp only [returned] at h; split at h <;> cases h
  | claimed lease => simp only [returned] at h; split at h <;> cases h
  | requesting lease => simp only [returned] at h; split at h <;> cases h
  | requested held =>
      simp only [returned] at h
      split at h
      · next state =>
          refine ⟨held, state, rfl, rfl, ?_⟩
          obtain ⟨_, -, ⟨-, heq⟩ | ⟨-, heq⟩⟩ | ⟨-, ⟨-, heq⟩ | ⟨hstate, -⟩⟩ :=
            afterState_cases held state
          · rw [heq] at h; cases h
          · rw [heq] at h; cases h
          · rw [heq] at h; cases h
          · exact hstate
      · cases h
  | recording held submission =>
      simp only [returned] at h
      split at h
      · next state =>
          obtain ⟨-, heq⟩ | ⟨-, heq⟩ | ⟨-, _, heq⟩ | heq :=
            afterSubmission_cases held submission state <;> rw [heq] at h <;> cases h
      · cases h
  | observing held handle status =>
      simp only [returned] at h
      obtain ⟨-, heq⟩ | ⟨-, _, heq⟩ | heq := afterStatus_cases held handle status <;>
        rw [heq] at h <;> cases h
  | _ => cases h

/-- A worker submits when `mark_submitting` has returned. -/
theorem returned_submit {profile : WorkerProfile} {operation : Operation} {reply : Reply}
    (hcall : pc.call profile = some operation)
    (h : pc.returned profile reply = .submit work) : pc = .marking work := by
  cases pc with
  | marking held => cases h; rfl
  | submit held => cases hcall
  | idle => simp only [returned] at h; split at h <;> cases h
  | claimed lease => simp only [returned] at h; split at h <;> cases h
  | requesting lease => simp only [returned] at h; split at h <;> cases h
  | requested held =>
      simp only [returned] at h
      split at h
      · next state =>
          obtain ⟨_, -, ⟨-, heq⟩ | ⟨-, heq⟩⟩ | ⟨-, ⟨-, heq⟩ | ⟨-, heq⟩⟩ :=
            afterState_cases held state <;> rw [heq] at h <;> cases h
      · cases h
  | recording held submission =>
      simp only [returned] at h
      split at h
      · next state =>
          obtain ⟨-, heq⟩ | ⟨-, heq⟩ | ⟨-, _, heq⟩ | heq :=
            afterSubmission_cases held submission state <;> rw [heq] at h <;> cases h
      · cases h
  | observing held handle status =>
      simp only [returned] at h
      obtain ⟨-, heq⟩ | ⟨-, _, heq⟩ | heq := afterStatus_cases held handle status <;>
        rw [heq] at h <;> cases h
  | _ => cases h

theorem raised_ne_marking {error : Exn} : pc.raised error ≠ .marking work := by
  intro h
  cases pc with
  | finalizeRaised work ending _ _ => cases ending <;> cases h
  | finish work ending => cases ending <;> cases h
  | _ => cases h

theorem raised_ne_submit {error : Exn} : pc.raised error ≠ .submit work := by
  intro h
  cases pc with
  | finalizeRaised work ending _ _ => cases ending <;> cases h
  | finish work ending => cases ending <;> cases h
  | _ => cases h

theorem answered_ne_marking {elapsed : Nat} {reply : RunnerReply}
    (h : pc.answered elapsed reply = some pc') : pc' ≠ .marking work := by
  rintro rfl
  cases pc <;> cases reply <;> cases h

theorem answered_ne_submit {elapsed : Nat} {reply : RunnerReply}
    (h : pc.answered elapsed reply = some pc') : pc' ≠ .submit work := by
  rintro rfl
  cases pc <;> cases reply <;> cases h

/-- A worker that has decided to submit holds no attempt that is to be
canceled. -/
def Decided (pc : Pc) (row : Attempt) : Prop :=
  ∀ work, pc = .marking work → row.state ≠ .cancelRequested

end Pc

namespace Workers

variable {ι : Type}

/-- The worker has decided to submit a leased attempt of the run, and has not
recorded its intent. -/
def decidesOn (s : Workers ι) (runId : Uuid) (worker : ι) : Bool :=
  match s.pcs worker with
  | .marking work =>
      match assertLease s.db work.lease with
      | .ok row => row.runId = runId && row.state = .leased
      | .error _ => false
  | _ => false

/-- No run that has not ended is canceled while a worker has decided to submit a
leased attempt of it. -/
def cancelsOutsideDecision (s : Workers ι) : WorkerLabel ι → Prop
  | .client (.cancelRun runId) _ =>
      (s.db.run? runId).all (fun run => run.state.terminal) = true ∨
        ∀ worker, s.decidesOn runId worker = false
  | _ => True

instance [Fintype ι] (s : Workers ι) : DecidablePred s.cancelsOutsideDecision :=
  fun label => by
    unfold cancelsOutsideDecision
    split <;> infer_instance

variable [DecidableEq ι] {profile : ι → WorkerProfile} {s s' : Workers ι}
  {label : WorkerLabel ι}

theorem heldRule_decided :
    HeldRule profile cancelsOutsideDecision fun _ pc row => pc.Decided row where
  more h := h
  cancel {s worker now lease row} hreach hguard hlease hholds hcancels h := by
    intro work hpc
    -- the attempt is leased, so the worker has decided on it
    obtain ⟨run, hrun, hopen⟩ := hcancels.run
    simp only [cancelsOutsideDecision, hrun, Option.all_some, hopen, Bool.false_eq_true,
      false_or] at hguard
    have hdecides := hguard worker
    rw [hpc] at hlease
    cases hlease
    have hstates := (leaseStates hreach row (Table.mem_of_row? hholds.found)).unsubmitted
      ((tokens hreach).held_live hholds.toLeased) hcancels.targetHandle
    have hselected := hcancels.selected
    have hne := h work hpc
    simp only [decidesOn, hpc, assertLease_eq_ok.mpr hholds] at hdecides
    simp only [Attempt.selectedForCancel] at hselected
    cases hstate : row.state <;> simp_all
  claim {_ _ worker lease row} _ := by
    intro work hpc
    simp only [Pc.returned] at hpc
    split at hpc <;> cases hpc
  reply _ _ hcall _ _ hreturns _ _ _ := by
    intro work hpc
    obtain ⟨held, state, hrequested, rfl, hstate⟩ := Pc.returned_marking hpc
    rw [hrequested] at hcall
    cases hcall
    cases hreturns
    exact hstate
  raise _ _ _ _ _ _ _ := fun _ hpc => absurd hpc Pc.raised_ne_marking
  submit _ := fun _ hpc => by cases hpc
  answer _ _ hpc _ _ _ := fun _ hmarking => absurd hmarking (Pc.answered_ne_marking hpc)

/-! ## What the intents say of their attempts -/

/-- An attempt with a submission intent: it is not leased any more, and while it
has no handle it was not canceled. -/
structure Intended (row : Attempt) : Prop where
  state : row.state ≠ .leased
  unsubmitted : row.targetHandle = none →
    row.state ∈ [.submitting, .succeeded, .failed, .abandoned]

/-- Every submission follows an intent that found no cancellation. -/
structure Intents (s : Workers ι) : Prop where
  intent : ∀ attemptId token state, .intent attemptId token state ∈ s.records →
    state ≠ .cancelRequested ∧ ∃ row, s.db.attempt? attemptId = some row ∧ Intended row
  submit : ∀ worker work, s.pcs worker = .submit work →
    ∃ state, .intent work.lease.attemptId work.lease.token state ∈ s.records
  started : ∀ attemptId token, .submitStarted attemptId token ∈ s.records →
    ∃ state, .intent attemptId token state ∈ s.records

theorem Intended.change {guard : Workers ι → WorkerLabel ι → Prop}
    (hreach : (workerSystem profile).Reachable guard s) {now : Time} {operation : Operation}
    {row row' : Attempt} (h : Intended row) (hrow : row ∈ s.db.taskAttempts.rows)
    (hcaller : operation.isClient = true ∨
      ∃ worker, (s.pcs worker).call (profile worker) = some operation)
    (hchange : s.db.AttemptChange now operation row row') : Intended row' := by
  have hmatches := held_matches hreach
  -- the sweep closes a canceled attempt only when it waits for its cancellation
  have hsweep : Intended ((s.db.sweepAttempt now).apply row) := by
    simp only [Db.sweepAttempt]
    split
    · next expired hexpired =>
        cases hexpiry : expired.expiry with
        | reopen => exact ⟨by simp [Expiry.attemptUpdate, Attempt.abandon],
            fun _ => by simp [Expiry.attemptUpdate, Attempt.abandon]⟩
        | keepTarget => exact ⟨h.state, h.unsubmitted⟩
        | closeCanceled =>
            exfalso
            obtain ⟨hattempt, task, run, htask, hrun, hstate, -, hreason⟩ :=
              expiredAttempt?_spec hrow hexpired
            unfold ExpiredLease.expiry at hexpiry
            split at hexpiry
            · next hclosed =>
                obtain ⟨hcanceled, hnone⟩ := hclosed
                have hunsubmitted := h.unsubmitted (by simpa [hattempt] using hnone)
                rcases hreason with hrunning | hrequested
                · rw [← (Db.place_of_task? htask).1] at hrun
                  exact (canceledRuns hreach task (Table.mem_of_row? htask) run hrun
                    (hstate.symm.trans hcanceled)).2 hrunning
                · simp [hrequested] at hunsubmitted
            · split at hexpiry <;> cases hexpiry
    · exact h
  cases hchange with
  | kept => exact h
  | renewed _ => exact ⟨h.state, h.unsubmitted⟩
  | marked _ _ => exact ⟨by simp [Attempt.setState], fun _ => by simp [Attempt.setState]⟩
  | @recorded _ _ _ _ _ target _ _ =>
      refine ⟨?_, fun hnone => by cases hnone⟩
      simp only [Attempt.submit]
      split
      · simp
      · cases target <;> simp [submittedState]
  | @observed lease _ _ _ target hholds _ =>
      obtain ⟨worker, hworker⟩ := hcaller.resolve_left (by simp [Operation.isClient])
      obtain ⟨work, handle, status, hpc, rfl⟩ := Pc.call_recordTargetStatus hworker
      have hobserving := hmatches worker work.lease (by rw [hpc]; rfl) row hrow hholds.token
      rw [hpc] at hobserving
      refine ⟨?_, fun hnone => ?_⟩
      · cases target <;> first | exact h.state | simp [Attempt.observe, observedState]
      · have hnone : row.targetHandle = none := hnone
        simp [hobserving.1] at hnone
  | released _ => exact ⟨h.state, h.unsubmitted⟩
  | @markedCanceled lease log details _ hholds =>
      refine ⟨by simp [Attempt.cancel], fun hnone => ?_⟩
      have hnone : row.targetHandle = none := hnone
      obtain ⟨worker, hworker⟩ := hcaller.resolve_left (by simp [Operation.isClient])
      obtain ⟨work, rfl, hpc | ⟨handle, hpc⟩⟩ := Pc.call_markAttemptCanceled hworker
      · have hwithdrawn := hmatches worker work.lease (by rw [hpc]; rfl) row hrow hholds.token
        rw [hpc] at hwithdrawn
        have := h.unsubmitted hnone
        simp [hwithdrawn.2] at this
      · have hfinish := hmatches worker work.lease (by rw [hpc]; rfl) row hrow hholds.token
        rw [hpc] at hfinish
        simp [hfinish.1] at hnone
  | completed _ _ _ _ =>
      exact ⟨by simp [Attempt.succeed], fun _ => by simp [Attempt.succeed]⟩
  | failed _ _ _ _ => exact ⟨by simp [Attempt.fail], fun _ => by simp [Attempt.fail]⟩
  | expired hexpired =>
      simp only [Db.sweepAttempt, hexpired] at hsweep
      exact hsweep
  | recovered _ => exact ⟨hsweep.state, hsweep.unsubmitted⟩
  | @requested runId _ _ _ _ hselected =>
      simp only [Attempt.requestCancel]
      split
      · next hsome =>
          refine ⟨by simp, fun hnone => ?_⟩
          have hnone : row.targetHandle = none := hnone
          simp [hnone] at hsome
      · next hnone =>
          have hunsubmitted := h.unsubmitted (by simpa using hnone)
          simp only [Attempt.selectedForCancel] at hselected
          cases hstate : row.state <;> simp_all

/-- An operation of the system keeps the attempts with an intent. -/
theorem Intended.after {guard : Workers ι → WorkerLabel ι → Prop}
    (hreach : (workerSystem profile).Reachable guard s) {now : Time} {operation : Operation}
    {db : Db} (htransition : s.db.Transition now operation db)
    (hcaller : operation.isClient = true ∨
      ∃ worker, (s.pcs worker).call (profile worker) = some operation) {attemptId : Uuid}
    (h : ∃ row, s.db.attempt? attemptId = some row ∧ Intended row) :
    ∃ row, db.attempt? attemptId = some row ∧ Intended row := by
  obtain ⟨row, hrow, hintended⟩ := h
  have hmem := Table.mem_of_row? hrow
  obtain ⟨row', hrow', hid, hchange⟩ := htransition.attemptChanges.old row hmem
  have hfound := Table.row?_of_mem hrow'
  rw [Attempt.key_eq, hid, Db.id_of_attempt? hrow] at hfound
  exact ⟨row', hfound, hintended.change hreach hmem hcaller hchange⟩

theorem mem_operation_record {operation : Operation} {db : Db} {record : CallRecord}
    (h : record ∈ operation.record db) : ∃ lease row, operation = .markSubmitting lease ∧
      db.Holds lease row ∧ record = .intent lease.attemptId lease.token row.state := by
  cases operation with
  | markSubmitting lease =>
      simp only [Operation.record] at h
      split at h
      · next row hrow =>
          exact ⟨lease, row, rfl, assertLease_eq_ok.mp hrow, List.mem_singleton.mp h⟩
      · cases h
  | _ => cases h

theorem mem_pc_record {pc : Pc} {reply : RunnerReply} {record : CallRecord}
    (h : record ∈ pc.record reply) :
    (∃ attemptId state, record = .targetReported attemptId state) ∨
      ∃ attemptId, record = .cancelReturned attemptId := by
  cases pc <;> cases reply <;> simp [Pc.record] at h <;> simp [h]

theorem Intents.step (h : s.Intents)
    (hreach : (workerSystem profile).Reachable cancelsOutsideDecision s)
    (hstep : Step profile s label s') : s'.Intents := by
  have hdecided := heldRule_decided.reachable hreach
  cases hstep with
  | @client operation now hclient =>
      exact ⟨fun attemptId token state hmem => (h.intent attemptId token state hmem).imp_right
        (Intended.after hreach (operation.transition now s.db) (.inl hclient)), h.submit,
        h.started⟩
  | @replied worker now operation reply db hcall hok =>
      have htransition := transition_of_perform hok
      refine ⟨?_, ?_, ?_⟩
      · intro attemptId token state hmem
        rcases List.mem_append.mp hmem with hmem | hmem
        · exact (h.intent attemptId token state hmem).imp_right
            (Intended.after hreach htransition (.inr ⟨worker, hcall⟩))
        · -- the attempt found by `mark_submitting` was not to be canceled
          obtain ⟨lease, row, rfl, hholds, heq⟩ := mem_operation_record hmem
          cases heq
          obtain ⟨work, hpc, rfl⟩ := Pc.call_markSubmitting hcall
          have hstate := hdecided worker work.lease (by rw [hpc]; rfl) row
            (Table.mem_of_row? hholds.found) hholds.token work hpc
          obtain ⟨row', hrow', hreturns⟩ := returns_of_perform hok rfl hholds
          refine ⟨hstate, row', hrow', ?_⟩
          cases hreturns with
          | markSubmitting _ =>
              exact ⟨by simp [Attempt.setState], fun _ => by simp [Attempt.setState]⟩
          | markCanceled hcanceled => exact absurd hcanceled hstate
      · intro other work hpc
        simp only [setPc, Function.update_apply] at hpc
        split at hpc
        · have hmarking := Pc.returned_submit hcall hpc
          rw [hmarking] at hcall
          cases hcall
          obtain ⟨stored, hstored, -⟩ := map_ok hok
          obtain ⟨row, hholds, -⟩ := markSubmitting_ok hstored
          refine ⟨row.state, List.mem_append_right _ ?_⟩
          simp [Operation.record, assertLease_eq_ok.mpr hholds]
        · exact (h.submit other work hpc).imp fun _ => List.mem_append_left _
      · intro attemptId token hmem
        rcases List.mem_append.mp hmem with hmem | hmem
        · exact (h.started attemptId token hmem).imp fun _ => List.mem_append_left _
        · obtain ⟨_, _, -, -, heq⟩ := mem_operation_record hmem
          cases heq
  | raised _ _ =>
      refine ⟨h.intent, fun other work hpc => ?_, h.started⟩
      simp only [setPc, Function.update_apply] at hpc
      split at hpc
      · exact absurd hpc Pc.raised_ne_submit
      · exact h.submit other work hpc
  | @submit worker work hpc =>
      refine ⟨?_, ?_, ?_⟩
      · intro attemptId token state hmem
        exact h.intent attemptId token state (by simpa using hmem)
      · intro other held hother
        simp only [setPc, Function.update_apply] at hother
        split at hother
        · cases hother
        · exact (h.submit other held hother).imp fun _ => List.mem_append_left _
      · intro attemptId token hmem
        rcases List.mem_append.mp hmem with hmem | hmem
        · exact (h.started attemptId token hmem).imp fun _ => List.mem_append_left _
        · cases List.mem_singleton.mp hmem
          exact (h.submit worker work hpc).imp fun _ => List.mem_append_left _
  | @runner worker elapsed reply pc hanswered =>
      have hold : ∀ {record : CallRecord}, (∀ attemptId state,
          record ≠ .targetReported attemptId state) →
          (∀ attemptId, record ≠ .cancelReturned attemptId) →
          record ∈ s.records ++ (s.pcs worker).record reply → record ∈ s.records := by
        intro record hreported hreturned hmem
        rcases List.mem_append.mp hmem with hmem | hmem
        · exact hmem
        · obtain ⟨attemptId, state, heq⟩ | ⟨attemptId, heq⟩ := mem_pc_record hmem
          · exact absurd heq (hreported attemptId state)
          · exact absurd heq (hreturned attemptId)
      refine ⟨?_, ?_, ?_⟩
      · intro attemptId token state hmem
        exact h.intent attemptId token state (hold (by simp) (by simp) hmem)
      · intro other work hpc
        simp only [setPc, Function.update_apply] at hpc
        split at hpc
        · exact absurd hpc (Pc.answered_ne_submit hanswered)
        · exact (h.submit other work hpc).imp fun _ => List.mem_append_left _
      · intro attemptId token hmem
        exact (h.started attemptId token (hold (by simp) (by simp) hmem)).imp
          fun _ => List.mem_append_left _
  | crash =>
      refine ⟨h.intent, fun other work hpc => ?_, h.started⟩
      simp only [setPc, Function.update_apply] at hpc
      split at hpc
      · cases hpc
      · exact h.submit other work hpc

theorem intents (h : (workerSystem profile).Reachable cancelsOutsideDecision s) :
    s.Intents := by
  refine h.invariant Intents (fun s hs => ?_)
    fun s label s' hreach hinv _ hstep => hinv.step hreach (step_cases hstep)
  cases hs
  exact ⟨fun _ _ _ hmem => (by cases hmem), fun _ _ hpc => (by cases hpc),
    fun _ _ hmem => (by cases hmem)⟩

/-- A submission starts under a lease whose intent found no cancellation, and an
attempt that is canceled without a handle was never submitted. -/
def SubmittedBeforeCancel (s : Workers ι) : Prop :=
  (∀ attemptId token state, .submitStarted attemptId token ∈ s.records →
    .intent attemptId token state ∈ s.records → state ≠ .cancelRequested) ∧
  ∀ attempt ∈ s.db.taskAttempts.rows, attempt.state = .canceled →
    attempt.targetHandle = none → ∀ token, .submitStarted attempt.id token ∉ s.records

/-- While no run is canceled between the decision of a worker and its intent,
nothing is submitted after a cancellation. -/
theorem submitted_before_cancel
    (h : (workerSystem profile).Reachable cancelsOutsideDecision s) :
    s.SubmittedBeforeCancel := by
  have hintents := intents h
  refine ⟨fun attemptId token state _ hmem => (hintents.intent attemptId token state hmem).1,
    fun attempt hattempt hcanceled hnone token hstarted => ?_⟩
  obtain ⟨state, hmem⟩ := hintents.started attempt.id token hstarted
  obtain ⟨-, row, hrow, hintended⟩ := hintents.intent attempt.id token state hmem
  obtain rfl : row = attempt :=
    s.db.taskAttempts.eq_of_key_eq (Table.mem_of_row? hrow) hattempt (Db.id_of_attempt? hrow)
  have := hintended.unsubmitted hnone
  simp [hcanceled] at this

/-- A run that is canceled before its worker reads the state of the attempt. -/
def canceledBeforeDecision : List (WorkerLabel (Fin 2)) :=
  clientSteps sampleSubmission ++ engineSteps 0 1 2 ++ [.client (.cancelRun 0) 3] ++
    engineSteps 0 4 2

theorem submitted_before_cancel_sample :
    let s := (workerSystem (sampleProfile .async)).after
      (fun s label => decide (s.cancelsOutsideDecision label)) {} canceledBeforeDecision
    s.db.taskAttempts.rows.map Attempt.state = [.canceled] ∧ s.SubmittedBeforeCancel := by
  intro s
  have hreach : (workerSystem (sampleProfile .async)).Reachable cancelsOutsideDecision s :=
    ((TransitionSystem.Reachable.initial rfl).after canceledBeforeDecision).weaken
      fun _ _ => of_decide_eq_true
  exact ⟨by decide, submitted_before_cancel hreach⟩

/-- A run that is canceled after its worker has decided to submit; the worker
stops while it submits, and its lease expires. -/
def canceledAfterDecision : List (WorkerLabel (Fin 2)) :=
  clientSteps sampleSubmission ++ engineSteps 0 1 3 ++ [.client (.cancelRun 0) 4] ++
    engineSteps 0 5 1 ++ [.submit 0, .crash 0] ++ engineSteps 1 400000000 1

/-- A submission can start after an intent that found the cancellation, and the
expiry of the lease then closes the attempt without a handle. -/
theorem submitted_after_cancel :
    ¬ ∀ s, (workerSystem (sampleProfile .async)).Reachable
        (fun s label => s.lifted (sampleProfile .async) noRetries label = true) s →
      s.SubmittedBeforeCancel := by
  intro h
  obtain ⟨-, hclosed⟩ := h _
    ((TransitionSystem.Reachable.initial rfl).after canceledAfterDecision)
  have hrows : (((workerSystem (sampleProfile .async)).after
      (fun s => s.lifted (sampleProfile .async) noRetries) {}
      canceledAfterDecision).db.taskAttempts.rows.map fun attempt =>
        (attempt.id, attempt.state, attempt.targetHandle)) = [(2, .canceled, none)] := by
    decide
  obtain ⟨attempt, rest, hcons, hattempt, -⟩ := List.map_eq_cons_iff.mp hrows
  simp only [Prod.mk.injEq] at hattempt
  refine hclosed attempt (by rw [hcons]; exact List.mem_cons_self) hattempt.2.1 hattempt.2.2 1 ?_
  rw [hattempt.1]
  decide

end Workers

end QhpcEcosystem
