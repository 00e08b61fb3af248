/-
The submission key of a task.  The identifier of an attempt is the key under
which its job is submitted.  Without retries an attempt that has been marked for
submission or has a target handle stays the last one of its task.
-/
import QhpcEcosystem.AttemptHistory
import QhpcEcosystem.RunCancellation

namespace QhpcEcosystem

/-- The attempt is being submitted, or its job was recorded. -/
def Attempt.Entered (row : Attempt) : Prop :=
  row.state = .submitting ∨ row.targetHandle ≠ none

/-- The sweep reopens a task only when its attempt has no target. -/
theorem ExpiredLease.attempt_of_reopen {expired : ExpiredLease} {row : Attempt}
    (hattempt : expired.attempt = some row) (h : expired.expiry = .reopen) :
    row.state ≠ .submitting ∧ row.targetHandle = none := by
  unfold ExpiredLease.expiry at h
  split at h
  · cases h
  · split at h
    · cases h
    · next htarget =>
        simpa [hattempt, and_comm] using htarget

/-- The attempt is the last one of its task, which is not pending any more; it
was not given up, and while it lives it is being submitted or has a handle. -/
structure Db.Submission (db : Db) (row : Attempt) : Prop where
  last : ∀ task, db.task? row.runId row.nodeId = some task →
    row.number = task.attempt ∧ task.state ≠ .pending
  kept : row.state ≠ .abandoned
  target : row.state.live = true → row.Entered

namespace Db.Submission

variable {db db' : Db} {now : Time} {operation : Operation} {row row' : Attempt}

/-- The sweep takes back neither a submission nor its task. -/
theorem sweep (h : db.Submission row) (hintegrity : db.Integrity) (hheld : db.RunningHeld)
    (hrow : row ∈ db.taskAttempts.rows) (now : Time) :
    (((db.sweepAttempt now).apply row).state ≠ .abandoned ∧
      (((db.sweepAttempt now).apply row).state.live = true →
        ((db.sweepAttempt now).apply row).Entered)) ∧
    ∀ task, db.task? row.runId row.nodeId = some task →
      ((db.sweepTask now).apply task).state ≠ .pending := by
  obtain ⟨task, htask, -⟩ := hintegrity.attemptTask row hrow
  obtain ⟨hnumber, hpending⟩ := h.last task htask
  have hsame : ∀ other, db.task? row.runId row.nodeId = some other → other = task := by
    intro other hother
    rw [htask] at hother
    exact (Option.some.inj hother).symm
  obtain ⟨hattempt, hsweep⟩ | ⟨expired, hexpired, hsweep, ⟨-, hattempt, hupdate⟩ | ⟨hne, -⟩⟩ :=
    hintegrity.sweep_cases now hrow htask
  · rw [hattempt]
    refine ⟨⟨h.kept, h.target⟩, fun other hother => ?_⟩
    rw [hsame other hother, hsweep]
    exact hpending
  · have hfound : db.expiredAttempt? now row = some expired := by
      simp [Db.expiredAttempt?, htask, hexpired, hattempt, Option.filter]
    have hlive := hheld.expired_live hintegrity hrow hfound
    have hreopen : expired.expiry ≠ .reopen := by
      intro hreopen
      obtain ⟨hstate, hhandle⟩ := ExpiredLease.attempt_of_reopen hattempt hreopen
      exact (h.target hlive).elim hstate fun hsome => hsome hhandle
    rw [hupdate]
    refine ⟨?_, fun other hother => ?_⟩
    · cases hexpiry : expired.expiry with
      | closeCanceled =>
          exact ⟨by simp [Expiry.attemptUpdate, Attempt.closeCanceled], fun hclosed => by
            cases hclosed⟩
      | keepTarget => exact ⟨h.kept, h.target⟩
      | reopen => exact absurd hexpiry hreopen
    · rw [hsame other hother, hsweep]
      cases hexpiry : expired.expiry with
      | closeCanceled => exact hpending
      | keepTarget => exact hpending
      | reopen => exact absurd hexpiry hreopen
  · exact absurd hnumber hne

/-- No operation gives the attempt up, and a submitted one has a handle. -/
theorem attempt (h : db.Submission row) (hintegrity : db.Integrity) (hheld : db.RunningHeld)
    (hrow : row ∈ db.taskAttempts.rows)
    (hobserve : ∀ lease state metadata, operation = .recordTargetStatus lease state metadata →
      db.Holds lease row → row.targetHandle ≠ none)
    (hchange : db.AttemptChange now operation row row') :
    row'.state ≠ .abandoned ∧ (row'.state.live = true → row'.Entered) := by
  obtain ⟨hsweep, -⟩ := h.sweep hintegrity hheld hrow now
  cases hchange with
  | kept => exact ⟨h.kept, h.target⟩
  | renewed _ => exact ⟨h.kept, h.target⟩
  | marked _ _ => exact ⟨by simp [Attempt.setState], fun _ => .inl rfl⟩
  | @recorded _ _ _ _ _ target _ _ =>
      refine ⟨?_, fun _ => .inr (by simp [Attempt.submit])⟩
      simp only [Attempt.submit]
      split
      · simp
      · cases target <;> simp [submittedState]
  | @observed lease state metadata _ target hholds _ =>
      refine ⟨?_, fun _ => .inr (hobserve _ _ _ rfl hholds)⟩
      cases target <;> first | exact h.kept | simp [Attempt.observe, observedState]
  | released _ => exact ⟨h.kept, h.target⟩
  | markedCanceled _ => exact ⟨by simp [Attempt.cancel], fun hlive => by cases hlive⟩
  | completed _ _ _ _ => exact ⟨by simp [Attempt.succeed], fun hlive => by cases hlive⟩
  | failed _ _ _ _ => exact ⟨by simp [Attempt.fail], fun hlive => by cases hlive⟩
  | expired hexpired =>
      simp only [Db.sweepAttempt, hexpired] at hsweep
      exact hsweep
  | recovered _ => exact hsweep
  | requested _ _ hselected =>
      -- an attempt in submitting is not selected
      simp only [Attempt.selectedForCancel, Bool.and_eq_true, decide_eq_true_eq,
        List.mem_cons, List.not_mem_nil, or_false] at hselected
      have hentered : row.Entered := h.target (by
        rcases hselected.2 with hstate | hstate | hstate | hstate | hstate <;>
          rw [hstate] <;> rfl)
      have hhandle : row.targetHandle ≠ none := by
        refine hentered.resolve_left fun hstate => ?_
        simp [hstate] at hselected
      simp only [Attempt.requestCancel]
      split <;> exact ⟨by simp, fun _ => .inr hhandle⟩

/-- No operation other than a retry reopens the task. -/
theorem task (h : db.Submission row) (hintegrity : db.Integrity) (hheld : db.RunningHeld)
    (hrow : row ∈ db.taskAttempts.rows)
    (hretry : ∀ runId nodeId, operation ≠ .retryTask runId nodeId) {task task' : Task}
    (htask : db.task? row.runId row.nodeId = some task)
    (hchange : db.TaskChange now operation task task') :
    row.number = task'.attempt ∧ task'.state ≠ .pending := by
  obtain ⟨hnumber, hpending⟩ := h.last task htask
  obtain ⟨-, hsweep⟩ := h.sweep hintegrity hheld hrow now
  have hswept := hsweep task htask
  have hcounter : ((db.sweepTask now).apply task).attempt = task.attempt := by
    simp only [Db.sweepTask]
    split
    · next expired _ => cases expired.expiry <;> rfl
    · rfl
  cases hchange with
  | kept => exact ⟨hnumber, hpending⟩
  | renewed _ => exact ⟨hnumber, hpending⟩
  | released _ => exact ⟨hnumber, hpending⟩
  | attemptCanceled _ _ => exact ⟨hnumber, by simp [Task.cancel]⟩
  | completed _ _ _ _ _ _ => exact ⟨hnumber, by simp [Task.succeed]⟩
  | failed _ _ _ _ => exact ⟨hnumber, by simp [Task.fail]⟩
  | expired hexpired =>
      simp only [Db.sweepTask, hexpired] at hswept hcounter
      exact ⟨hnumber.trans hcounter.symm, hswept⟩
  | recovered => exact ⟨hnumber.trans hcounter.symm, hswept⟩
  | started hready => exact absurd hready.pending hswept
  | canceled _ => exact ⟨hnumber, by simp [Task.cancel]⟩
  | retried _ _ => exact absurd rfl (hretry _ _)

/-- Without retries a submission is kept, with its handle. -/
theorem step (h : db.Submission row) (hintegrity : db.Integrity) (hheld : db.RunningHeld)
    (hrow : row ∈ db.taskAttempts.rows)
    (hobserve : ∀ lease state metadata, operation = .recordTargetStatus lease state metadata →
      db.Holds lease row → row.targetHandle ≠ none)
    (hretry : ∀ runId nodeId, operation ≠ .retryTask runId nodeId)
    (hrecord : ∀ lease handle state metadata,
      operation = .recordSubmission lease handle state metadata → db.Holds lease row →
      row.targetHandle = none) (hstep : db.Transition now operation db') :
    ∃ row' ∈ db'.taskAttempts.rows, row'.id = row.id ∧ row'.runId = row.runId ∧
      row'.nodeId = row.nodeId ∧ db'.Submission row' ∧
      (row.targetHandle ≠ none → row'.targetHandle = row.targetHandle) := by
  obtain ⟨row', hrow', hid, hchange⟩ := hstep.attemptChanges.old row hrow
  obtain ⟨-, hrun, hnode, hnumber, -⟩ := hchange.keeps
  refine ⟨row', hrow', hid, hrun, hnode, ?_, fun hsome => ?_⟩
  · obtain ⟨hkept, htarget⟩ := h.attempt hintegrity hheld hrow hobserve hchange
    refine ⟨fun task' htask' => ?_, hkept, htarget⟩
    obtain ⟨task, htask, -⟩ := hintegrity.attemptTask row hrow
    obtain ⟨after, hafter, hafterRun, hafterNode, htaskChange⟩ :=
      hstep.taskChanges.old task (Table.mem_of_row? htask)
    have hplace := Db.place_of_task? htask
    have hfound := Table.row?_of_mem hafter
    rw [Task.key_eq, hafterRun, hafterNode, hplace.1, hplace.2, ← hrun, ← hnode] at hfound
    rw [hnumber, ← Option.some.inj (hfound.symm.trans htask')]
    exact h.task hintegrity hheld hrow hretry htask htaskChange
  · rcases hchange.targetHandle with hsame | ⟨lease, handle, state, metadata, rfl, hholds, -⟩
    · exact hsame
    · exact absurd (hrecord lease handle state metadata rfl hholds) hsome

end Db.Submission

/-- An attempt enters its submission when its intent or its job is recorded. -/
theorem Db.AttemptChange.entered {db : Db} {now : Time} {operation : Operation}
    {row row' : Attempt} (h : db.AttemptChange now operation row row') (hentered : row'.Entered) :
    row.Entered ∨ row'.state ≠ .abandoned ∧ ∃ lease, db.Holds lease row ∧
      (operation = .markSubmitting lease ∨ ∃ handle state metadata,
        operation = .recordSubmission lease handle state metadata) := by
  have hsweep : ((db.sweepAttempt now).apply row).Entered → row.Entered := by
    intro hswept
    simp only [Db.sweepAttempt] at hswept
    split at hswept
    · next expired _ =>
        cases hexpiry : expired.expiry <;> rw [hexpiry] at hswept
        · exact .inr (hswept.resolve_left (by
            simp [Expiry.attemptUpdate, Attempt.closeCanceled]))
        · exact hswept
        · exact .inr (hswept.resolve_left (by simp [Expiry.attemptUpdate, Attempt.abandon]))
    · exact hswept
  cases h with
  | kept => exact .inl hentered
  | renewed _ => exact .inl hentered
  | marked hholds _ => exact .inr ⟨by simp [Attempt.setState], _, hholds, .inl rfl⟩
  | @recorded _ _ _ _ _ target hholds _ =>
      refine .inr ⟨?_, _, hholds, .inr ⟨_, _, _, rfl⟩⟩
      simp only [Attempt.submit]
      split
      · simp
      · cases target <;> simp [submittedState]
  | @observed _ _ _ _ target _ _ =>
      refine .inl (hentered.imp_left fun hstate => ?_)
      cases target <;> first | exact hstate | simp [Attempt.observe, observedState] at hstate
  | released _ => exact .inl hentered
  | markedCanceled _ => exact .inl (.inr (hentered.resolve_left (by simp [Attempt.cancel])))
  | completed _ _ _ _ => exact .inl (.inr (hentered.resolve_left (by simp [Attempt.succeed])))
  | failed _ _ _ _ => exact .inl (.inr (hentered.resolve_left (by simp [Attempt.fail])))
  | expired hexpired =>
      simp only [Db.sweepAttempt, hexpired] at hsweep
      exact .inl (hsweep hentered)
  | recovered _ => exact .inl (hsweep hentered)
  | requested _ _ _ =>
      refine .inl (.inr ?_)
      simp only [Attempt.Entered, Attempt.requestCancel] at hentered
      split at hentered <;> exact hentered.resolve_left (by simp)

/-- Every attempt that has entered its submission is the last of its task. -/
def Db.Submissions (db : Db) : Prop :=
  ∀ row ∈ db.taskAttempts.rows, row.Entered → db.Submission row

namespace Workers

variable {ι : Type} [DecidableEq ι] {profile : ι → WorkerProfile} {s s' : Workers ι}

/-- What the program points of the workers say of the operations that they
call. -/
theorem submission_step {guard : Workers ι → WorkerLabel ι → Prop}
    (hreach : (workerSystem profile).Reachable guard s) (now : Time) {operation : Operation}
    (hcaller : operation.isClient = true ∨
      ∃ worker, (s.pcs worker).call (profile worker) = some operation)
    (hretry : ∀ runId nodeId, operation ≠ .retryTask runId nodeId) {row : Attempt}
    (hrow : row ∈ s.db.taskAttempts.rows) (h : s.db.Submission row) :
    ∃ row' ∈ (operation.after now s.db).taskAttempts.rows, row'.id = row.id ∧
      row'.runId = row.runId ∧ row'.nodeId = row.nodeId ∧
      (operation.after now s.db).Submission row' ∧
      (row.targetHandle ≠ none → row'.targetHandle = row.targetHandle) := by
  have hmatches := held_matches hreach
  refine h.step (integrity hreach) (engine_runningHeld (engine_reachable hreach)) hrow ?_ hretry
    ?_ (operation.transition now s.db)
  · rintro lease state metadata rfl hholds
    obtain ⟨worker, hworker⟩ := hcaller.resolve_left (by simp [Operation.isClient])
    obtain ⟨work, handle, status, hpc, rfl⟩ := Pc.call_recordTargetStatus hworker
    have hobserving := hmatches worker work.lease (by rw [hpc]; rfl) row hrow hholds.token
    rw [hpc] at hobserving
    simp [hobserving.1]
  · rintro lease handle state metadata rfl hholds
    obtain ⟨worker, hworker⟩ := hcaller.resolve_left (by simp [Operation.isClient])
    obtain ⟨work, submission, hpc, rfl⟩ := Pc.call_recordSubmission hworker
    have hrecording := hmatches worker work.lease (by rw [hpc]; rfl) row hrow hholds.token
    rw [hpc] at hrecording
    exact hrecording.1

theorem not_retryTask_of_noRetries {operation : Operation} {now : Time} {db : Db}
    (h : noRetries db (operation, now) = true) :
    ∀ runId nodeId, operation ≠ .retryTask runId nodeId := by
  rintro runId nodeId rfl
  cases h

theorem submissions (h : (workerSystem profile).Reachable
    (fun s label => s.lifted profile noRetries label = true) s) : s.db.Submissions := by
  refine db_invariant Db.Submissions (fun _ hrow => by cases hrow) ?_ h
  intro s label now operation hreach hinv hguard hop hcaller row' hrow' hentered
  simp only [lifted, hop, Option.all_some] at hguard
  have hretry := not_retryTask_of_noRetries hguard
  have htransition := operation.transition now s.db
  obtain ⟨row, hrow, hid, hchange⟩ | hadded := htransition.attemptChanges.new row' hrow'
  · obtain hwas | ⟨hkept, lease, hholds, hoperation⟩ := hchange.entered hentered
    · obtain ⟨after, hafter, hafterId, -, -, hsubmission, -⟩ :=
        submission_step hreach now hcaller hretry hrow (hinv row hrow hwas)
      have hsame : after = row' := Table.eq_of_key_eq _ hafter hrow' (hafterId.trans hid.symm)
      rwa [← hsame]
    · -- the attempt is live, so it is the current one of its task
      refine ⟨fun task' htask' => ?_, hkept, fun _ => hentered⟩
      have hcurrent : s.db.Current := engine_current ((engine_reachable_lifted hreach).weaken
        fun _ _ hguard => retriesSettled_of_noRetries hguard)
      obtain ⟨-, hrun, hnode, hnumber, -⟩ := hchange.keeps
      obtain ⟨task, htask, -⟩ := (integrity hreach).attemptTask row hrow
      obtain ⟨hlast, hstate⟩ := hcurrent row hrow ((tokens hreach).held_live hholds.toLeased)
        task htask
      obtain ⟨after, hafter, hafterRun, hafterNode, htaskChange⟩ :=
        htransition.taskChanges.old task (Table.mem_of_row? htask)
      have hplace := Db.place_of_task? htask
      have hfound := Table.row?_of_mem hafter
      rw [Task.key_eq, hafterRun, hafterNode, hplace.1, hplace.2, ← hrun, ← hnode] at hfound
      have hkeptTask : after = task := by
        obtain rfl | ⟨handle, state, metadata, rfl⟩ := hoperation <;> cases htaskChange <;> rfl
      rw [hnumber, ← Option.some.inj (hfound.symm.trans htask'), hkeptTask]
      refine ⟨hlast, ?_⟩
      rcases hstate with hstate | hstate <;> rw [hstate] <;> simp
  · cases hadded with
    | started _ =>
        rcases hentered with hstate | hhandle
        · cases hstate
        · exact absurd rfl hhandle

/-- Later states keep a submission, with its handle. -/
theorem submission_leads (hreach : (workerSystem profile).Reachable
      (fun s label => s.lifted profile noRetries label = true) s)
    (hleads : (workerSystem profile).Leads
      (fun s label => s.lifted profile noRetries label = true) s s') {attempt : Attempt}
    (hattempt : attempt ∈ s.db.taskAttempts.rows) (h : s.db.Submission attempt) :
    ∃ later ∈ s'.db.taskAttempts.rows, later.id = attempt.id ∧ later.runId = attempt.runId ∧
      later.nodeId = attempt.nodeId ∧ s'.db.Submission later ∧
      (attempt.targetHandle ≠ none → later.targetHandle = attempt.targetHandle) := by
  refine hleads.invariant (fun s' => ∃ later ∈ s'.db.taskAttempts.rows,
    later.id = attempt.id ∧ later.runId = attempt.runId ∧ later.nodeId = attempt.nodeId ∧
      s'.db.Submission later ∧
      (attempt.targetHandle ≠ none → later.targetHandle = attempt.targetHandle)) ?_ hreach
    ⟨attempt, hattempt, rfl, rfl, rfl, h, fun _ => rfl⟩
  rintro s label s' hreach ⟨row, hrow, hid, hrun, hnode, hsubmission, hhandle⟩ hguard hstep
  obtain hsame | ⟨operation, now, hop, hcaller, hafter⟩ := db_step hstep
  · rw [hsame]
    exact ⟨row, hrow, hid, hrun, hnode, hsubmission, hhandle⟩
  · simp only [lifted, hop, Option.all_some] at hguard
    obtain ⟨row', hrow', hid', hrun', hnode', hsubmission', hhandle'⟩ :=
      submission_step hreach now hcaller (not_retryTask_of_noRetries hguard) hrow hsubmission
    rw [hafter]
    refine ⟨row', hrow', hid'.trans hid, hrun'.trans hrun, hnode'.trans hnode, hsubmission',
      fun hsome => ?_⟩
    have hkept := hhandle hsome
    exact (hhandle' (by rwa [hkept])).trans hkept

/-- Without retries at most one attempt of a task is ever marked for submission
or gets a handle, whatever states of a run are compared: it is not given up, its
handle stays, and while it lives it is the newest attempt of the task. -/
theorem submission_key_unique (hreach : (workerSystem profile).Reachable
      (fun s label => s.lifted profile noRetries label = true) s)
    (hleads : (workerSystem profile).Leads
      (fun s label => s.lifted profile noRetries label = true) s s') :
    ∀ attempt ∈ s.db.taskAttempts.rows,
      attempt.state = .submitting ∨ attempt.targetHandle ≠ none →
      (∀ other ∈ s'.db.taskAttempts.rows, other.runId = attempt.runId →
        other.nodeId = attempt.nodeId →
        other.state = .submitting ∨ other.targetHandle ≠ none → other.id = attempt.id) ∧
      ∃ later ∈ s'.db.taskAttempts.rows, later.id = attempt.id ∧ later.state ≠ .abandoned ∧
        (attempt.targetHandle ≠ none → later.targetHandle = attempt.targetHandle) ∧
        (later.state.live = true → ∀ other ∈ s'.db.taskAttempts.rows,
          other.runId = attempt.runId → other.nodeId = attempt.nodeId →
          other.number ≤ later.number) := by
  intro attempt hattempt hentered
  obtain ⟨later, hlater, hid, hrun, hnode, hsubmission, hhandle⟩ :=
    submission_leads hreach hleads hattempt (submissions hreach attempt hattempt hentered)
  have hreach' := hleads.reachable hreach
  have hintegrity := integrity hreach'
  refine ⟨fun other hother hotherRun hotherNode hotherEntered => ?_, later, hlater, hid,
    hsubmission.kept, hhandle, fun _ other hother hotherRun hotherNode => ?_⟩
  · -- both are the last attempt of the task
    obtain ⟨task, htask, -⟩ := hintegrity.attemptTask other hother
    have hlast := ((submissions hreach' other hother hotherEntered).last task htask).1
    rw [hotherRun, hotherNode, ← hrun, ← hnode] at htask
    have hsame := hintegrity.number_inj other hother later hlater (hotherRun.trans hrun.symm)
      (hotherNode.trans hnode.symm) (hlast.trans (hsubmission.last task htask).1.symm)
    rw [hsame, hid]
  · obtain ⟨task, htask, hnumber⟩ := hintegrity.attemptTask other hother
    rw [hotherRun, hotherNode, ← hrun, ← hnode] at htask
    rwa [(hsubmission.last task htask).1]

/-- The first worker stops inside of its submission; after the expiry of its
lease the second one takes over and records the job. -/
def recoveredSubmission : List (WorkerLabel (Fin 2)) :=
  [.engine 1 300000005 none] ++ engineSteps 1 300000006 3 ++
    [.submit 1, .runner 1 0 sampleJob] ++ engineSteps 1 300000010 2

theorem submission_key_unique_recovered :
    let profile := sampleProfile .async
    let check := fun (s : Workers (Fin 2)) label => s.lifted profile noRetries label
    let s := (workerSystem profile).after check {}
      (clientSteps sampleSubmission ++ engineSteps 0 1 4 ++ [.submit 0])
    let s' := (workerSystem profile).after check s recoveredSubmission
    s.db.taskAttempts.rows.map (fun row => (row.id, row.state, row.targetHandle)) =
        [(2, .submitting, none)] ∧
      s'.db.taskAttempts.rows.map (fun row => (row.id, row.state, row.targetHandle)) =
        [(2, .submitted, some "42")] ∧
      ∀ attempt ∈ s.db.taskAttempts.rows,
        attempt.state = .submitting ∨ attempt.targetHandle ≠ none →
        (∀ other ∈ s'.db.taskAttempts.rows, other.runId = attempt.runId →
          other.nodeId = attempt.nodeId →
          other.state = .submitting ∨ other.targetHandle ≠ none → other.id = attempt.id) ∧
        ∃ later ∈ s'.db.taskAttempts.rows, later.id = attempt.id ∧ later.state ≠ .abandoned ∧
          (attempt.targetHandle ≠ none → later.targetHandle = attempt.targetHandle) ∧
          (later.state.live = true → ∀ other ∈ s'.db.taskAttempts.rows,
            other.runId = attempt.runId → other.nodeId = attempt.nodeId →
            other.number ≤ later.number) := by
  refine ⟨by decide, by decide, ?_⟩
  exact submission_key_unique ((TransitionSystem.Reachable.initial rfl).after _)
    (TransitionSystem.Leads.after _ _ recoveredSubmission)

end Workers

end QhpcEcosystem
