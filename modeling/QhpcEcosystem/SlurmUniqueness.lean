/-
One job for each attempt.  `find_by_name` and `sbatch` are two steps, so two
workers that submit one attempt at a time can both miss the job of the other.
They never do while no lease is taken back from a worker between its submission
intent and the scheduler's acceptance: the worker that submits is then the only
one that bears a valid lease of the attempt.  The scheduler must also list the
jobs of the attempt: `sacct` without a start time leaves out earlier days.
-/
import QhpcEcosystem.SlurmHandles
import QhpcEcosystem.SubmissionIntent

namespace QhpcEcosystem

/-! ## Leases that stay -/

/-- An attempt without a handle keeps its lease under the operations of others,
apart from a sweep that finds it expired. -/
theorem Db.AttemptChange.keepsToken {db : Db} {now : Time} {operation : Operation}
    {row row' : Attempt} (h : db.AttemptChange now operation row row') {token : Uuid}
    (htoken : row.leaseToken = some token) (hnone : row.targetHandle = none)
    (hforeign : ∀ lease, operation.lease? = some lease → lease.token ≠ token)
    (hkept : ∀ workerId leaseSeconds admission,
      operation = .claimTask workerId leaseSeconds admission →
      db.expiredAttempt? now row = none) : row'.leaseToken = some token := by
  have hborne : ∀ {lease : TaskLease}, operation.lease? = some lease →
      db.Leased lease row → False := by
    intro lease hlease hleased
    have hsame := hleased.token.symm.trans htoken
    exact hforeign lease hlease (Option.some.inj hsame)
  cases h with
  | kept | renewed _ | marked _ _ | recorded _ _ | observed _ _ => exact htoken
  | released hholds => exact (hborne rfl hholds.toLeased).elim
  | markedCanceled hholds => exact (hborne rfl hholds.toLeased).elim
  | completed _ _ _ hleased => exact (hborne rfl hleased).elim
  | failed _ _ _ hleased => exact (hborne rfl hleased).elim
  | expired hexpired =>
      rw [hkept _ _ _ rfl] at hexpired
      cases hexpired
  | recovered hrecoverable =>
      -- without the sweep the attempt is leased, so it cannot be taken over
      simp only [Db.sweepAttempt, hkept _ _ _ rfl, Attempt.recoverable, htoken] at hrecoverable
      cases hrecoverable
  | requested _ _ _ =>
      simp only [Attempt.requestCancel, hnone, Option.isSome_none, Bool.false_eq_true, if_false]
      exact htoken

theorem Pc.call_claimTask {pc : Pc} {profile : WorkerProfile} {workerId : String}
    {leaseSeconds : Int} {admission : Admission}
    (h : pc.call profile = some (.claimTask workerId leaseSeconds admission)) : pc = .idle := by
  cases pc with
  | idle => rfl
  | finish work ending => cases ending <;> cases h
  | _ => cases h

/-- A worker that is about to submit was so before, or has just recorded its
intent. -/
theorem Workers.submit_step {ι : Type} [DecidableEq ι] {profile : ι → WorkerProfile}
    {s s' : Workers ι} {label : WorkerLabel ι} (hstep : Step profile s label s') {worker : ι}
    {work : Work} (hpc : s'.pcs worker = .submit work) :
    s.pcs worker = .submit work ∨
      ∃ now, label = .engine worker now none ∧ s.pcs worker = .marking work := by
  cases hstep with
  | client _ => exact .inl hpc
  | @replied other now _ _ _ hcall _ =>
      simp only [setPc, Function.update_apply] at hpc
      split at hpc
      · next hsame =>
          subst hsame
          exact .inr ⟨now, rfl, Pc.returned_submit hcall hpc⟩
      · exact .inl hpc
  | raised _ _ =>
      simp only [setPc, Function.update_apply] at hpc
      split at hpc
      · exact absurd hpc Pc.raised_ne_submit
      · exact .inl hpc
  | submit _ =>
      simp only [setPc, Function.update_apply] at hpc
      split at hpc
      · cases hpc
      · exact .inl hpc
  | runner hanswered =>
      simp only [setPc, Function.update_apply] at hpc
      split at hpc
      · exact absurd hpc (Pc.answered_ne_submit hanswered)
      · exact .inl hpc
  | crash =>
      simp only [setPc, Function.update_apply] at hpc
      split at hpc
      · cases hpc
      · exact .inl hpc

namespace SlurmState

variable {ι : Type} {target : SlurmTarget} {profile : ι → WorkerProfile}

/-- What the worker is about to submit. -/
def submits (s : SlurmState ι) (worker : ι) : Option Work :=
  match s.workers.pcs worker with
  | .submit work => some work
  | .submitting work => if (s.points worker).beforeJob then some work else none
  | _ => none

/-- A sweep leaves the worker that submits its lease. -/
def keepsSubmission (s : SlurmState ι) (now : Time) (worker : ι) : Bool :=
  (s.submits worker).all fun work => s.workers.db.taskAttempts.rows.all fun row =>
    row.leaseToken ≠ some work.lease.token || (s.workers.db.expiredAttempt? now row).isNone

/-- No claim takes back the lease of a worker that submits. -/
def keepsSubmissions (s : SlurmState ι) : SlurmLabel ι → Prop
  | .worker (.engine worker now none) =>
      match s.workers.pcs worker with
      | .idle => ∀ other, s.keepsSubmission now other = true
      | _ => True
  | _ => True

instance [Fintype ι] (s : SlurmState ι) : DecidablePred s.keepsSubmissions := fun label => by
  unfold keepsSubmissions
  split
  · split <;> infer_instance
  · infer_instance

/-- `find_by_name` misses no job of the attempt: what the scheduler lists is
complete. -/
def findsJobs (target : SlurmTarget) (s : SlurmState ι) : SlurmLabel ι → Prop
  | .search worker none =>
      match s.workers.pcs worker with
      | .submitting work => ∀ job ∈ s.jobs, job.name ≠ target.jobName work.request.attemptId
      | _ => True
  | _ => True

instance (target : SlurmTarget) (s : SlurmState ι) : DecidablePred (s.findsJobs target) :=
  fun label => by
    unfold findsJobs
    split
    · split <;> infer_instance
    · infer_instance

/-- Complete listings, and no lease taken back from a worker that submits. -/
def undisturbed (target : SlurmTarget) (s : SlurmState ι) (label : SlurmLabel ι) : Prop :=
  s.keepsSubmissions label ∧ s.findsJobs target label

instance [Fintype ι] (target : SlurmTarget) (s : SlurmState ι) :
    DecidablePred (s.undisturbed target) :=
  fun _ => inferInstanceAs (Decidable (_ ∧ _))

theorem submits_cases {s : SlurmState ι} {worker : ι} {work : Work} :
    s.submits worker = some work ↔ s.workers.pcs worker = .submit work ∨
      s.workers.pcs worker = .submitting work ∧ (s.points worker).beforeJob = true := by
  unfold submits
  split
  · next hpc => simp [hpc]
  · next hpc => by_cases hpoint : (s.points worker).beforeJob <;> simp [hpc, hpoint]
  · next hsubmit hsubmitting =>
      constructor
      · intro h
        cases h
      · rintro (hpc | ⟨hpc, -⟩)
        · exact (hsubmit work hpc).elim
        · exact (hsubmitting work hpc).elim

theorem work?_of_submits {s : SlurmState ι} {worker : ι} {work : Work}
    (h : s.submits worker = some work) : (s.workers.pcs worker).work? = some work := by
  obtain hpc | ⟨hpc, -⟩ := submits_cases.mp h <;> rw [hpc] <;> rfl

theorem lease?_of_submits {s : SlurmState ι} {worker : ι} {work : Work}
    (h : s.submits worker = some work) :
    (s.workers.pcs worker).lease? = some work.lease :=
  Pc.lease?_of_work? (work?_of_submits h)

variable [DecidableEq ι] {guard : SlurmState ι → SlurmLabel ι → Prop} {s s' : SlurmState ι}
  {label : SlurmLabel ι}

theorem targetHandle_of_submits (hreach : (slurmSystem target profile).Reachable guard s)
    {worker : ι} {work : Work} (h : s.submits worker = some work) {row : Attempt}
    (hrow : row ∈ s.workers.db.taskAttempts.rows)
    (htoken : row.leaseToken = some work.lease.token) : row.targetHandle = none := by
  have hmatches := Workers.held_matches (workers_reachable hreach) worker work.lease
    (lease?_of_submits h) row hrow htoken
  obtain hpc | ⟨hpc, -⟩ := submits_cases.mp h <;> rw [hpc] at hmatches <;> exact hmatches.1

/-- A row lies under the lease of the work. -/
def Bears (db : Db) (work : Work) : Prop :=
  ∃ row ∈ db.taskAttempts.rows, row.leaseToken = some work.lease.token

/-- An operation of another caller leaves the worker that submits its lease. -/
theorem Bears.transition (hreach : (slurmSystem target profile).Reachable guard s) {worker : ι}
    {work : Work} (hsubmits : s.submits worker = some work) (h : Bears s.workers.db work)
    {now : Time} {operation : Operation} {db : Db}
    (htransition : s.workers.db.Transition now operation db)
    (hforeign : ∀ lease, operation.lease? = some lease → lease.token ≠ work.lease.token)
    (hkept : ∀ workerId leaseSeconds admission,
      operation = .claimTask workerId leaseSeconds admission →
      s.keepsSubmission now worker = true) : Bears db work := by
  obtain ⟨row, hrow, htoken⟩ := h
  obtain ⟨row', hrow', -, hchange⟩ := htransition.attemptChanges.old row hrow
  refine ⟨row', hrow', hchange.keepsToken htoken
    (targetHandle_of_submits hreach hsubmits hrow htoken) hforeign ?_⟩
  intro workerId leaseSeconds admission hclaim
  have hkeeps := hkept workerId leaseSeconds admission hclaim
  simp only [keepsSubmission, hsubmits, Option.all_some, List.all_eq_true] at hkeeps
  simpa [htoken] using hkeeps row hrow

/-- A worker that submits did so before, or has just recorded its intent. -/
theorem submits_step_worker {label : WorkerLabel ι} {workers : Workers ι}
    (hstep : s.workers.step profile label = some workers) {worker : ι} {work : Work}
    (h : ({ s with workers := workers, points := s.restart label } :
      SlurmState ι).submits worker = some work) :
    s.submits worker = some work ∨
      ∃ now, label = .engine worker now none ∧ s.workers.pcs worker = .marking work := by
  simp only [submits_cases] at h ⊢
  rcases h with hpc | ⟨hpc, hpoint⟩
  · exact (Workers.submit_step (Workers.step_cases hstep) hpc).imp_left .inl
  · obtain ⟨hold, hlabel⟩ | ⟨-, hold⟩ := Workers.submitting_step (Workers.step_cases hstep) hpc
    · exact .inl (.inr ⟨hold, by rwa [restart_of_ne hlabel] at hpoint⟩)
    · exact .inl (.inl hold)

/-- A step of the workers leaves everyone that submits a valid lease. -/
theorem bears_step_worker (hreach : (slurmSystem target profile).Reachable guard s)
    (h : ∀ worker work, s.submits worker = some work → Bears s.workers.db work)
    {label : WorkerLabel ι} {workers : Workers ι}
    (hguard : s.keepsSubmissions (.worker label))
    (hstep : s.workers.step profile label = some workers) {worker : ι} {work : Work}
    (hsubmits : ({ s with workers := workers, points := s.restart label } :
      SlurmState ι).submits worker = some work) : Bears workers.db work := by
  have hleases := Workers.leases (workers_reachable hreach)
  have hbefore := submits_step_worker hstep hsubmits
  cases Workers.step_cases hstep with
  | @client operation now hclient =>
      obtain hold | ⟨_, hlabel, -⟩ := hbefore
      · refine Bears.transition hreach hold (h worker work hold)
          (operation.transition now s.workers.db) ?_ ?_
        · intro lease hlease
          cases operation <;> cases hlease <;> cases hclient
        · rintro _ _ _ rfl
          cases hclient
      · cases hlabel
  | @replied other now operation reply db hcall hok =>
      have htransition := transition_of_perform hok
      obtain hold | ⟨_, hlabel, hmarking⟩ := hbefore
      · refine Bears.transition hreach hold (h worker work hold) htransition ?_ ?_
        · intro lease hlease htoken
          rw [Pc.lease?_call hcall] at hlease
          obtain rfl := hleases.distinct worker other _ lease (lease?_of_submits hold) hlease
            htoken.symm
          -- inside of `submit` a worker calls no operation
          obtain hpc | ⟨hpc, -⟩ := submits_cases.mp hold <;> rw [hpc] at hcall <;> cases hcall
        · rintro _ _ _ rfl
          simp only [keepsSubmissions, Pc.call_claimTask hcall] at hguard
          exact hguard worker
      · cases hlabel
        rw [hmarking] at hcall
        cases hcall
        obtain ⟨stored, hmarked, heq⟩ := map_ok hok
        cases heq
        obtain ⟨row, hholds, ⟨-, rfl⟩ | ⟨-, hchanges⟩⟩ := markSubmitting_ok hmarked
        · exact ⟨row, Table.mem_of_row? hholds.found, hholds.token⟩
        · exact ⟨_, Table.mem_of_row? (hchanges.held rfl hholds.toLeased), hholds.token⟩
  | raised _ _ =>
      obtain hold | ⟨_, hlabel, hmarking⟩ := hbefore
      · exact h worker work hold
      · cases hlabel
        rw [submits_cases] at hsubmits
        simp only [Workers.setPc, Function.update_self] at hsubmits
        rcases hsubmits with hpc | ⟨hpc, -⟩
        · exact absurd hpc Pc.raised_ne_submit
        · exact absurd hpc Pc.raised_ne_submitting
  | submit _ | runner _ | crash =>
      obtain hold | ⟨_, hlabel, -⟩ := hbefore
      · exact h worker work hold
      · cases hlabel

/-- Inside of the runner a worker submits no more than before. -/
theorem submits_setPoint {worker : ι} {point : SubmitPoint}
    (hpoint : point.beforeJob = true → (s.points worker).beforeJob = true) {other : ι}
    {held : Work} (h : (s.setPoint worker point).submits other = some held) :
    s.submits other = some held := by
  rw [submits_cases] at h ⊢
  refine h.imp_right fun ⟨hheld, hbefore⟩ => ⟨hheld, ?_⟩
  simp only [setPoint, Function.update_apply] at hbefore
  split at hbefore
  · next hsame =>
      rw [hsame]
      exact hpoint hbefore
  · exact hbefore

/-- While no claim takes back the lease of a worker that submits, every worker
that submits bears a valid lease. -/
theorem bears (h : (slurmSystem target profile).Reachable keepsSubmissions s) :
    ∀ worker work, s.submits worker = some work → Bears s.workers.db work := by
  refine h.invariant (fun s => ∀ worker work, s.submits worker = some work →
    Bears s.workers.db work) (fun s hs => ?_)
    fun s label s' hreach hinv hguard hstep => ?_
  · cases hs
    exact fun _ _ hsubmits => by cases hsubmits
  · cases step_cases hstep with
    | worker _ hworkers =>
        exact fun worker work hsubmits => bears_step_worker hreach hinv hguard hworkers hsubmits
    | absent _ hpoint _ | missing _ hpoint =>
        exact fun other held hheld =>
          hinv other held (submits_setPoint (fun _ => by rw [hpoint]; rfl) hheld)
    | present _ _ _ | found _ _ _ | sbatch _ _ _ =>
        exact fun other held hheld =>
          hinv other held (submits_setPoint (fun hpoint => by cases hpoint) hheld)
    | write _ _ _ hpoint =>
        exact fun other held hheld => hinv other held (submits_setPoint
          (fun hbefore => by rw [hpoint] at hbefore; cases hbefore) hheld)
    | clean _ _ => exact hinv

/-! ## One job for each name -/

/-- The jobs under the name of a job are that job. -/
theorem filter_name {jobs : List SlurmJob} (hsingle : (jobs.map SlurmJob.name).Nodup)
    {job : SlurmJob} (hjob : job ∈ jobs) :
    (jobs.filter fun other => other.name = job.name) = [job] := by
  induction jobs with
  | nil => cases hjob
  | cons first rest ih =>
      obtain ⟨hfirst, hrest⟩ := List.nodup_cons.mp hsingle
      rcases List.mem_cons.mp hjob with rfl | hmem
      · have hnone : (rest.filter fun other => other.name = job.name) = [] := by
          rw [List.filter_eq_nil_iff]
          intro other hother hname
          exact hfirst (List.mem_map.mpr ⟨other, hother, by simpa using hname⟩)
        simp [hnone]
      · have hne : first.name ≠ job.name := fun hname =>
          hfirst (List.mem_map.mpr ⟨job, hmem, hname.symm⟩)
        simpa [hne] using ih hrest hmem

/-- A worker that is about to call `sbatch` finds no job under its name, and no
name is used twice. -/
structure Exclusive (target : SlurmTarget) (s : SlurmState ι) : Prop where
  clear : ∀ worker work, s.workers.pcs worker = .submitting work →
    s.points worker = .rendering → ∀ job ∈ s.jobs, job.name ≠ target.jobName work.request.attemptId
  single : (s.jobs.map SlurmJob.name).Nodup

/-- Two workers never submit one attempt at a time. -/
theorem submits_inj (hreach : (slurmSystem target profile).Reachable keepsSubmissions s)
    (hnames : s.DistinctNames target) {worker other : ι} {work held : Work}
    (hwork : s.submits worker = some work) (hheld : s.submits other = some held)
    (hname : target.jobName work.request.attemptId = target.jobName held.request.attemptId) :
    worker = other := by
  have hworkers := workers_reachable hreach
  have hleases := Workers.leases hworkers
  have hmatch := Workers.requestsMatch hworkers
  obtain ⟨row, hrow, htoken⟩ := bears hreach worker work hwork
  obtain ⟨row', hrow', htoken'⟩ := bears hreach other held hheld
  have hid := (hleases.bearer worker _ (lease?_of_submits hwork) row hrow htoken).1
  have hid' := (hleases.bearer other _ (lease?_of_submits hheld) row' hrow' htoken').1
  rw [hmatch worker work (work?_of_submits hwork), hmatch other held (work?_of_submits hheld),
    ← hid, ← hid'] at hname
  -- both tokens stand in the one row of the attempt
  obtain rfl := s.workers.db.taskAttempts.eq_of_key_eq hrow hrow'
    (hnames row hrow row' hrow' hname)
  exact hleases.distinct worker other _ _ (lease?_of_submits hwork) (lease?_of_submits hheld)
    (Option.some.inj (htoken.symm.trans htoken'))

/-- Attempts are only added. -/
theorem DistinctNames.before (h : s'.DistinctNames target)
    (hstep : Step target profile s label s') : s.DistinctNames target := by
  cases hstep with
  | worker _ hstep =>
      obtain hsame | ⟨operation, now, -, -, hafter⟩ := Workers.db_step hstep
      · simpa only [DistinctNames, hsame] using h
      · have hold := (operation.transition now s.workers.db).attemptChanges.old
        intro row hrow other hother hname
        obtain ⟨row', hrow', hid, -⟩ := hold row hrow
        obtain ⟨other', hother', hid', -⟩ := hold other hother
        rw [← hafter] at hrow' hother'
        rw [← hid, ← hid'] at hname ⊢
        exact h row' hrow' other' hother' hname
  | _ => exact h

namespace Exclusive

omit [DecidableEq ι] in
/-- A worker that gets to `sbatch` has found no job under its name. -/
theorem rendering_submits {worker : ι} {work : Work}
    (hpc : s.workers.pcs worker = .submitting work) (hpoint : s.points worker = .rendering) :
    s.submits worker = some work :=
  submits_cases.mpr (.inr ⟨hpc, by rw [hpoint]; rfl⟩)

theorem setPoint (h : s.Exclusive target) {worker : ι} {point : SubmitPoint}
    (hpoint : ∀ work, s.workers.pcs worker = .submitting work → point = .rendering →
      ∀ job ∈ s.jobs, job.name ≠ target.jobName work.request.attemptId) :
    (s.setPoint worker point).Exclusive target := by
  refine ⟨fun other held hheld hrendering => ?_, h.single⟩
  simp only [SlurmState.setPoint, Function.update_apply] at hrendering
  split at hrendering
  · next hsame =>
      rw [hsame] at hheld
      exact hpoint held hheld hrendering
  · exact h.clear other held hheld hrendering

theorem step (h : s.Exclusive target)
    (hreach : (slurmSystem target profile).Reachable keepsSubmissions s)
    (hnames : s.DistinctNames target) (hfinds : s.findsJobs target label)
    (hstep : Step target profile s label s') : s'.Exclusive target := by
  cases hstep with
  | @worker label workers _ hstep =>
      refine ⟨fun worker work hpc hpoint => ?_, h.single⟩
      obtain ⟨hold, hlabel⟩ | ⟨rfl, -⟩ := Workers.submitting_step (Workers.step_cases hstep) hpc
      · simp only [restart_of_ne hlabel] at hpoint
        exact h.clear worker work hold hpoint
      · simp [restart] at hpoint
  | absent _ _ _ | present _ _ _ | found _ _ _ =>
      exact h.setPoint fun _ _ hrendering => by cases hrendering
  | @missing worker work hpc _ =>
      refine h.setPoint fun held hheld _ => ?_
      simpa only [findsJobs, hheld] using hfinds
  | @sbatch worker work jobId hpc hpoint _ =>
      have hsubmits := rendering_submits hpc hpoint
      refine ⟨fun other held hheld hrendering => ?_, ?_⟩
      · simp only [SlurmState.setPoint, Function.update_apply] at hrendering
        split at hrendering
        · cases hrendering
        · next hother =>
            intro job hjob
            rcases List.mem_append.mp hjob with hold | hnew
            · exact h.clear other held hheld hrendering job hold
            · obtain rfl := List.mem_singleton.mp hnew
              intro hname
              exact hother (submits_inj hreach hnames hsubmits
                (rendering_submits hheld hrendering) hname).symm
      · rw [List.map_append, List.nodup_append']
        refine ⟨h.single, List.nodup_singleton _, ?_⟩
        rw [List.map_singleton, List.disjoint_singleton]
        intro hmem
        obtain ⟨job, hjob, hname⟩ := List.mem_map.mp hmem
        exact h.clear worker work hpc hpoint job hjob hname
  | @write worker work handle recovered point _ _ _ hpoint =>
      have hmoved : (s.setPoint worker point).Exclusive target :=
        h.setPoint fun _ _ hrendering => by
          rw [hrendering] at hpoint
          cases hpoint
      exact ⟨hmoved.clear, hmoved.single⟩
  | clean _ _ => exact ⟨h.clear, h.single⟩

end Exclusive

theorem exclusive (h : (slurmSystem target profile).Reachable (undisturbed target) s)
    (hnames : s.DistinctNames target) : s.Exclusive target := by
  refine h.invariant (fun s => s.DistinctNames target → s.Exclusive target) (fun s hs _ => ?_)
    (fun s label s' hreach hinv hguard hstep hnames => ?_) hnames
  · cases hs
    exact ⟨fun _ _ hpc => (by cases hpc), List.nodup_nil⟩
  · have hbefore := hnames.before (step_cases hstep)
    have hkept := hreach.weaken fun _ _ hguard => hguard.1
    exact (hinv hbefore).step hkept hbefore hguard.2 (step_cases hstep)

/-- Only a policy that cleans removes a directory. -/
theorem cleaned_eq_nil (h : (slurmSystem target profile).Reachable guard s)
    (hpolicy : target.policy = .retainOnFailure) : s.cleaned = [] := by
  refine h.invariant (fun s => s.cleaned = []) (fun s hs => ?_)
    fun s label s' _ hinv _ hstep => ?_
  · cases hs
    rfl
  · cases step_cases hstep with
    | clean _ hclean =>
        rw [hpolicy] at hclean
        cases hclean
    | _ => exact hinv

theorem submittedPair_reachable (policy : CleanupPolicy) :
    (slurmSystem (sampleTarget policy) (sampleProfile .async)).Reachable
      (undisturbed (sampleTarget policy))
      ((slurmSystem (sampleTarget policy) (sampleProfile .async)).after
        (fun s label => decide (s.undisturbed (sampleTarget policy) label)) {} submittedPair) :=
  ((TransitionSystem.Reachable.initial rfl).after submittedPair).weaken
    fun _ _ => of_decide_eq_true

/-- While the scheduler lists every job of an attempt and no claim takes back the
lease of a worker that submits, the scheduler accepts at most one job for each
attempt: a job under the name of an attempt with a recorded handle is the
recorded one, and its receipt names it. -/
theorem one_job_per_attempt
    (hreach : (slurmSystem target profile).Reachable (undisturbed target) s)
    (hnames : s.DistinctNames target) :
    (s.jobs.map SlurmJob.name).Nodup ∧
    ∀ row ∈ s.workers.db.taskAttempts.rows, ∀ handle, row.targetHandle = some handle →
      (s.jobs.filter fun job => job.name = target.jobName row.id) =
        [⟨handle, target.jobName row.id⟩] ∧
      ∀ receipt, s.receipts row.id = some receipt → receipt.handle = handle := by
  have hsingle := (exclusive hreach hnames).single
  refine ⟨hsingle, fun row hrow handle hhandle => ?_⟩
  have hjob := ((owned hreach).rows row hrow handle hhandle).1
  refine ⟨filter_name hsingle hjob, fun receipt hreceipt => ?_⟩
  have hsubmitted := ((owned hreach).receipts row.id receipt hreceipt).2
  exact congrArg SlurmJob.jobId (List.inj_on_of_nodup_map hsingle hsubmitted hjob rfl)

theorem one_job_per_attempt_sample :
    let s := (slurmSystem (sampleTarget .onSuccess) (sampleProfile .async)).after
      (fun s label => decide (s.undisturbed (sampleTarget .onSuccess) label)) {} submittedPair
    (s.workers.db.taskAttempts.rows.map fun row => (row.id, row.targetHandle)) =
      [(2, some "42"), (5, some "43")] ∧
    (s.jobs.map SlurmJob.name).Nodup ∧
    ∀ row ∈ s.workers.db.taskAttempts.rows, ∀ handle, row.targetHandle = some handle →
      (s.jobs.filter fun job => job.name = (sampleTarget .onSuccess).jobName row.id) =
        [⟨handle, (sampleTarget .onSuccess).jobName row.id⟩] ∧
      ∀ receipt, s.receipts row.id = some receipt → receipt.handle = handle := by
  intro s
  exact ⟨by decide, one_job_per_attempt (submittedPair_reachable .onSuccess)
    (sampleTarget_distinctNames (by decide))⟩

/-- The lease of a worker expires after it has looked for a job; another worker
takes the attempt over, and both submit. -/
def submittedTwice : List (SlurmLabel (Fin 2)) :=
  (clientSteps sampleSubmission).map .worker ++ (engineSteps 0 1 4).map .worker ++
    [.worker (.submit 0), .read 0, .search 0 none] ++
    (engineSteps 1 400000000 4).map .worker ++
    [.worker (.submit 1), .read 1, .search 1 none, .sbatch 1 "42", .sbatch 0 "43"]

/-- A lease that is taken back in between can cost a second job. -/
theorem two_jobs_for_one_attempt :
    ¬ ∀ s, (slurmSystem (sampleTarget .onSuccess) (sampleProfile .async)).Reachable
        TransitionSystem.anyStep s → (s.jobs.map SlurmJob.name).Nodup := by
  intro h
  have hempty : (slurmSystem (sampleTarget .onSuccess) (sampleProfile .async)).Reachable
      (fun _ _ => true = true) {} := .initial rfl
  exact absurd (h _ (hempty.after submittedTwice).unguarded) (by decide)

/-- A worker stops before it has written the receipt, and the scheduler no longer
lists the job when another worker looks for it. -/
def submittedAgain : List (SlurmLabel (Fin 2)) :=
  (clientSteps sampleSubmission).map .worker ++ (engineSteps 0 1 4).map .worker ++
    [.worker (.submit 0), .read 0, .search 0 none, .sbatch 0 "42", .worker (.crash 0)] ++
    (engineSteps 1 400000000 4).map .worker ++
    [.worker (.submit 1), .read 1, .search 1 none, .sbatch 1 "43"]

/-- A job that is not listed can cost a second job. -/
theorem two_jobs_of_incomplete_listing :
    ¬ ∀ s, (slurmSystem (sampleTarget .onSuccess) (sampleProfile .async)).Reachable
        keepsSubmissions s → (s.jobs.map SlurmJob.name).Nodup := by
  intro h
  have hempty : (slurmSystem (sampleTarget .onSuccess) (sampleProfile .async)).Reachable
      (fun s label => decide (s.keepsSubmissions label) = true) {} := .initial rfl
  exact absurd (h _ ((hempty.after submittedAgain).weaken fun _ _ => of_decide_eq_true))
    (by decide)

/-- Under the same conditions `poll`, `collect` and `cancel` find the receipt of
their handle, unless the directory of the attempt was removed, which
`retain-on-failure` never does. -/
theorem calls_find_receipts
    (hreach : (slurmSystem target profile).Reachable (undisturbed target) s)
    (hnames : s.DistinctNames target) :
    (∀ worker work handle, s.Calls worker work handle →
      s.checkedReceipt work.request handle = true ∨ work.request.attemptId ∈ s.cleaned) ∧
    (target.policy = .retainOnFailure → s.cleaned = []) := by
  refine ⟨fun worker work handle hcall => ?_, cleaned_eq_nil hreach⟩
  obtain ⟨row, -, hid, hsubmitted, hreceipt | hcleaned⟩ := hcall.backed hreach
  · left
    obtain ⟨receipt, hreceipt⟩ := Option.ne_none_iff_exists'.mp hreceipt
    obtain ⟨hattempt, hjob⟩ := (owned hreach).receipts row.id receipt hreceipt
    have hhandle : receipt.handle = handle := congrArg SlurmJob.jobId
      (List.inj_on_of_nodup_map (exclusive hreach hnames).single hjob hsubmitted rfl)
    rw [hid] at hreceipt hattempt
    simp [checkedReceipt, hreceipt, hattempt, hhandle]
  · right
    rwa [hid] at hcleaned

theorem calls_find_receipts_sample :
    let s := (slurmSystem (sampleTarget .retainOnFailure) (sampleProfile .async)).after
      (fun s label => decide (s.undisturbed (sampleTarget .retainOnFailure) label)) {} submittedPair
    (s.workers.db.taskAttempts.rows.map fun row => (row.id, row.targetHandle)) =
      [(2, some "42"), (5, some "43")] ∧ s.cleaned = [] ∧
    ∀ worker work handle, s.Calls worker work handle →
      s.checkedReceipt work.request handle = true ∨ work.request.attemptId ∈ s.cleaned := by
  intro s
  have hfound := calls_find_receipts (submittedPair_reachable .retainOnFailure)
    (sampleTarget_distinctNames (by decide))
  exact ⟨by decide, hfound.2 rfl, hfound.1⟩

end SlurmState

end QhpcEcosystem
