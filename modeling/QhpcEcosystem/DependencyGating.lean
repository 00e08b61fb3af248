/-
Dependencies under retries.  A task starts only after its parents have
succeeded, and a retry that takes a parent back takes the task back with it, so
in a run that is not canceled no task is running or succeeded before its
parents.
-/
import QhpcEcosystem.Descendants
import QhpcEcosystem.RunningTasks
import QhpcEcosystem.WorkerPhases

namespace QhpcEcosystem

/-- The task has started and was not taken back or stopped. -/
def TaskState.started : TaskState → Bool
  | .running | .succeeded => true
  | .pending | .failed | .canceled => false

/-- The sweep does not reopen a task of a canceled run. -/
theorem ExpiredLease.runState_of_reopen {row : ExpiredLease} (h : row.expiry = .reopen) :
    row.runState ≠ .canceled := by
  intro hcanceled
  unfold ExpiredLease.expiry at h
  split at h
  · cases h
  · next hopen =>
      split at h
      · cases h
      · next htarget =>
          rw [hcanceled] at hopen
          cases hattempt : row.attempt with
          | none => simp [hattempt] at hopen
          | some attempt =>
              cases hhandle : attempt.targetHandle <;> simp [hattempt, hhandle] at hopen htarget

/-- The run is not canceled. -/
def keepsRun (runId : Uuid) (_ : Db) : Operation × Time → Bool
  | (.cancelRun canceled, _) => canceled ≠ runId
  | _ => true

/-- Every parent of a started task of the run has succeeded. -/
def Db.Gated (db : Db) (runId : Uuid) : Prop :=
  ∀ task ∈ db.tasks.rows, task.runId = runId → task.state.started = true → ∀ definition,
    db.definition? runId = some definition → ∀ node ∈ parents definition task.nodeId,
      ∃ parent, db.task? runId node = some parent ∧ parent.state = .succeeded

/-- No attempt of the run waits for its cancellation. -/
def Db.Unrequested (db : Db) (runId : Uuid) : Prop :=
  ∀ attempt ∈ db.taskAttempts.rows, attempt.runId = runId → attempt.state ≠ .cancelRequested

theorem Db.Unrequested.step {db db' : Db} {now : Time} {operation : Operation} {runId : Uuid}
    (h : db.Unrequested runId) (hoperation : operation ≠ .cancelRun runId)
    (hstep : db.Transition now operation db') : db'.Unrequested runId := by
  rintro row' hrow' rfl hrequested
  obtain ⟨row, hrow, hrun, hstate⟩ | ⟨hcancel, -⟩ := hstep.requested hrow' hrequested
  · exact h row hrow hrun hstate
  · exact hoperation hcancel

namespace Db.Gated

variable {db db' : Db} {runId : Uuid} (h : db.Gated runId)

include h

/-- Rewriting rows keeps a run gated when no task of it starts and no succeeded
parent of a started task is taken back. -/
theorem rewrite (hintegrity : db.Integrity) {e : Effect} (hchanges : db.Changes e db')
    (hkeeps : e.Keeps) (hnew : ∀ task ∈ e.newTasks, task.state.started = false)
    (hstarted : ∀ task ∈ db.tasks.rows, task.runId = runId →
      (e.task.apply task).state.started = true → task.state.started = true)
    (hparent : ∀ definition, db.definition? runId = some definition →
      ∀ task ∈ db.tasks.rows, task.runId = runId →
      (e.task.apply task).state.started = true → ∀ parent ∈ db.tasks.rows,
      parent.runId = runId → parent.nodeId ∈ parents definition task.nodeId →
      parent.state = .succeeded → (e.task.apply parent).state = .succeeded) :
    db'.Gated runId := by
  intro task htask hrun hstate definition hdefinition node hnode
  obtain ⟨old, hold, rfl⟩ | hadded := hchanges.mem_tasks.mp htask
  · rw [Task.apply_runId] at hrun
    rw [Task.apply_nodeId] at hnode
    obtain ⟨run, hfound⟩ := hintegrity.taskRun old hold
    rw [hrun] at hfound
    have hdefinition := hintegrity.definition?_old hchanges hkeeps.run hfound hdefinition
    obtain ⟨parent, hparentFound, hsucceeded⟩ :=
      h old hold hrun (hstarted old hold hrun hstate) definition hdefinition node hnode
    obtain ⟨hparentRun, hparentNode⟩ := Db.place_of_task? hparentFound
    refine ⟨_, hchanges.task?_some hparentFound, ?_⟩
    exact hparent definition hdefinition old hold hrun hstate parent
      (Table.mem_of_row? hparentFound) hparentRun (by rwa [hparentNode]) hsucceeded
  · rw [hnew task hadded] at hstate
    cases hstate

/-- No task of the run starts, and succeeded tasks stay so. -/
theorem steady (hintegrity : db.Integrity) {e : Effect} (hchanges : db.Changes e db')
    (hkeeps : e.Keeps) (hnew : e.newTasks = [])
    (htask : ∀ task ∈ db.tasks.rows, task.runId = runId →
      ((e.task.apply task).state.started = true → task.state.started = true) ∧
      (task.state = .succeeded → (e.task.apply task).state = .succeeded)) :
    db'.Gated runId :=
  h.rewrite hintegrity hchanges hkeeps (by simp [hnew])
    (fun task hmem hrun => (htask task hmem hrun).1)
    fun _ _ _ _ _ _ parent hmem hrun _ => (htask parent hmem hrun).2

/-- The sweep reopens running tasks only. -/
theorem sweep (hintegrity : db.Integrity) (hrequests : db.Unrequested runId) (now : Time) :
    (resetExpiredLeases db now).Gated runId := by
  refine h.steady hintegrity (resetExpiredLeases_changes db now) (Effect.keeps_sweep db now) rfl
    fun task htask hrun => ?_
  simp only [Effect.sweep, Db.sweepTask]
  split
  · next row hrow =>
      obtain ⟨run, hfound, -, hrunState, hcurrent, hreason⟩ := expiredLease?_spec hrow
      cases hexpiry : row.expiry with
      | closeCanceled => exact ⟨fun hstate => hstate, fun hstate => hstate⟩
      | keepTarget => exact ⟨fun hstate => hstate, fun hstate => hstate⟩
      | reopen =>
          refine ⟨fun hstate => (by cases hstate), fun hsucceeded => ?_⟩
          rcases hreason with hrunning | ⟨attempt, hattempt, hrequested⟩
          · rw [hsucceeded] at hrunning
            cases hrunning
          · rw [hcurrent] at hattempt
            obtain ⟨hmem, hattemptRun, -⟩ := numberedAttempt?_spec hattempt
            exact absurd hrequested (hrequests attempt hmem (hattemptRun.trans hrun))
  · exact ⟨fun hstate => hstate, fun hstate => hstate⟩

theorem claims (hintegrity : db.Integrity) {now : Time} {workerId : String}
    {leaseSeconds : Int} {admission : Admission} {claimed : Option TaskLease}
    (hclaims : db.Claims now workerId leaseSeconds admission claimed db') :
    db'.Gated runId := by
  cases hclaims with
  | idle _ _ => exact h
  | @recovered row _ =>
      refine h.steady hintegrity (recoverAttempt_changes _ _ _ _ row.attempt)
        (Effect.keeps_recover _ _ _ _) rfl fun task _ _ => ?_
      simp only [Effect.recover, RowUpdate.forKey_apply]
      split <;> exact ⟨fun hstate => hstate, fun hstate => hstate⟩
  | @started started _ _ _ hready hlease =>
      obtain ⟨-, -, -, -, -, -, -, -, hchanges⟩ := leaseTask_ok hlease
      intro task htask hrun hstate definition hdefinition node hnode
      obtain ⟨old, hold, rfl⟩ | hadded := hchanges.mem_tasks.mp htask
      · rw [Task.apply_runId] at hrun
        rw [Task.apply_nodeId] at hnode
        obtain ⟨run, hfound⟩ := hintegrity.taskRun old hold
        rw [hrun] at hfound
        have hdefinition := hintegrity.definition?_old hchanges
          (Effect.keeps_start _ _ _ _ _ _).run hfound hdefinition
        have hparent : ∃ parent, db.task? runId node = some parent ∧
            parent.state = .succeeded := by
          simp only [Effect.start, RowUpdate.forKey_apply] at hstate
          split at hstate
          · next hkey =>
              obtain ⟨ready, hreadyDefinition, hparents⟩ := hready.parents
              have hsame : old = started := db.tasks.eq_of_key_eq hold hready.mem hkey
              rw [← hsame, hrun, hdefinition] at hreadyDefinition
              obtain rfl := Option.some.inj hreadyDefinition
              rw [← hsame, hrun] at hparents
              exact hparents node hnode
          · exact h old hold hrun hstate definition hdefinition node hnode
        obtain ⟨parent, hparentFound, hsucceeded⟩ := hparent
        refine ⟨_, hchanges.task?_some hparentFound, ?_⟩
        simp only [Effect.start, RowUpdate.forKey_apply]
        split
        · next hkey =>
            have hsame : parent = started :=
              db.tasks.eq_of_key_eq (Table.mem_of_row? hparentFound) hready.mem hkey
            rw [hsame, hready.pending] at hsucceeded
            cases hsucceeded
        · exact hsucceeded
      · cases hadded

/-- A retry takes the tasks downstream back with their parents. -/
theorem retry (hintegrity : db.Integrity) {retried : Uuid} {nodeId : String}
    {definition : Workflow} (hfound : db.definition? retried = some definition)
    (hchanges : db.Changes (.retry retried (descendants definition nodeId)) db') :
    db'.Gated runId := by
  refine h.rewrite hintegrity hchanges (Effect.keeps_retry _ _) (by simp [Effect.retry])
    (fun task _ _ hstate => ?_) fun other hother task _ hrun hstate parent _ hparentRun
      hparent hsucceeded => ?_
  · simp only [Effect.retry, RowUpdate.onlyIf_apply] at hstate
    split at hstate
    · cases hstate
    · exact hstate
  · simp only [Effect.retry, RowUpdate.onlyIf_apply] at hstate ⊢
    split at hstate
    · cases hstate
    · next hkept =>
        rw [if_neg]
        · exact hsucceeded
        · intro hreset
          simp only [Bool.and_eq_true, decide_eq_true_eq] at hreset hkept
          obtain ⟨edge, hedge, hsource⟩ := List.mem_map.mp hparent
          simp only [List.mem_filter, decide_eq_true_eq] at hedge
          have hsame : other = definition := by
            rw [← hparentRun, hreset.1, hfound] at hother
            exact (Option.some.inj hother).symm
          refine hkept ⟨by rw [hrun, ← hparentRun, hreset.1], ?_⟩
          rw [mem_descendants] at hreset ⊢
          exact hreset.2.tail ⟨edge, by rw [← hsame]; exact hedge.1, hsource, hedge.2⟩

/-- Every operation keeps the run gated when it does not cancel the run or an
attempt of it. -/
theorem step (hintegrity : db.Integrity) (hrequests : db.Unrequested runId) {now : Time}
    {operation : Operation} (hoperation : operation ≠ .cancelRun runId)
    (hmark : ∀ lease log details row, operation = .markAttemptCanceled lease log details →
      db.Holds lease row → row.runId ≠ runId)
    (hstep : db.Transition now operation db') : db'.Gated runId := by
  have hsame : ∀ {lease : TaskLease} {g : RowUpdate Task},
      (∀ task, (g.apply task).state = task.state) → ∀ task : Task,
      (((RowUpdate.onlyIf (Task.leasedBy lease) g).apply task).state.started = true →
        task.state.started = true) ∧
      (task.state = .succeeded →
        ((RowUpdate.onlyIf (Task.leasedBy lease) g).apply task).state = .succeeded) := by
    intro lease g hg task
    rw [RowUpdate.onlyIf_apply]
    split
    · rw [hg task]
      exact ⟨fun hstate => hstate, fun hstate => hstate⟩
    · exact ⟨fun hstate => hstate, fun hstate => hstate⟩
  have hquiet : ∀ {e : Effect}, db.Changes e db' → e.Keeps → e.newTasks = [] →
      e.task = .keep → db'.Gated runId := by
    intro e hchanges hkeeps hnew htask
    refine h.steady hintegrity hchanges hkeeps hnew fun _ _ _ => ?_
    rw [htask]
    exact ⟨fun hstate => hstate, fun hstate => hstate⟩
  cases hstep with
  | quiet hchanges => exact hquiet hchanges Effect.keeps_quiet rfl rfl
  | submitted hsubmits _ hchanges =>
      refine h.rewrite hintegrity hchanges (Effect.keeps_submit _ _) (fun task htask => ?_)
        (fun _ _ _ hstate => hstate) fun _ _ _ _ _ _ _ _ _ _ hsucceeded => hsucceeded
      obtain ⟨_, _, _, _, _, _, heq⟩ := hsubmits.tasks_eq task htask
      rw [heq]
      rfl
  | claimed hclaims =>
      exact (h.sweep hintegrity hrequests now).claims (hintegrity.sweep now) hclaims
  | renewed _ hchanges =>
      exact h.steady hintegrity hchanges (Effect.keeps_ofToken (fun _ => ⟨rfl, rfl, rfl, rfl⟩)
        (fun _ => ⟨rfl, rfl, le_rfl⟩) _) rfl fun task _ _ => hsame (fun _ => rfl) task
  | marked _ _ hchanges =>
      exact hquiet hchanges (Effect.keeps_ofLease (fun _ => ⟨rfl, rfl, rfl, rfl⟩) _) rfl rfl
  | recorded _ _ hchanges =>
      exact hquiet hchanges (Effect.keeps_ofLease (fun _ => ⟨rfl, rfl, rfl, rfl⟩) _) rfl rfl
  | observed _ _ hchanges =>
      exact hquiet hchanges (Effect.keeps_ofLease (fun _ => ⟨rfl, rfl, rfl, rfl⟩) _) rfl rfl
  | released _ hchanges =>
      exact h.steady hintegrity hchanges (Effect.keeps_ofToken (fun _ => ⟨rfl, rfl, rfl, rfl⟩)
        (fun _ => ⟨rfl, rfl, le_rfl⟩) _) rfl fun task _ _ => hsame (fun _ => rfl) task
  | @markedCanceled lease log details row _ hholds hchanges =>
      refine h.steady hintegrity hchanges (Effect.keeps_finish (fun _ => ⟨rfl, rfl, rfl, rfl⟩)
        (fun _ => ⟨rfl, rfl, le_rfl⟩) Run.keeps_keep _) rfl fun task _ hrun => ?_
      have hother := hmark lease log details row rfl hholds
      have hkey : ¬ (task.runId, task.nodeId) = (lease.runId, lease.nodeId) := by
        intro hkey
        exact hother (by rw [hholds.runId, ← (Prod.mk.inj hkey).1, hrun])
      simp only [Effect.finish, RowUpdate.forKey_apply, Task.key_eq, hkey, ↓reduceIte]
      exact ⟨fun hstate => hstate, fun hstate => hstate⟩
  | completed htask hrunning _ _ _ _ _ _ hfinished _ hchanges =>
      refine h.steady hintegrity hchanges (Effect.keeps_complete hfinished.keeps _) rfl
        fun task hmem _ => ?_
      simp only [Effect.complete, Effect.finish, RowUpdate.forKey_apply]
      split
      · next hkey =>
          rw [db.tasks.eq_of_key_eq hmem (Table.mem_of_row? htask)
            (hkey.trans (Table.key_of_row? htask).symm), hrunning]
          exact ⟨fun _ => rfl, fun _ => rfl⟩
      · exact ⟨fun hstate => hstate, fun hstate => hstate⟩
  | failed htask hrunning _ _ hchanges =>
      refine h.steady hintegrity hchanges (Effect.keeps_finish (fun _ => ⟨rfl, rfl, rfl, rfl⟩)
        (fun _ => ⟨rfl, rfl, le_rfl⟩)
        (Run.keeps_onlyIf (fun _ => ⟨rfl, rfl, rfl, rfl, rfl⟩) _) _) rfl
        fun task hmem _ => ?_
      simp only [Effect.finish, RowUpdate.forKey_apply]
      split
      · next hkey =>
          rw [db.tasks.eq_of_key_eq hmem (Table.mem_of_row? htask)
            (hkey.trans (Table.key_of_row? htask).symm), hrunning]
          exact ⟨fun hstate => (by cases hstate), fun hstate => (by cases hstate)⟩
      · exact ⟨fun hstate => hstate, fun hstate => hstate⟩
  | @runCanceled canceled _ _ _ _ hchanges =>
      refine h.steady hintegrity hchanges (Effect.keeps_cancelRun _ _) rfl
        fun task _ hrun => ?_
      have hne : ¬ task.runId = canceled := fun heq => hoperation (by rw [← hrun, heq])
      simp [Effect.cancelRun, RowUpdate.onlyIf_apply, Task.unfinishedIn, hne]
  | retried _ hdefinition _ hchanges => exact h.retry hintegrity hdefinition hchanges

end Db.Gated

namespace Workers

variable {ι : Type} [DecidableEq ι] {profile : ι → WorkerProfile} {s : Workers ι}
  {runId : Uuid}

theorem gated (h : (workerSystem profile).Reachable
    (fun s label => s.lifted profile (keepsRun runId) label = true) s) :
    s.db.Unrequested runId ∧ s.db.Gated runId := by
  refine db_invariant (fun db => db.Unrequested runId ∧ db.Gated runId)
    ⟨fun _ hattempt => (by cases hattempt), fun _ htask => (by cases htask)⟩ ?_ h
  intro s label now operation hreach hinv hguard hop hcaller
  obtain ⟨hrequests, hgated⟩ := hinv
  have hoperation : operation ≠ .cancelRun runId := by
    rintro rfl
    simp [lifted, hop, keepsRun] at hguard
  have htransition := operation.transition now s.db
  refine ⟨hrequests.step hoperation htransition,
    hgated.step (integrity hreach) hrequests hoperation ?_ htransition⟩
  rintro lease log details row rfl hholds hrun
  exact hrequests row (Table.mem_of_row? hholds.found) hrun
    (requested_of_markAttemptCanceled hreach hcaller hholds)

/-- In a run that is not canceled, every task upstream of a running or succeeded
task has succeeded. -/
theorem upstream_succeeded (h : (workerSystem profile).Reachable
    (fun s label => s.lifted profile (keepsRun runId) label = true) s) :
    ∀ task ∈ s.db.tasks.rows, task.runId = runId →
      (task.state = .running ∨ task.state = .succeeded) →
      ∃ definition, s.db.definition? runId = some definition ∧
        (∀ node ∈ parents definition task.nodeId, ∃ parent,
          s.db.task? runId node = some parent ∧ parent.state = .succeeded) ∧
        ∀ node, task.nodeId ∈ descendants definition node → node ≠ task.nodeId →
          ∃ ancestor, s.db.task? runId node = some ancestor ∧ ancestor.state = .succeeded := by
  intro task htask hrun hstate
  obtain ⟨-, hgated⟩ := gated h
  have hintegrity := integrity h
  have hstarted : task.state.started = true := by
    rcases hstate with hstate | hstate <;> rw [hstate] <;> rfl
  obtain ⟨run, hfound⟩ := hintegrity.taskRun task htask
  obtain ⟨row, hrow⟩ := hintegrity.runWorkflow run (Table.mem_of_row? hfound)
  have hdefinition : s.db.definition? runId = some row.definition :=
    Db.definition?_eq_some.mpr ⟨run, row, by rw [← hrun]; exact hfound, hrow, rfl⟩
  refine ⟨_, hdefinition, hgated task htask hrun hstarted _ hdefinition, fun node hnode hne => ?_⟩
  -- the induction goes up the path: a node is the task's own or has succeeded
  rw [mem_descendants] at hnode
  have hpath : node = task.nodeId ∨ ∃ ancestor,
      s.db.task? runId node = some ancestor ∧ ancestor.state = .succeeded := by
    induction hnode using Relation.ReflTransGen.head_induction_on with
    | refl => exact .inl rfl
    | @head source target hfeeds _ ih =>
        obtain ⟨edge, hedge, hsource, htarget⟩ := hfeeds
        have hparent : ∀ child, child = target → source ∈ parents row.definition child := by
          rintro child rfl
          exact List.mem_map.mpr ⟨edge, by simp [hedge, htarget], hsource⟩
        right
        by_cases hown : target = task.nodeId
        · exact hgated task htask hrun hstarted _ hdefinition source (hparent _ hown.symm)
        · obtain ⟨child, hchild, hsucceeded⟩ := (ih hown).resolve_left hown
          obtain ⟨hchildRun, hchildNode⟩ := Db.place_of_task? hchild
          exact hgated child (Table.mem_of_row? hchild) hchildRun
            (by rw [hsucceeded]; rfl) _ hdefinition source (hparent _ hchildNode)
  exact hpath.resolve_left hne

/-- The second task of the chain is retried while its attempt is live, and
leased again. -/
def retriedChain : List (WorkerLabel (Fin 2)) :=
  clientSteps chainSubmission ++ engineSteps 0 1 2 ++ [.runner 0 0 (.result sampleResult)] ++
    engineSteps 0 3 3 ++ [.client (.retryTask 0 "b") 6] ++ engineSteps 1 7 1

theorem upstream_succeeded_retriedChain :
    let profile := sampleProfile .sync
    let s := (workerSystem profile).after (fun s => s.lifted profile (keepsRun 0)) {} retriedChain
    s.db.tasks.rows.map (fun task => (task.nodeId, task.state, task.attempt)) =
        [("a", .succeeded, 1), ("b", .running, 2)] ∧
      ∀ task ∈ s.db.tasks.rows, task.runId = 0 →
        (task.state = .running ∨ task.state = .succeeded) →
        ∃ definition, s.db.definition? 0 = some definition ∧
          (∀ node ∈ parents definition task.nodeId, ∃ parent,
            s.db.task? 0 node = some parent ∧ parent.state = .succeeded) ∧
          ∀ node, task.nodeId ∈ descendants definition node → node ≠ task.nodeId →
            ∃ ancestor, s.db.task? 0 node = some ancestor ∧ ancestor.state = .succeeded :=
  ⟨by decide, upstream_succeeded ((TransitionSystem.Reachable.initial rfl).after retriedChain)⟩

end Workers

end QhpcEcosystem
