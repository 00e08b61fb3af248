/-
Runs and their tasks.  The state of a run is stored beside the states of its
tasks and written by five operations; while a canceled run is not retried the
two agree, and a succeeded run publishes what its tasks record.
-/
import QhpcEcosystem.DependencyGating

namespace QhpcEcosystem

/-! ## Published outputs -/

/-- The outputs map every declared name to the artifact that its source task
records, and no other name. -/
def Db.Publishes (db : Db) (runId : Uuid) (definition : Workflow) (outputs : ArtifactIds) :
    Prop :=
  (∀ item ∈ definition.outputs.rows, ∃ task artifactId,
    db.task? runId item.2.source.node = some task ∧
    task.outputs.row? item.2.source.port = some (item.2.source.port, artifactId) ∧
    outputs.row? item.1 = some (item.1, artifactId)) ∧
  ∀ item ∈ outputs.rows, item.1 ∈ definition.outputs.rows.map Prod.fst

/-- The loop over the declared outputs sets each of their names once. -/
theorem collectOutputs_ok {db : Db} {runId : Uuid} {declared : List (String × WorkflowOutput)}
    (hnodup : (declared.map Prod.fst).Nodup) {outputs outputs' : ArtifactIds}
    (h : collectOutputs db runId declared outputs = .ok outputs') :
    (∀ item ∈ declared, ∃ task artifactId, db.task? runId item.2.source.node = some task ∧
      task.outputs.row? item.2.source.port = some (item.2.source.port, artifactId) ∧
      outputs'.row? item.1 = some (item.1, artifactId)) ∧
    ∀ name, name ∉ declared.map Prod.fst → outputs'.row? name = outputs.row? name := by
  induction declared generalizing outputs with
  | nil =>
      cases h
      simp
  | cons item rest ih =>
      obtain ⟨name, output⟩ := item
      obtain ⟨hfresh, hrest⟩ := List.nodup_cons.mp hnodup
      simp only [collectOutputs] at h
      split at h
      · cases h
      · next task htask =>
          split at h
          · cases h
          · next port artifactId hport =>
              have hname : port = output.source.port := Table.key_of_row? hport
              subst hname
              obtain ⟨hitems, hframe⟩ := ih hrest h
              refine ⟨?_, ?_⟩
              · intro other hother
                rcases List.mem_cons.mp hother with rfl | hother
                · refine ⟨task, artifactId, htask, hport, ?_⟩
                  rw [hframe name hfresh, Table.row?_set]
                  simp [Keyed.key]
                · exact hitems other hother
              · intro other hother
                simp only [List.map_cons, List.mem_cons, not_or] at hother
                rw [hframe other hother.2, Table.row?_set]
                have hne : ¬ name = other := fun heq => hother.1 heq.symm
                simp [Keyed.key, hne]

theorem Db.publishes_of_collectOutputs {db : Db} {runId : Uuid} {definition : Workflow}
    {outputs : ArtifactIds}
    (h : collectOutputs db runId definition.outputs.rows Table.empty = .ok outputs) :
    db.Publishes runId definition outputs := by
  obtain ⟨hitems, hframe⟩ := collectOutputs_ok definition.outputs.nodup h
  refine ⟨hitems, fun item hitem => ?_⟩
  by_contra hunknown
  have hsome := Table.row?_of_mem hitem
  rw [show Keyed.key item = item.1 from rfl, hframe item.1 hunknown] at hsome
  cases hsome

/-! ## Agreement -/

/-- The run is not retried once it is canceled. -/
def retriesUncanceled (runId : Uuid) (db : Db) : Operation × Time → Bool
  | (.retryTask retried _, _) =>
      retried ≠ runId || (db.run? runId).all fun run => run.state ≠ .canceled
  | _ => true

/-- The row of a run agrees with the rows of its tasks. -/
structure Db.Agrees (db : Db) (run : Run) : Prop where
  succeeded : run.state = .succeeded →
    (∀ task ∈ db.tasks.rows, task.runId = run.id → task.state = .succeeded) ∧
      ∀ definition, db.definition? run.id = some definition →
        db.Publishes run.id definition run.outputs
  unfinished : run.state ≠ .succeeded → run.outputs = Table.empty ∧
    ∃ task ∈ db.tasks.rows, task.runId = run.id ∧ task.state ≠ .succeeded
  failed : run.state = .failed →
    ∃ task ∈ db.tasks.rows, task.runId = run.id ∧ task.state = .failed

/-- The run with this identifier, when there is one, agrees with its tasks. -/
def Db.RunAgrees (db : Db) (runId : Uuid) : Prop :=
  ∀ run, db.run? runId = some run → db.Agrees run

/-- Only a canceled run has an attempt that waits for its cancellation. -/
def Db.RequestsCanceled (db : Db) (runId : Uuid) : Prop :=
  ∀ attempt ∈ db.taskAttempts.rows, attempt.runId = runId →
    attempt.state = .cancelRequested → ∀ run, db.run? runId = some run → run.state = .canceled

theorem Db.RequestsCanceled.step {db db' : Db} {now : Time} {operation : Operation}
    {runId : Uuid} (h : db.RequestsCanceled runId) (hintegrity : db.Integrity)
    (hruns : db.CanceledRuns)
    (hguard : retriesUncanceled runId db (operation, now) = true)
    (hstep : db.Transition now operation db') : db'.RequestsCanceled runId := by
  rintro row' hrow' rfl hrequested run' hrun'
  obtain ⟨row, hrow, hrowRun, hstate⟩ | ⟨-, hcanceled⟩ := hstep.requested hrow' hrequested
  · obtain ⟨run, hrun⟩ := hintegrity.attemptRun hrow
    rw [hrowRun] at hrun
    have hcanceled := h row hrow hrowRun hstate run hrun
    obtain ⟨after, hafter, hstays⟩ := hstep.run_stays_canceled hruns hrun hcanceled (by
      rintro nodeId rfl
      simp [retriesUncanceled, hrun, hcanceled] at hguard)
    rw [hrun'] at hafter
    obtain rfl := Option.some.inj hafter
    exact hstays
  · exact hcanceled run' hrun'

theorem Db.Publishes.rewrite {db db' : Db} {e : Effect} {runId : Uuid} {definition : Workflow}
    {outputs : ArtifactIds} (h : db.Publishes runId definition outputs)
    (hchanges : db.Changes e db')
    (houtputs : ∀ task ∈ db.tasks.rows, task.runId = runId →
      (e.task.apply task).outputs = task.outputs) : db'.Publishes runId definition outputs := by
  obtain ⟨hitems, hknown⟩ := h
  refine ⟨fun item hitem => ?_, hknown⟩
  obtain ⟨task, artifactId, htask, hport, hname⟩ := hitems item hitem
  refine ⟨_, artifactId, hchanges.task?_some htask, ?_, hname⟩
  rw [houtputs task (Table.mem_of_row? htask) (Db.place_of_task? htask).1]
  exact hport

namespace Db.RunAgrees

variable {db db' : Db} {runId : Uuid}

/-- What a rewriting of rows owes to the agreement. -/
theorem rewrite (hintegrity : db.Integrity) {e : Effect} (hchanges : db.Changes e db')
    (hkeeps : e.Keeps) (hnew : e.newTasks = []) (hnewRuns : e.newRuns = [])
    (hsucceeded : ∀ run, db.run? runId = some run → (e.run.apply run).state = .succeeded →
      (∀ task ∈ db.tasks.rows, task.runId = runId → (e.task.apply task).state = .succeeded) ∧
        ∀ definition, db.definition? runId = some definition →
          db'.Publishes runId definition (e.run.apply run).outputs)
    (hunfinished : ∀ run, db.run? runId = some run → (e.run.apply run).state ≠ .succeeded →
      (e.run.apply run).outputs = Table.empty ∧ ∃ task ∈ db.tasks.rows, task.runId = runId ∧
        (e.task.apply task).state ≠ .succeeded)
    (hfailed : ∀ run, db.run? runId = some run → (e.run.apply run).state = .failed →
      ∃ task ∈ db.tasks.rows, task.runId = runId ∧ (e.task.apply task).state = .failed) :
    db'.RunAgrees runId := by
  intro run' hrun'
  obtain ⟨run, hrun, rfl⟩ | hadded := hchanges.mem_runs.mp (Table.mem_of_row? hrun')
  · have hid : run.id = runId := by
      have := Db.id_of_run? hrun'
      rwa [Run.apply_id] at this
    have hfound : db.run? runId = some run := by
      rw [← hid]
      exact Table.row?_of_mem hrun
    have hlift : ∀ (p : TaskState → Prop), (∃ task ∈ db.tasks.rows, task.runId = runId ∧
        p (e.task.apply task).state) →
        ∃ task ∈ db'.tasks.rows, task.runId = (e.run.apply run).id ∧ p task.state := by
      rintro p ⟨task, htask, htaskRun, hp⟩
      exact ⟨_, hchanges.mem_tasks.mpr (.inl ⟨task, htask, rfl⟩),
        by rw [Task.apply_runId, Run.apply_id, htaskRun, hid], hp⟩
    constructor
    · intro hstate
      obtain ⟨hall, hpublishes⟩ := hsucceeded run hfound hstate
      rw [Run.apply_id, hid]
      refine ⟨fun task htask htaskRun => ?_, fun definition hdefinition => ?_⟩
      · obtain ⟨old, hold, rfl⟩ | hadded := hchanges.mem_tasks.mp htask
        · rw [Task.apply_runId] at htaskRun
          exact hall old hold htaskRun
        · simp [hnew] at hadded
      · exact hpublishes definition
          (hintegrity.definition?_old hchanges hkeeps.run hfound hdefinition)
    · intro hstate
      obtain ⟨hempty, htask⟩ := hunfinished run hfound hstate
      exact ⟨hempty, hlift (· ≠ .succeeded) htask⟩
    · intro hstate
      exact hlift (· = .failed) (hfailed run hfound hstate)
  · simp [hnewRuns] at hadded

variable (h : db.RunAgrees runId)

include h

/-- The run at most starts, and its tasks neither succeed nor are taken back
from success or failure. -/
theorem steady (hintegrity : db.Integrity) {e : Effect} (hchanges : db.Changes e db')
    (hkeeps : e.Keeps) (hnew : e.newTasks = []) (hnewRuns : e.newRuns = [])
    (hrun : ∀ run, db.run? runId = some run → (e.run.apply run).outputs = run.outputs ∧
      ((e.run.apply run).state = run.state ∨
        run.state.live = true ∧ (e.run.apply run).state = .running))
    (htask : ∀ task ∈ db.tasks.rows, task.runId = runId →
      (e.task.apply task).outputs = task.outputs ∧
      ((e.task.apply task).state = .succeeded ↔ task.state = .succeeded) ∧
      (task.state = .failed → (e.task.apply task).state = .failed)) :
    db'.RunAgrees runId := by
  refine rewrite hintegrity hchanges hkeeps hnew hnewRuns ?_ ?_ ?_
  · intro run hfound hstate
    obtain ⟨houtputs, hsame | ⟨-, hstarted⟩⟩ := hrun run hfound
    · obtain ⟨hall, hpublishes⟩ := (h run hfound).succeeded (hsame.symm.trans hstate)
      rw [Db.id_of_run? hfound] at hall hpublishes
      refine ⟨fun task hmem htaskRun =>
        (htask task hmem htaskRun).2.1.mpr (hall task hmem htaskRun), fun definition hd => ?_⟩
      rw [houtputs]
      exact (hpublishes definition hd).rewrite hchanges fun task hmem htaskRun =>
        (htask task hmem htaskRun).1
    · rw [hstarted] at hstate
      cases hstate
  · intro run hfound hstate
    obtain ⟨houtputs, hstates⟩ := hrun run hfound
    have hopen : run.state ≠ .succeeded := by
      intro hwas
      rcases hstates with hsame | ⟨hlive, -⟩
      · exact hstate (hsame.trans hwas)
      · rw [hwas] at hlive
        cases hlive
    obtain ⟨hempty, task, hmem, htaskRun, hnot⟩ := (h run hfound).unfinished hopen
    rw [Db.id_of_run? hfound] at htaskRun
    exact ⟨houtputs.trans hempty, task, hmem, htaskRun,
      fun hsucceeds => hnot ((htask task hmem htaskRun).2.1.mp hsucceeds)⟩
  · intro run hfound hstate
    obtain ⟨-, hsame | ⟨-, hstarted⟩⟩ := hrun run hfound
    · obtain ⟨task, hmem, htaskRun, hfailed⟩ := (h run hfound).failed (hsame.symm.trans hstate)
      rw [Db.id_of_run? hfound] at htaskRun
      exact ⟨task, hmem, htaskRun, (htask task hmem htaskRun).2.2 hfailed⟩
    · rw [hstarted] at hstate
      cases hstate

/-- An operation on another run. -/
theorem elsewhere (hintegrity : db.Integrity) {e : Effect} (hchanges : db.Changes e db')
    (hkeeps : e.Keeps) (hnew : e.newTasks = []) (hnewRuns : e.newRuns = [])
    (hrun : ∀ run, db.run? runId = some run → e.run.apply run = run)
    (htask : ∀ task ∈ db.tasks.rows, task.runId = runId → e.task.apply task = task) :
    db'.RunAgrees runId := by
  refine h.steady hintegrity hchanges hkeeps hnew hnewRuns (fun run hfound => ?_)
    fun task hmem htaskRun => ?_
  · rw [hrun run hfound]
    exact ⟨rfl, .inl rfl⟩
  · rw [htask task hmem htaskRun]
    exact ⟨rfl, Iff.rfl, fun hstate => hstate⟩

/-- The sweep reopens running tasks only. -/
theorem sweep (hintegrity : db.Integrity) (hrequests : db.RequestsCanceled runId) (now : Time) :
    (resetExpiredLeases db now).RunAgrees runId := by
  refine h.steady hintegrity (resetExpiredLeases_changes db now) (Effect.keeps_sweep db now) rfl
    rfl (fun _ _ => ⟨rfl, .inl rfl⟩) fun task htask hrun => ?_
  simp only [Effect.sweep, Db.sweepTask]
  split
  · next row hrow =>
      obtain ⟨run, hfound, -, hrunState, hcurrent, hreason⟩ := expiredLease?_spec hrow
      cases hexpiry : row.expiry with
      | closeCanceled => exact ⟨rfl, Iff.rfl, fun hstate => hstate⟩
      | keepTarget => exact ⟨rfl, Iff.rfl, fun hstate => hstate⟩
      | reopen =>
          have hrunning : task.state = .running := by
            rcases hreason with hrunning | ⟨attempt, hattempt, hrequested⟩
            · exact hrunning
            · rw [hcurrent] at hattempt
              obtain ⟨hmem, hattemptRun, -⟩ := numberedAttempt?_spec hattempt
              rw [hrun] at hattemptRun hfound
              have hcanceled := hrequests attempt hmem hattemptRun hrequested run hfound
              exact absurd (hrunState.trans hcanceled) (ExpiredLease.runState_of_reopen hexpiry)
          exact ⟨rfl, by simp [Expiry.taskUpdate, Task.reopen, hrunning], by simp [hrunning]⟩
  · exact ⟨rfl, Iff.rfl, fun hstate => hstate⟩

theorem claims (hintegrity : db.Integrity) {now : Time} {workerId : String}
    {leaseSeconds : Int} {admission : Admission} {claimed : Option TaskLease}
    (hclaims : db.Claims now workerId leaseSeconds admission claimed db') :
    db'.RunAgrees runId := by
  cases hclaims with
  | idle _ _ => exact h
  | @recovered row _ =>
      refine h.steady hintegrity (recoverAttempt_changes _ _ _ _ row.attempt)
        (Effect.keeps_recover _ _ _ _) rfl rfl (fun _ _ => ⟨rfl, .inl rfl⟩) fun task _ _ => ?_
      simp only [Effect.recover, RowUpdate.forKey_apply]
      split <;> exact ⟨rfl, Iff.rfl, fun hstate => hstate⟩
  | @started started _ _ _ hready hlease =>
      obtain ⟨-, -, -, -, -, -, -, -, hchanges⟩ := leaseTask_ok hlease
      refine h.steady hintegrity hchanges (Effect.keeps_start _ _ _ _ _ _) rfl rfl
        (fun run hfound => ?_) fun task htask _ => ?_
      · simp only [Effect.start, RowUpdate.forKey_apply]
        split
        · next hid =>
            obtain ⟨owner, howner, hlive, -⟩ := hready.run
            have hid : run.id = started.runId := hid
            rw [← hid, Db.id_of_run? hfound, hfound] at howner
            rw [Option.some.inj howner]
            exact ⟨rfl, .inr ⟨hlive, rfl⟩⟩
        · exact ⟨rfl, .inl rfl⟩
      · simp only [Effect.start, RowUpdate.forKey_apply]
        split
        · next hkey =>
            have hpending : task.state = .pending := by
              rw [db.tasks.eq_of_key_eq htask hready.mem hkey]
              exact hready.pending
            simp [Task.start, hpending]
        · exact ⟨rfl, Iff.rfl, fun hstate => hstate⟩

/-- A new run has pending tasks only. -/
theorem submit (hintegrity : db.Integrity) {row : WorkflowRow} {run : Run} {tasks : List Task}
    {now : Time} (hsubmits : db.Submits now row run tasks)
    (hchanges : db.Changes (.submit run tasks) db') : db'.RunAgrees runId := by
  intro run' hrun'
  obtain ⟨executionTarget, inputs, heq⟩ := hsubmits.run_eq
  obtain ⟨old, hold, rfl⟩ | hadded := hchanges.mem_runs.mp (Table.mem_of_row? hrun')
  · have hid := Db.id_of_run? hrun'
    have hfound : db.run? runId = some old := by
      rw [← hid]
      exact Table.row?_of_mem hold
    have hagrees := h old hfound
    constructor
    · intro hstate
      obtain ⟨hall, hpublishes⟩ := hagrees.succeeded hstate
      refine ⟨fun task htask htaskRun => ?_, fun definition hdefinition => ?_⟩
      · obtain ⟨before, hbefore, rfl⟩ | hnew := hchanges.mem_tasks.mp htask
        · exact hall before hbefore htaskRun
        · have hrunId := (hsubmits.pending task hnew).1
          exact absurd (htaskRun.symm.trans hrunId) (Db.Submits.fresh hchanges old hold)
      · refine (hpublishes definition ?_).rewrite hchanges fun _ _ _ => rfl
        exact hintegrity.definition?_old hchanges (Effect.keeps_submit run tasks).run
          (Table.row?_of_mem hold) hdefinition
    · intro hstate
      obtain ⟨hempty, task, htask, hrest⟩ := hagrees.unfinished hstate
      exact ⟨hempty, task, hchanges.mem_tasks.mpr (.inl ⟨task, htask, rfl⟩), hrest⟩
    · intro hstate
      obtain ⟨task, htask, hrest⟩ := hagrees.failed hstate
      exact ⟨task, hchanges.mem_tasks.mpr (.inl ⟨task, htask, rfl⟩), hrest⟩
  · obtain rfl := List.mem_singleton.mp hadded
    constructor
    · intro hstate
      rw [heq] at hstate
      cases hstate
    · intro _
      obtain ⟨task, htask⟩ := hsubmits.exists_task hintegrity
      obtain ⟨htaskRun, hpending⟩ := hsubmits.pending task htask
      refine ⟨by rw [heq]; rfl, task, hchanges.mem_tasks.mpr (.inr htask), htaskRun, ?_⟩
      rw [hpending]
      simp
    · intro hstate
      rw [heq] at hstate
      cases hstate

omit h in
/-- A run with a running task is neither canceled nor succeeded. -/
theorem open_of_running (h : db.RunAgrees runId) (hcanceled : db.CanceledRuns) {task : Task}
    (htask : task ∈ db.tasks.rows) (htaskRun : task.runId = runId)
    (hrunning : task.state = .running) :
    ∀ run, db.run? runId = some run → run.state ≠ .canceled ∧ run.state ≠ .succeeded := by
  intro run hrun
  refine ⟨fun hstate => ?_, fun hstate => ?_⟩
  · exact (hcanceled task htask run (by rw [htaskRun, hrun]) hstate).2 hrunning
  · have hsucceeded := ((h run hrun).succeeded hstate).1 task htask
      (by rw [htaskRun, Db.id_of_run? hrun])
    rw [hrunning] at hsucceeded
    cases hsucceeded

/-- The last completion publishes the outputs that the tasks record. -/
theorem complete (hintegrity : db.Integrity) (hcanceled : db.CanceledRuns) {lease : TaskLease}
    {task : Task} {outputIds : ArtifactIds} {log : String} {update : RowUpdate Run}
    {added : List Artifact} {now : Time}
    (htask : db.task? lease.runId lease.nodeId = some task) (hrunning : task.state = .running)
    (hfinished : FinishedRun db db'.tasks now lease.runId update)
    (hchanges : db.Changes (.complete lease now outputIds log update added) db') :
    db'.RunAgrees runId := by
  have hmem := Table.mem_of_row? htask
  obtain ⟨htaskRun, htaskNode⟩ := Db.place_of_task? htask
  have hkeeps : (Effect.complete lease now outputIds log update added).Keeps :=
    Effect.keeps_complete hfinished.keeps _
  have hother : ∀ other : Task, (other.runId, other.nodeId) ≠ (lease.runId, lease.nodeId) →
      (Effect.complete lease now outputIds log update added).task.apply other = other := by
    intro other hne
    simp only [Effect.complete, Effect.finish, RowUpdate.forKey_apply, Task.key_eq, hne,
      ↓reduceIte]
  have hsucceeds : ∀ other ∈ db.tasks.rows, other.state = .succeeded →
      ((Effect.complete lease now outputIds log update added).task.apply other) = other := by
    intro other hotherMem hstate
    apply hother
    intro hkey
    have hsame : other = task := db.tasks.eq_of_key_eq hotherMem hmem
      (hkey.trans (Table.key_of_row? htask).symm)
    rw [hsame, hrunning] at hstate
    cases hstate
  by_cases hrun : lease.runId = runId
  · subst hrun
    have hopen := open_of_running h hcanceled hmem htaskRun hrunning
    cases hfinished with
    | @unfinished left hleft hleftRun hleftState =>
        refine rewrite hintegrity hchanges hkeeps rfl rfl ?_ ?_ ?_
        · intro run hfound hstate
          exact absurd hstate (hopen run hfound).2
        · intro run hfound _
          obtain ⟨hempty, -⟩ := (h run hfound).unfinished (hopen run hfound).2
          obtain ⟨old, hold, rfl⟩ | hnew := hchanges.mem_tasks.mp hleft
          · rw [Task.apply_runId] at hleftRun
            exact ⟨hempty, old, hold, hleftRun, hleftState⟩
          · cases hnew
        · intro run hfound hstate
          obtain ⟨failed, hfailedMem, hfailedRun, hfailed⟩ := (h run hfound).failed hstate
          rw [Db.id_of_run? hfound] at hfailedRun
          refine ⟨failed, hfailedMem, hfailedRun, ?_⟩
          rw [hother]
          · exact hfailed
          · intro hkey
            have hsame : failed = task := db.tasks.eq_of_key_eq hfailedMem hmem
              (hkey.trans (Table.key_of_row? htask).symm)
            rw [hsame, hrunning] at hfailed
            cases hfailed
    | @finished definition outputs hall hdefinition houtputs =>
        have hstate : ∀ run, db.run? lease.runId = some run →
            (Effect.complete lease now outputIds log
              (.forKey lease.runId (Run.succeed now outputs)) added).run.apply run =
              (Run.succeed now outputs).apply run := by
          intro run hfound
          simp only [Effect.complete, Effect.finish, RowUpdate.forKey_apply, Run.key_eq,
            Db.id_of_run? hfound, ↓reduceIte]
        refine rewrite hintegrity hchanges hkeeps rfl rfl ?_ ?_ ?_
        · intro run hfound _
          rw [hstate run hfound]
          refine ⟨fun other hotherMem hotherRun => ?_, fun found hfoundDefinition => ?_⟩
          · exact hall _ (hchanges.mem_tasks.mpr (.inl ⟨other, hotherMem, rfl⟩))
              (by rw [Task.apply_runId, hotherRun])
          · rw [hdefinition] at hfoundDefinition
            obtain rfl := Option.some.inj hfoundDefinition
            have hpublishes := Db.publishes_of_collectOutputs houtputs
            exact hpublishes
        · intro run hfound hnot
          rw [hstate run hfound] at hnot
          exact absurd rfl hnot
        · intro run hfound hfailed
          rw [hstate run hfound] at hfailed
          cases hfailed
  · have hrunUpdate : ∀ run, db.run? runId = some run →
        (Effect.complete lease now outputIds log update added).run.apply run = run := by
      intro run hfound
      cases hfinished with
      | unfinished _ _ _ => rfl
      | finished _ _ _ =>
          have hne : ¬ runId = lease.runId := fun heq => hrun heq.symm
          simp only [Effect.complete, Effect.finish, RowUpdate.forKey_apply, Run.key_eq,
            Db.id_of_run? hfound, hne, ↓reduceIte]
    refine h.elsewhere hintegrity hchanges hkeeps rfl rfl hrunUpdate
      fun other _ hotherRun => hother other fun hkey => ?_
    exact hrun ((Prod.mk.inj hkey).1.symm.trans hotherRun)

/-- An attempt ends as canceled in a run that was canceled before. -/
theorem markCanceled (hintegrity : db.Integrity) (hrequests : db.RequestsCanceled runId)
    {lease : TaskLease} {log : String} {row : Attempt} {now : Time}
    (hholds : db.Holds lease row) (hrequested : row.state = .cancelRequested)
    (hchanges : db.Changes (.finish lease (Attempt.cancel now log) (Task.cancel now)) db') :
    db'.RunAgrees runId := by
  have hkeeps : (Effect.finish lease (Attempt.cancel now log) (Task.cancel now)).Keeps :=
    Effect.keeps_finish (fun _ => ⟨rfl, rfl, rfl, rfl⟩) (fun _ => ⟨rfl, rfl, le_rfl⟩)
      Run.keeps_keep _
  by_cases hrun : lease.runId = runId
  · -- the run is canceled, and no task of a canceled run succeeds
    subst hrun
    have hrow := Table.mem_of_row? hholds.found
    have hstate : ∀ run, db.run? lease.runId = some run → run.state = .canceled :=
      hrequests row hrow hholds.runId hrequested
    refine rewrite hintegrity hchanges hkeeps rfl rfl ?_ ?_ ?_
    · intro run hfound hsucceeded
      have hsucceeded : run.state = .succeeded := hsucceeded
      rw [hstate run hfound] at hsucceeded
      cases hsucceeded
    · intro run hfound hnot
      obtain ⟨hempty, task, htask, htaskRun, hopen⟩ := (h run hfound).unfinished hnot
      rw [Db.id_of_run? hfound] at htaskRun
      refine ⟨hempty, task, htask, htaskRun, ?_⟩
      simp only [Effect.finish, RowUpdate.forKey_apply]
      split
      · simp [Task.cancel]
      · exact hopen
    · intro run hfound hfailed
      have hfailed : run.state = .failed := hfailed
      rw [hstate run hfound] at hfailed
      cases hfailed
  · refine h.elsewhere hintegrity hchanges hkeeps rfl rfl (fun _ _ => rfl)
      fun task _ htaskRun => ?_
    have hkey : ¬ (task.runId, task.nodeId) = (lease.runId, lease.nodeId) := fun heq =>
      hrun ((Prod.mk.inj heq).1.symm.trans htaskRun)
    simp only [Effect.finish, RowUpdate.forKey_apply, Task.key_eq, hkey, ↓reduceIte]

/-- A failure ends a run whose task was running. -/
theorem fail (hintegrity : db.Integrity) (hcanceled : db.CanceledRuns) {lease : TaskLease}
    {error : Exn} {task : Task} {now : Time}
    (htask : db.task? lease.runId lease.nodeId = some task) (hrunning : task.state = .running)
    (hchanges : db.Changes (.finish lease (Attempt.fail now (taskFailure error))
      (Task.fail now (taskFailure error)) (.forKey lease.runId (Run.finish .failed now))) db') :
    db'.RunAgrees runId := by
  have hkeeps : (Effect.finish lease (Attempt.fail now (taskFailure error))
      (Task.fail now (taskFailure error))
      (.forKey lease.runId (Run.finish .failed now))).Keeps :=
    Effect.keeps_finish (fun _ => ⟨rfl, rfl, rfl, rfl⟩) (fun _ => ⟨rfl, rfl, le_rfl⟩)
      (Run.keeps_onlyIf (fun _ => ⟨rfl, rfl, rfl, rfl, rfl⟩) _) _
  have hmem := Table.mem_of_row? htask
  obtain ⟨htaskRun, -⟩ := Db.place_of_task? htask
  by_cases hrun : lease.runId = runId
  · subst hrun
    have hopen := open_of_running h hcanceled hmem htaskRun hrunning
    have hfails : ((Effect.finish lease (Attempt.fail now (taskFailure error))
        (Task.fail now (taskFailure error))
        (.forKey lease.runId (Run.finish .failed now))).task.apply task).state =
        .failed := by
      simp only [Effect.finish, RowUpdate.forKey_apply, Table.key_of_row? htask, ↓reduceIte]
      rfl
    refine rewrite hintegrity hchanges hkeeps rfl rfl ?_ ?_ ?_
    · intro run hfound hsucceeded
      simp only [Effect.finish, RowUpdate.forKey_apply, Run.key_eq, Db.id_of_run? hfound,
        ↓reduceIte] at hsucceeded
      cases hsucceeded
    · intro run hfound _
      obtain ⟨hempty, -⟩ := (h run hfound).unfinished (hopen run hfound).2
      refine ⟨?_, task, hmem, htaskRun, by rw [hfails]; simp⟩
      simp only [Effect.finish, RowUpdate.forKey_apply, Run.key_eq, Db.id_of_run? hfound,
        ↓reduceIte]
      exact hempty
    · intro _ _ _
      exact ⟨task, hmem, htaskRun, hfails⟩
  · have hne : ¬ runId = lease.runId := fun heq => hrun heq.symm
    refine h.elsewhere hintegrity hchanges hkeeps rfl rfl (fun run hfound => ?_)
      fun other _ hotherRun => ?_
    · simp only [Effect.finish, RowUpdate.forKey_apply, Run.key_eq, Db.id_of_run? hfound,
        hne, ↓reduceIte]
    · have hkey : ¬ (other.runId, other.nodeId) = (lease.runId, lease.nodeId) := fun heq =>
        hrun ((Prod.mk.inj heq).1.symm.trans hotherRun)
      simp only [Effect.finish, RowUpdate.forKey_apply, Task.key_eq, hkey, ↓reduceIte]

/-- No task succeeds by the cancellation of its run. -/
theorem cancel (hintegrity : db.Integrity) {canceled : Uuid} {run : Run} {now : Time}
    (hfoundRun : db.run? canceled = some run) (hopen : run.state.terminal = false)
    (hchanges : db.Changes (.cancelRun canceled now) db') : db'.RunAgrees runId := by
  by_cases hrun : canceled = runId
  · subst hrun
    have hnotSucceeded : run.state ≠ .succeeded := by
      intro hstate
      rw [hstate] at hopen
      cases hopen
    have hstate : ∀ other, db.run? canceled = some other → other = run ∧
        ((Effect.cancelRun canceled now).run.apply other) =
          (Run.finish .canceled now).apply other := by
      intro other hfound
      refine ⟨Option.some.inj (hfound.symm.trans hfoundRun), ?_⟩
      simp only [Effect.cancelRun, RowUpdate.forKey_apply, Run.key_eq,
        Db.id_of_run? hfound, ↓reduceIte]
    refine rewrite hintegrity hchanges (Effect.keeps_cancelRun _ _) rfl rfl ?_ ?_ ?_
    · intro other hfound hsucceeded
      rw [(hstate other hfound).2] at hsucceeded
      cases hsucceeded
    · intro other hfound _
      obtain ⟨rfl, hupdate⟩ := hstate other hfound
      obtain ⟨hempty, task, htask, htaskRun, hnot⟩ := (h other hfound).unfinished hnotSucceeded
      rw [Db.id_of_run? hfound] at htaskRun
      rw [hupdate]
      refine ⟨hempty, task, htask, htaskRun, ?_⟩
      simp only [Effect.cancelRun, RowUpdate.onlyIf_apply]
      split
      · simp [Task.cancel]
      · exact hnot
    · intro other hfound hfailed
      rw [(hstate other hfound).2] at hfailed
      cases hfailed
  · have hne : ¬ runId = canceled := fun heq => hrun heq.symm
    refine h.elsewhere hintegrity hchanges (Effect.keeps_cancelRun _ _) rfl rfl
      (fun other hfound => ?_) fun task _ htaskRun => ?_
    · simp only [Effect.cancelRun, RowUpdate.forKey_apply, Run.key_eq,
        Db.id_of_run? hfound, hne, ↓reduceIte]
    · simp [Effect.cancelRun, RowUpdate.onlyIf_apply, Task.unfinishedIn, htaskRun, hne]

/-- A retry empties the outputs of its run and takes a task back. -/
theorem retry (hintegrity : db.Integrity) {retried : Uuid} {nodeId : String}
    {definition : Workflow}
    (hnodes : ∀ node ∈ descendants definition nodeId,
      ∃ task, db.task? retried node = some task)
    (hchanges : db.Changes (.retry retried (descendants definition nodeId)) db') :
    db'.RunAgrees runId := by
  by_cases hrun : retried = runId
  · subst hrun
    have hstate : ∀ other, db.run? retried = some other →
        ((Effect.retry retried (descendants definition nodeId)).run.apply other) =
          Run.requeue.apply other := by
      intro other hfound
      simp only [Effect.retry, RowUpdate.forKey_apply, Run.key_eq, Db.id_of_run? hfound,
        ↓reduceIte]
    refine rewrite hintegrity hchanges (Effect.keeps_retry _ _) rfl rfl ?_ ?_ ?_
    · intro other hfound hsucceeded
      rw [hstate other hfound] at hsucceeded
      cases hsucceeded
    · intro other hfound _
      have hself : nodeId ∈ descendants definition nodeId := mem_descendants.mpr .refl
      obtain ⟨task, htask⟩ := hnodes nodeId hself
      obtain ⟨htaskRun, htaskNode⟩ := Db.place_of_task? htask
      rw [hstate other hfound]
      refine ⟨rfl, task, Table.mem_of_row? htask, htaskRun, ?_⟩
      simp only [Effect.retry, RowUpdate.onlyIf_apply, htaskRun, htaskNode, hself,
        decide_true, Bool.and_self, ↓reduceIte]
      simp [Task.retry]
    · intro other hfound hfailed
      rw [hstate other hfound] at hfailed
      cases hfailed
  · have hne : ¬ runId = retried := fun heq => hrun heq.symm
    refine h.elsewhere hintegrity hchanges (Effect.keeps_retry _ _) rfl rfl
      (fun other hfound => ?_) fun task _ htaskRun => ?_
    · simp only [Effect.retry, RowUpdate.forKey_apply, Run.key_eq, Db.id_of_run? hfound,
        hne, ↓reduceIte]
    · simp [Effect.retry, RowUpdate.onlyIf_apply, htaskRun, hne]

/-- The states and outputs stay as they are. -/
theorem quiet (hintegrity : db.Integrity) {e : Effect} (hchanges : db.Changes e db')
    (hkeeps : e.Keeps) (hnew : e.newTasks = []) (hnewRuns : e.newRuns = [])
    (hrun : e.run = .keep) (htask : ∀ task, (e.task.apply task).outputs = task.outputs ∧
      (e.task.apply task).state = task.state) : db'.RunAgrees runId := by
  refine h.steady hintegrity hchanges hkeeps hnew hnewRuns (fun _ _ => ?_) fun task _ _ => ?_
  · rw [hrun]
    exact ⟨rfl, .inl rfl⟩
  · rw [(htask task).2]
    exact ⟨(htask task).1, Iff.rfl, fun hstate => hstate⟩

/-- Every operation keeps the agreement when it neither retries the run after its
cancellation nor ends an attempt of it as canceled before. -/
theorem step (hintegrity : db.Integrity) (hcanceled : db.CanceledRuns)
    (hrequests : db.RequestsCanceled runId) {now : Time} {operation : Operation}
    (hmark : ∀ lease log details row, operation = .markAttemptCanceled lease log details →
      db.Holds lease row → row.state = .cancelRequested)
    (hstep : db.Transition now operation db') : db'.RunAgrees runId := by
  have hleased : ∀ {lease : TaskLease} {g : RowUpdate Task},
      (∀ task, (g.apply task).outputs = task.outputs ∧ (g.apply task).state = task.state) →
      ∀ task : Task,
        ((RowUpdate.onlyIf (Task.leasedBy lease) g).apply task).outputs = task.outputs ∧
        ((RowUpdate.onlyIf (Task.leasedBy lease) g).apply task).state = task.state := by
    intro lease g hg task
    rw [RowUpdate.onlyIf_apply]
    split
    · exact hg task
    · exact ⟨rfl, rfl⟩
  cases hstep with
  | quiet hchanges =>
      exact h.quiet hintegrity hchanges Effect.keeps_quiet rfl rfl rfl fun _ => ⟨rfl, rfl⟩
  | submitted hsubmits _ hchanges => exact h.submit hintegrity hsubmits hchanges
  | claimed hclaims =>
      exact (h.sweep hintegrity hrequests now).claims (hintegrity.sweep now) hclaims
  | renewed _ hchanges =>
      exact h.quiet hintegrity hchanges (Effect.keeps_ofToken (fun _ => ⟨rfl, rfl, rfl, rfl⟩)
        (fun _ => ⟨rfl, rfl, le_rfl⟩) _) rfl rfl rfl (hleased fun _ => ⟨rfl, rfl⟩)
  | marked _ _ hchanges =>
      exact h.quiet hintegrity hchanges
        (Effect.keeps_ofLease (fun _ => ⟨rfl, rfl, rfl, rfl⟩) _) rfl rfl rfl fun _ => ⟨rfl, rfl⟩
  | recorded _ _ hchanges =>
      exact h.quiet hintegrity hchanges
        (Effect.keeps_ofLease (fun _ => ⟨rfl, rfl, rfl, rfl⟩) _) rfl rfl rfl fun _ => ⟨rfl, rfl⟩
  | observed _ _ hchanges =>
      exact h.quiet hintegrity hchanges
        (Effect.keeps_ofLease (fun _ => ⟨rfl, rfl, rfl, rfl⟩) _) rfl rfl rfl fun _ => ⟨rfl, rfl⟩
  | released _ hchanges =>
      exact h.quiet hintegrity hchanges (Effect.keeps_ofToken (fun _ => ⟨rfl, rfl, rfl, rfl⟩)
        (fun _ => ⟨rfl, rfl, le_rfl⟩) _) rfl rfl rfl (hleased fun _ => ⟨rfl, rfl⟩)
  | @markedCanceled lease log details row _ hholds hchanges =>
      exact h.markCanceled hintegrity hrequests hholds (hmark lease log details row rfl hholds)
        hchanges
  | completed htask hrunning _ _ _ _ _ _ hfinished _ hchanges =>
      exact h.complete hintegrity hcanceled htask hrunning hfinished hchanges
  | failed htask hrunning _ _ hchanges =>
      exact h.fail hintegrity hcanceled htask hrunning hchanges
  | runCanceled hfound hopen hchanges => exact h.cancel hintegrity hfound hopen hchanges
  | retried _ _ hnodes hchanges => exact h.retry hintegrity hnodes hchanges

end Db.RunAgrees

namespace Workers

variable {ι : Type} [DecidableEq ι] {profile : ι → WorkerProfile} {s : Workers ι}
  {runId : Uuid}

theorem runAgrees (h : (workerSystem profile).Reachable
    (fun s label => s.lifted profile (retriesUncanceled runId) label = true) s) :
    s.db.RequestsCanceled runId ∧ s.db.RunAgrees runId := by
  refine db_invariant (fun db => db.RequestsCanceled runId ∧ db.RunAgrees runId)
    ⟨fun _ hattempt => (by cases hattempt), fun _ hrun => (by cases hrun)⟩ ?_ h
  intro s label now operation hreach hinv hguard hop hcaller
  obtain ⟨hrequests, hagrees⟩ := hinv
  have htransition := operation.transition now s.db
  have hintegrity := integrity hreach
  have hcanceled := canceledRuns hreach
  simp only [lifted, hop, Option.all_some] at hguard
  refine ⟨hrequests.step hintegrity hcanceled hguard htransition,
    hagrees.step hintegrity hcanceled hrequests ?_ htransition⟩
  rintro lease log details row rfl hholds
  exact requested_of_markAttemptCanceled hreach hcaller hholds

/-- While a canceled run is not retried, its state agrees with the states of its
tasks, and it publishes outputs exactly when all of them have succeeded. -/
theorem run_agrees_with_tasks (h : (workerSystem profile).Reachable
    (fun s label => s.lifted profile (retriesUncanceled runId) label = true) s) :
    ∀ run, s.db.run? runId = some run →
      (run.state = .succeeded ↔
        ∀ task ∈ s.db.tasks.rows, task.runId = runId → task.state = .succeeded) ∧
      (run.state = .succeeded → ∃ definition, s.db.definition? runId = some definition ∧
        s.db.Publishes runId definition run.outputs) ∧
      (run.state = .failed →
        ∃ task ∈ s.db.tasks.rows, task.runId = runId ∧ task.state = .failed) ∧
      (run.state = .canceled → ∀ task ∈ s.db.tasks.rows, task.runId = runId →
        task.state ≠ .pending ∧ task.state ≠ .running) ∧
      (run.state ≠ .succeeded → run.outputs = Table.empty) := by
  intro run hrun
  obtain ⟨-, hagrees⟩ := runAgrees h
  have hagree := hagrees run hrun
  have hid := Db.id_of_run? hrun
  refine ⟨⟨fun hstate => ?_, fun hall => ?_⟩, fun hstate => ?_, fun hstate => ?_,
    fun hstate task htask htaskRun => ?_, fun hstate => (hagree.unfinished hstate).1⟩
  · rw [← hid]
    exact (hagree.succeeded hstate).1
  · by_contra hnot
    obtain ⟨-, task, htask, htaskRun, hopen⟩ := hagree.unfinished hnot
    exact hopen (hall task htask (htaskRun.trans hid))
  · obtain ⟨definition, hdefinition⟩ := (integrity h).definition?_isSome hrun
    have hpublishes := (hagree.succeeded hstate).2
    rw [hid] at hpublishes
    exact ⟨definition, hdefinition, hpublishes definition hdefinition⟩
  · obtain ⟨task, htask, htaskRun, hfailed⟩ := hagree.failed hstate
    exact ⟨task, htask, htaskRun.trans hid, hfailed⟩
  · exact canceledRuns h task htask run (by rw [htaskRun, hrun]) hstate

/-- The second task of the chain is retried after the run has succeeded, and the
run succeeds again. -/
def finishedChain : List (WorkerLabel (Fin 2)) :=
  clientSteps chainSubmission ++ engineSteps 0 1 2 ++ [.runner 0 0 (.result sampleResult)] ++
    engineSteps 0 3 3 ++ [.runner 0 0 (.result sampleResult)] ++ engineSteps 0 6 1 ++
    [.client (.retryTask 0 "b") 7] ++ engineSteps 1 8 2 ++
    [.runner 1 0 (.result sampleResult)] ++ engineSteps 1 10 1

theorem run_agrees_with_tasks_finishedChain :
    let profile := sampleProfile .sync
    let s := (workerSystem profile).after
      (fun s => s.lifted profile (retriesUncanceled 0)) {} finishedChain
    s.db.runs.rows.map Run.state = [.succeeded] ∧
      s.db.tasks.rows.map (fun task => (task.state, task.attempt)) =
        [(.succeeded, 1), (.succeeded, 2)] ∧
      ∀ run, s.db.run? 0 = some run →
        (run.state = .succeeded ↔
          ∀ task ∈ s.db.tasks.rows, task.runId = 0 → task.state = .succeeded) ∧
        (run.state = .succeeded → ∃ definition, s.db.definition? 0 = some definition ∧
          s.db.Publishes 0 definition run.outputs) ∧
        (run.state = .failed →
          ∃ task ∈ s.db.tasks.rows, task.runId = 0 ∧ task.state = .failed) ∧
        (run.state = .canceled → ∀ task ∈ s.db.tasks.rows, task.runId = 0 →
          task.state ≠ .pending ∧ task.state ≠ .running) ∧
        (run.state ≠ .succeeded → run.outputs = Table.empty) := by
  refine ⟨by decide, by decide, ?_⟩
  exact run_agrees_with_tasks ((TransitionSystem.Reachable.initial rfl).after finishedChain)

end Workers

end QhpcEcosystem
