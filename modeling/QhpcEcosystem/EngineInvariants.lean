/-
Invariants of every state of the engine, whatever the operations and leases:
the rows refer to each other as the foreign keys say, attempts are numbered
within their task, and a lease token belongs to at most one attempt.
-/
import QhpcEcosystem.Engine

namespace QhpcEcosystem

/-! ## Columns that no update changes -/

def Attempt.Keeps (f : RowUpdate Attempt) : Prop :=
  ∀ row, (f.apply row).runId = row.runId ∧ (f.apply row).nodeId = row.nodeId ∧
    (f.apply row).number = row.number ∧ (f.apply row).startedAt = row.startedAt

def Task.Keeps (f : RowUpdate Task) : Prop :=
  ∀ row, (f.apply row).operation = row.operation ∧
    (f.apply row).sequence = row.sequence ∧ row.attempt ≤ (f.apply row).attempt

def Run.Keeps (f : RowUpdate Run) : Prop :=
  ∀ row, (f.apply row).workflowId = row.workflowId ∧
    (f.apply row).workflowVersion = row.workflowVersion ∧
    (f.apply row).executionTarget = row.executionTarget ∧
    (f.apply row).createdAt = row.createdAt ∧ (f.apply row).inputs = row.inputs

structure Effect.Keeps (e : Effect) : Prop where
  attempt : Attempt.Keeps e.attempt
  task : Task.Keeps e.task
  run : Run.Keeps e.run

theorem Attempt.apply_id (f : RowUpdate Attempt) (row : Attempt) :
    (f.apply row).id = row.id := f.key_apply row

theorem Task.apply_runId (f : RowUpdate Task) (row : Task) :
    (f.apply row).runId = row.runId := congrArg Prod.fst (f.key_apply row)

theorem Task.apply_nodeId (f : RowUpdate Task) (row : Task) :
    (f.apply row).nodeId = row.nodeId := congrArg Prod.snd (f.key_apply row)

theorem Run.apply_id (f : RowUpdate Run) (row : Run) : (f.apply row).id = row.id :=
  f.key_apply row

theorem Attempt.keeps_keep : Attempt.Keeps .keep := fun _ => ⟨rfl, rfl, rfl, rfl⟩

theorem Task.keeps_keep : Task.Keeps .keep := fun _ => ⟨rfl, rfl, le_rfl⟩

theorem Run.keeps_keep : Run.Keeps .keep := fun _ => ⟨rfl, rfl, rfl, rfl, rfl⟩

theorem Attempt.keeps_onlyIf {f : RowUpdate Attempt} (hf : Attempt.Keeps f)
    (p : Attempt → Bool) : Attempt.Keeps (.onlyIf p f) := by
  intro row
  rw [RowUpdate.onlyIf_apply]
  split
  · exact hf row
  · exact Attempt.keeps_keep row

theorem Task.keeps_onlyIf {f : RowUpdate Task} (hf : Task.Keeps f) (p : Task → Bool) :
    Task.Keeps (.onlyIf p f) := by
  intro row
  rw [RowUpdate.onlyIf_apply]
  split
  · exact hf row
  · exact Task.keeps_keep row

theorem Run.keeps_onlyIf {f : RowUpdate Run} (hf : Run.Keeps f) (p : Run → Bool) :
    Run.Keeps (.onlyIf p f) := by
  intro row
  rw [RowUpdate.onlyIf_apply]
  split
  · exact hf row
  · exact Run.keeps_keep row

theorem Attempt.keeps_sweep (db : Db) (now : Time) : Attempt.Keeps (db.sweepAttempt now) := by
  intro row
  simp only [Db.sweepAttempt]
  split
  · next expired _ => cases expired.expiry <;> exact ⟨rfl, rfl, rfl, rfl⟩
  · exact ⟨rfl, rfl, rfl, rfl⟩

theorem Task.keeps_sweep (db : Db) (now : Time) : Task.Keeps (db.sweepTask now) := by
  intro row
  simp only [Db.sweepTask]
  split
  · next expired _ => cases expired.expiry <;> exact ⟨rfl, rfl, le_rfl⟩
  · exact ⟨rfl, rfl, le_rfl⟩

theorem Attempt.keeps_requestCancel : Attempt.Keeps Attempt.requestCancel := by
  intro row
  simp only [Attempt.requestCancel]
  split <;> exact ⟨rfl, rfl, rfl, rfl⟩

namespace Effect

theorem keeps_quiet : Effect.quiet.Keeps :=
  ⟨Attempt.keeps_keep, Task.keeps_keep, Run.keeps_keep⟩

theorem keeps_ofLease {f : RowUpdate Attempt} (hf : Attempt.Keeps f) (lease : TaskLease) :
    (Effect.ofLease lease f).Keeps :=
  ⟨Attempt.keeps_onlyIf hf _, Task.keeps_keep, Run.keeps_keep⟩

theorem keeps_ofToken {f : RowUpdate Attempt} {g : RowUpdate Task} (hf : Attempt.Keeps f)
    (hg : Task.Keeps g) (lease : TaskLease) : (Effect.ofToken lease f g).Keeps :=
  ⟨Attempt.keeps_onlyIf hf _, Task.keeps_onlyIf hg _, Run.keeps_keep⟩

theorem keeps_finish {f : RowUpdate Attempt} {g : RowUpdate Task} {update : RowUpdate Run}
    (hf : Attempt.Keeps f) (hg : Task.Keeps g) (hrun : Run.Keeps update)
    (lease : TaskLease) : (Effect.finish lease f g update).Keeps :=
  ⟨Attempt.keeps_onlyIf hf _, Task.keeps_onlyIf hg _, hrun⟩

theorem keeps_complete {update : RowUpdate Run} (hrun : Run.Keeps update)
    (lease : TaskLease) {now : Time} {outputIds : ArtifactIds} {log : String}
    {added : List Artifact} : (Effect.complete lease now outputIds log update added).Keeps :=
  ⟨Attempt.keeps_onlyIf (fun _ => ⟨rfl, rfl, rfl, rfl⟩) _,
    Task.keeps_onlyIf (fun _ => ⟨rfl, rfl, le_rfl⟩) _, hrun⟩

theorem keeps_sweep (db : Db) (now : Time) : (Effect.sweep db now).Keeps :=
  ⟨Attempt.keeps_sweep db now, Task.keeps_sweep db now, Run.keeps_keep⟩

theorem keeps_recover (attempt : Attempt) (workerId : String) (token : Uuid)
    (expires : Time) : (Effect.recover attempt workerId token expires).Keeps :=
  ⟨Attempt.keeps_onlyIf (fun _ => ⟨rfl, rfl, rfl, rfl⟩) _,
    Task.keeps_onlyIf (fun _ => ⟨rfl, rfl, le_rfl⟩) _, Run.keeps_keep⟩

theorem keeps_start (task : Task) (workerId : String) (attemptId token : Uuid)
    (now expires : Time) : (Effect.start task workerId attemptId token now expires).Keeps :=
  ⟨Attempt.keeps_keep, Task.keeps_onlyIf (fun _ => ⟨rfl, rfl, Nat.le_succ _⟩) _,
    Run.keeps_onlyIf (fun _ => ⟨rfl, rfl, rfl, rfl, rfl⟩) _⟩

theorem keeps_submit (run : Run) (tasks : List Task) : (Effect.submit run tasks).Keeps :=
  ⟨Attempt.keeps_keep, Task.keeps_keep, Run.keeps_keep⟩

theorem keeps_cancelRun (runId : Uuid) (now : Time) : (Effect.cancelRun runId now).Keeps :=
  ⟨Attempt.keeps_onlyIf Attempt.keeps_requestCancel _,
    Task.keeps_onlyIf (fun _ => ⟨rfl, rfl, le_rfl⟩) _,
    Run.keeps_onlyIf (fun _ => ⟨rfl, rfl, rfl, rfl, rfl⟩) _⟩

theorem keeps_retry (runId : Uuid) (nodes : List String) : (Effect.retry runId nodes).Keeps :=
  ⟨Attempt.keeps_keep, Task.keeps_onlyIf (fun _ => ⟨rfl, rfl, le_rfl⟩) _,
    Run.keeps_onlyIf (fun _ => ⟨rfl, rfl, rfl, rfl, rfl⟩) _⟩

end Effect

theorem FinishedRun.keeps {db : Db} {tasks : Table Task} {now : Time} {runId : Uuid}
    {update : RowUpdate Run} (h : FinishedRun db tasks now runId update) :
    Run.Keeps update := by
  cases h with
  | unfinished _ _ _ => exact Run.keeps_keep
  | finished _ _ _ => exact Run.keeps_onlyIf (fun _ => ⟨rfl, rfl, rfl, rfl, rfl⟩) _

/-! ## Referential integrity -/

/-- Workflow versions are resolved workflows, runs belong to one, the tasks of a
run cover the nodes of its workflow, and attempts are numbered within their
task. -/
structure Db.Integrity (db : Db) : Prop where
  workflows : ∀ row ∈ db.workflowVersions.rows,
    ResolvedWorkflow.Sound ⟨row.definition, row.resolution⟩
  runWorkflow : ∀ run ∈ db.runs.rows, ∃ row,
    db.workflowVersions.row? (run.workflowId, run.workflowVersion) = some row
  taskRun : ∀ task ∈ db.tasks.rows, ∃ run, db.run? task.runId = some run
  nodes : ∀ run ∈ db.runs.rows, ∀ definition, db.definition? run.id = some definition →
    ∀ node ∈ definition.nodeIds, ∃ task, db.task? run.id node = some task
  attemptTask : ∀ attempt ∈ db.taskAttempts.rows, ∃ task,
    db.task? attempt.runId attempt.nodeId = some task ∧ attempt.number ≤ task.attempt
  number_inj : ∀ attempt ∈ db.taskAttempts.rows, ∀ other ∈ db.taskAttempts.rows,
    attempt.runId = other.runId → attempt.nodeId = other.nodeId →
    attempt.number = other.number → attempt = other

theorem Db.definition?_eq_some {db : Db} {runId : Uuid} {definition : Workflow} :
    db.definition? runId = some definition ↔ ∃ run row, db.run? runId = some run ∧
      db.workflowVersions.row? (run.workflowId, run.workflowVersion) = some row ∧
      row.definition = definition := by
  simp [Db.definition?, Option.bind_eq_some_iff]

theorem Db.Changes.version?_some {db db' : Db} {e : Effect} (h : db.Changes e db')
    {key : String × String} {row : WorkflowRow}
    (hrow : db.workflowVersions.row? key = some row) :
    db'.workflowVersions.row? key = some row := by
  rw [Table.row?_eq_some_iff] at hrow ⊢
  exact ⟨h.workflowVersions hrow.1, hrow.2⟩

theorem Db.Changes.definition?_some {db db' : Db} {e : Effect} (h : db.Changes e db')
    (hkeeps : Run.Keeps e.run) {runId : Uuid} {definition : Workflow}
    (hdefinition : db.definition? runId = some definition) :
    db'.definition? runId = some definition := by
  obtain ⟨run, row, hrun, hrow, rfl⟩ := Db.definition?_eq_some.mp hdefinition
  obtain ⟨hid, hversion, -⟩ := hkeeps run
  refine Db.definition?_eq_some.mpr ⟨e.run.apply run, row, h.run?_some hrun, ?_, rfl⟩
  rw [hid, hversion]
  exact h.version?_some hrow

namespace Db.Integrity

variable {db db' : Db} (h : db.Integrity)

include h

theorem definition?_isSome {runId : Uuid} {run : Run} (hrun : db.run? runId = some run) :
    ∃ definition, db.definition? runId = some definition := by
  obtain ⟨row, hrow⟩ := h.runWorkflow run (Table.mem_of_row? hrun)
  exact ⟨row.definition, Db.definition?_eq_some.mpr ⟨run, row, hrun, hrow, rfl⟩⟩

theorem wellFormed {runId : Uuid} {definition : Workflow}
    (hdefinition : db.definition? runId = some definition) : definition.WellFormed := by
  obtain ⟨run, row, -, hrow, rfl⟩ := Db.definition?_eq_some.mp hdefinition
  exact (h.workflows row (Table.mem_of_row? hrow)).wellFormed

theorem attemptRun {attempt : Attempt} (hattempt : attempt ∈ db.taskAttempts.rows) :
    ∃ run, db.run? attempt.runId = some run := by
  obtain ⟨task, htask, -⟩ := h.attemptTask attempt hattempt
  rw [← (Db.place_of_task? htask).1]
  exact h.taskRun task (Table.mem_of_row? htask)

/-- The definition of a run that was there before is the one from before. -/
theorem definition?_old {e : Effect} (hchanges : db.Changes e db') (hkeeps : Run.Keeps e.run)
    {runId : Uuid} {run : Run} (hrun : db.run? runId = some run) {definition : Workflow}
    (hdefinition : db'.definition? runId = some definition) :
    db.definition? runId = some definition := by
  obtain ⟨old, hold⟩ := h.definition?_isSome hrun
  have := hchanges.definition?_some hkeeps hold
  rw [hdefinition] at this
  rw [hold, Option.some.inj this]

theorem workflows_of_changes {e : Effect} (hchanges : db.Changes e db') :
    ∀ row ∈ db'.workflowVersions.rows,
      ResolvedWorkflow.Sound ⟨row.definition, row.resolution⟩ := by
  intro row hrow
  rcases hchanges.resolvedVersions row hrow with hold | ⟨registry, resolved, hresolved, -, -, heq⟩
  · exact h.workflows row hold
  · obtain ⟨hdefinition, hsound⟩ := resolveWorkflow_sound hresolved
    rw [heq, ← hdefinition]
    exact hsound

/-- Rewriting rows keeps the integrity when the new rows meet it. -/
theorem changes {e : Effect} (hchanges : db.Changes e db') (hkeeps : e.Keeps)
    (hruns : ∀ run ∈ e.newRuns,
      (∃ row, db'.workflowVersions.row? (run.workflowId, run.workflowVersion) = some row) ∧
      ∀ definition, db'.definition? run.id = some definition →
        ∀ node ∈ definition.nodeIds, ∃ task, db'.task? run.id node = some task)
    (htasks : ∀ task ∈ e.newTasks, ∃ run, db'.run? task.runId = some run)
    (hattempts : ∀ attempt ∈ e.newAttempts,
      (∃ task, db'.task? attempt.runId attempt.nodeId = some task ∧
        attempt.number ≤ task.attempt) ∧
      ∀ other ∈ db'.taskAttempts.rows, attempt.runId = other.runId →
        attempt.nodeId = other.nodeId → attempt.number = other.number → attempt = other) :
    db'.Integrity where
  workflows := h.workflows_of_changes hchanges
  runWorkflow := by
    intro run hrun
    obtain ⟨old, hold, rfl⟩ | hnew := hchanges.mem_runs.mp hrun
    · obtain ⟨row, hrow⟩ := h.runWorkflow old hold
      obtain ⟨hid, hversion, -⟩ := hkeeps.run old
      rw [hid, hversion]
      exact ⟨row, hchanges.version?_some hrow⟩
    · exact (hruns run hnew).1
  taskRun := by
    intro task htask
    obtain ⟨old, hold, rfl⟩ | hnew := hchanges.mem_tasks.mp htask
    · obtain ⟨run, hrun⟩ := h.taskRun old hold
      rw [Task.apply_runId]
      exact ⟨_, hchanges.run?_some hrun⟩
    · exact htasks task hnew
  nodes := by
    intro run hrun definition hdefinition node hnode
    obtain ⟨old, hold, rfl⟩ | hnew := hchanges.mem_runs.mp hrun
    · rw [Run.apply_id] at hdefinition ⊢
      have hdefinition := h.definition?_old hchanges hkeeps.run (Table.row?_of_mem hold)
        hdefinition
      obtain ⟨task, htask⟩ := h.nodes old hold definition hdefinition node hnode
      exact ⟨_, hchanges.task?_some htask⟩
    · exact (hruns run hnew).2 definition hdefinition node hnode
  attemptTask := by
    intro attempt hattempt
    obtain ⟨old, hold, rfl⟩ | hnew := hchanges.mem_attempts.mp hattempt
    · obtain ⟨task, htask, hnumber⟩ := h.attemptTask old hold
      obtain ⟨hrun, hnode, hnum, -⟩ := hkeeps.attempt old
      rw [hrun, hnode, hnum]
      exact ⟨_, hchanges.task?_some htask, hnumber.trans (hkeeps.task task).2.2⟩
    · exact (hattempts attempt hnew).1
  number_inj := by
    intro attempt hattempt other hother hrun hnode hnumber
    obtain ⟨old, hold, rfl⟩ | hnew := hchanges.mem_attempts.mp hattempt
    · obtain ⟨old', hold', rfl⟩ | hnew := hchanges.mem_attempts.mp hother
      · obtain ⟨hrun₁, hnode₁, hnum₁, -⟩ := hkeeps.attempt old
        obtain ⟨hrun₂, hnode₂, hnum₂, -⟩ := hkeeps.attempt old'
        rw [h.number_inj old hold old' hold' (by rw [← hrun₁, ← hrun₂, hrun])
          (by rw [← hnode₁, ← hnode₂, hnode]) (by rw [← hnum₁, ← hnum₂, hnumber])]
      · exact ((hattempts other hnew).2 _ hattempt hrun.symm hnode.symm hnumber.symm).symm
    · exact (hattempts attempt hnew).2 other hother hrun hnode hnumber

/-- Rewriting rows in place keeps the integrity. -/
theorem rewrite {e : Effect} (hchanges : db.Changes e db') (hkeeps : e.Keeps)
    (hattempts : e.newAttempts = [])
    (htasks : e.newTasks = []) (hruns : e.newRuns = []) : db'.Integrity :=
  h.changes hchanges hkeeps (by simp [hruns]) (by simp [htasks])
    (by simp [hattempts])

/-- A new run comes with a task for each node. -/
theorem submit {row : WorkflowRow} {run : Run} {tasks : List Task} {now : Time}
    (hsubmits : db.Submits now row run tasks)
    (hchanges : db.Changes (.submit run tasks) db') : db'.Integrity := by
  obtain ⟨executionTarget, inputs, heq⟩ := hsubmits.run_eq
  have hwf := (h.workflows row (Table.mem_of_row? hsubmits.stored)).wellFormed
  have hrun : db'.run? run.id = some run :=
    Table.row?_of_mem (hchanges.mem_runs.mpr (.inr List.mem_cons_self))
  have hrow : db'.workflowVersions.row? (run.workflowId, run.workflowVersion) = some row := by
    rw [heq]
    exact hchanges.version?_some hsubmits.stored
  have htaskRun : ∀ task ∈ tasks, task.runId = run.id := by
    intro task htask
    obtain ⟨_, _, _, _, _, _, htask⟩ := hsubmits.tasks_eq task htask
    rw [htask]
    rfl
  refine h.changes hchanges (Effect.keeps_submit run tasks) ?_ ?_
    (by simp [Effect.submit])
  · intro new hnew
    obtain rfl : new = run := List.mem_singleton.mp hnew
    refine ⟨⟨row, hrow⟩, fun definition hdefinition node hnode => ?_⟩
    obtain ⟨found, stored, hfound, hstored, rfl⟩ := Db.definition?_eq_some.mp hdefinition
    rw [hrun] at hfound
    cases hfound
    rw [hrow] at hstored
    cases hstored
    have hmem : node ∈ tasks.map Task.nodeId := by
      have hnodes := congrArg (List.map Prod.fst) hsubmits.nodes
      simp only [List.map_map, List.zipIdx_map_fst] at hnodes
      rw [show Task.nodeId = Prod.fst ∘ fun task : Task => (task.nodeId, task.sequence) from
        rfl, hnodes]
      exact (mem_topologicalNodes hwf node).mpr hnode
    obtain ⟨task, htask, rfl⟩ := List.mem_map.mp hmem
    refine ⟨task, ?_⟩
    rw [← htaskRun task htask]
    exact Table.row?_of_mem (hchanges.mem_tasks.mpr (.inr htask))
  · intro task htask
    rw [htaskRun task htask]
    exact ⟨run, hrun⟩

/-- A started task gets an attempt under the next number. -/
theorem start {task : Task} {workerId : String} {attemptId token : Uuid}
    {now expires : Time} (htask : task ∈ db.tasks.rows)
    (hchanges : db.Changes (.start task workerId attemptId token now expires) db') :
    db'.Integrity := by
  have hfound : db.task? task.runId task.nodeId = some task := Table.row?_of_mem htask
  refine h.changes hchanges (Effect.keeps_start task workerId attemptId token now expires)
    (by simp [Effect.start]) (by simp [Effect.start]) ?_
  intro attempt hattempt
  obtain rfl := List.mem_singleton.mp hattempt
  refine ⟨⟨_, hchanges.task?_some hfound, ?_⟩, ?_⟩
  · simp [Effect.start, RowUpdate.forKey_apply, Task.start, freshAttempt]
  · intro other hother hrun hnode hnumber
    obtain ⟨old, hold, rfl⟩ | hnew := hchanges.mem_attempts.mp hother
    · -- the attempts from before are numbered up to the counter of the task
      obtain ⟨found, hfound', hle⟩ := h.attemptTask old hold
      have hrun : task.runId = old.runId := hrun
      have hnode : task.nodeId = old.nodeId := hnode
      rw [← hrun, ← hnode, hfound] at hfound'
      cases hfound'
      have hnumber : task.attempt + 1 = old.number := hnumber
      omega
    · exact (List.mem_singleton.mp hnew).symm

theorem sweep (now : Time) : (resetExpiredLeases db now).Integrity :=
  h.rewrite (resetExpiredLeases_changes db now) (Effect.keeps_sweep db now) rfl rfl rfl

theorem claims {now : Time} {workerId : String} {leaseSeconds : Int}
    {admission : Admission} {claimed : Option TaskLease}
    (hclaims : db.Claims now workerId leaseSeconds admission claimed db') :
    db'.Integrity := by
  cases hclaims with
  | idle _ _ => exact h
  | recovered _ =>
      exact h.rewrite (recoverAttempt_changes _ _ _ _ _) (Effect.keeps_recover _ _ _ _) rfl rfl rfl
  | started _ hready hlease =>
      obtain ⟨-, -, -, -, -, -, -, -, hchanges⟩ := leaseTask_ok hlease
      exact h.start hready.mem hchanges

theorem numberedAttempt?_eq {attempt : Attempt} (hattempt : attempt ∈ db.taskAttempts.rows) :
    db.numberedAttempt? attempt.runId attempt.nodeId attempt.number = some attempt := by
  cases hfound : db.numberedAttempt? attempt.runId attempt.nodeId attempt.number with
  | none =>
      have := List.find?_eq_none.mp hfound attempt hattempt
      simp at this
  | some other =>
      obtain ⟨hmem, hrun, hnode, hnumber⟩ := numberedAttempt?_spec hfound
      rw [h.number_inj other hmem attempt hattempt hrun hnode hnumber]

/-- What the sweep does to an attempt and its task. -/
theorem sweep_cases (now : Time) {attempt : Attempt} {task : Task}
    (hattempt : attempt ∈ db.taskAttempts.rows)
    (htask : db.task? attempt.runId attempt.nodeId = some task) :
    ((db.sweepAttempt now).apply attempt = attempt ∧
      (db.sweepTask now).apply task = task) ∨
    ∃ row, db.expiredLease? now task = some row ∧
      (db.sweepTask now).apply task = row.expiry.taskUpdate.apply task ∧
      (attempt.number = task.attempt ∧ row.attempt = some attempt ∧
          (db.sweepAttempt now).apply attempt =
            (row.expiry.attemptUpdate now).apply attempt ∨
        attempt.number ≠ task.attempt ∧ (db.sweepAttempt now).apply attempt = attempt) := by
  obtain ⟨hrun, hnode⟩ := Db.place_of_task? htask
  cases hrow : db.expiredLease? now task with
  | none =>
      refine .inl ⟨?_, by simp [Db.sweepTask, hrow]⟩
      simp [Db.sweepAttempt, Db.expiredAttempt?, htask, hrow]
  | some row =>
      refine .inr ⟨row, rfl, by simp [Db.sweepTask, hrow], ?_⟩
      obtain ⟨run, -, -, -, hcurrent, -⟩ := expiredLease?_spec hrow
      by_cases hnumber : attempt.number = task.attempt
      · have hsome : row.attempt = some attempt := by
          rw [hcurrent, ← hnumber, hrun, hnode]
          exact h.numberedAttempt?_eq hattempt
        refine .inl ⟨hnumber, hsome, ?_⟩
        simp [Db.sweepAttempt, Db.expiredAttempt?, htask, hrow, hsome, Option.filter]
      · refine .inr ⟨hnumber, ?_⟩
        have hother : ¬ row.attempt.any (fun current => current.id = attempt.id) = true := by
          cases hsome : row.attempt with
          | none => simp
          | some current =>
              obtain ⟨hmem, -, -, hcounter⟩ := numberedAttempt?_spec (hcurrent.symm.trans hsome)
              intro hid
              have hsame : current = attempt :=
                db.taskAttempts.eq_of_key_eq hmem hattempt (by simpa using hid)
              exact hnumber (hsame ▸ hcounter)
        simp [Db.sweepAttempt, Db.expiredAttempt?, htask, hrow, hother, Option.filter]

/-- Every operation keeps the integrity. -/
theorem step {now : Time} {operation : Operation} (hstep : db.Transition now operation db') :
    db'.Integrity := by
  cases hstep with
  | quiet hchanges => exact h.rewrite hchanges Effect.keeps_quiet rfl rfl rfl
  | submitted hsubmits _ hchanges => exact h.submit hsubmits hchanges
  | claimed hclaims => exact (h.sweep now).claims hclaims
  | renewed _ hchanges =>
      exact h.rewrite hchanges (Effect.keeps_ofToken (fun _ => ⟨rfl, rfl, rfl, rfl⟩)
        (fun _ => ⟨rfl, rfl, le_rfl⟩) _) rfl rfl rfl
  | marked _ _ hchanges =>
      exact h.rewrite hchanges (Effect.keeps_ofLease (fun _ => ⟨rfl, rfl, rfl, rfl⟩) _)
        rfl rfl rfl
  | recorded _ _ hchanges =>
      exact h.rewrite hchanges (Effect.keeps_ofLease (fun _ => ⟨rfl, rfl, rfl, rfl⟩) _)
        rfl rfl rfl
  | observed _ _ hchanges =>
      exact h.rewrite hchanges (Effect.keeps_ofLease (fun _ => ⟨rfl, rfl, rfl, rfl⟩) _)
        rfl rfl rfl
  | released _ hchanges =>
      exact h.rewrite hchanges (Effect.keeps_ofToken (fun _ => ⟨rfl, rfl, rfl, rfl⟩)
        (fun _ => ⟨rfl, rfl, le_rfl⟩) _) rfl rfl rfl
  | markedCanceled _ hchanges =>
      exact h.rewrite hchanges (Effect.keeps_finish (fun _ => ⟨rfl, rfl, rfl, rfl⟩)
        (fun _ => ⟨rfl, rfl, le_rfl⟩) Run.keeps_keep _) rfl rfl rfl
  | completed _ _ _ _ _ _ _ _ hfinished _ hchanges =>
      exact h.rewrite hchanges (Effect.keeps_complete hfinished.keeps _) rfl rfl rfl
  | failed _ _ _ _ hchanges =>
      exact h.rewrite hchanges (Effect.keeps_finish (fun _ => ⟨rfl, rfl, rfl, rfl⟩)
        (fun _ => ⟨rfl, rfl, le_rfl⟩)
        (Run.keeps_onlyIf (fun _ => ⟨rfl, rfl, rfl, rfl, rfl⟩) _) _) rfl rfl rfl
  | runCanceled _ _ hchanges =>
      exact h.rewrite hchanges (Effect.keeps_cancelRun _ _) rfl rfl rfl
  | retried _ _ _ hchanges =>
      exact h.rewrite hchanges (Effect.keeps_retry _ _) rfl rfl rfl

end Db.Integrity

/-! ## New runs -/

namespace Db.Submits

variable {db db' : Db} {now : Time} {row : WorkflowRow} {run : Run} {tasks : List Task}
  (h : db.Submits now row run tasks)

include h

theorem pending : ∀ task ∈ tasks, task.runId = run.id ∧ task.state = .pending := by
  intro task htask
  obtain ⟨_, _, _, _, _, _, heq⟩ := h.tasks_eq task htask
  rw [heq]
  exact ⟨rfl, rfl⟩

/-- A workflow has nodes, so a new run has tasks. -/
theorem exists_task (hintegrity : db.Integrity) : ∃ task, task ∈ tasks := by
  have hwf := (hintegrity.workflows row (Table.mem_of_row? h.stored)).wellFormed
  apply List.exists_mem_of_ne_nil
  rintro rfl
  have hnodes : topologicalNodes row.definition = [] := by
    simpa using h.nodes.symm
  have hperm := topologicalNodes_perm hwf
  rw [hnodes] at hperm
  have hnone := hperm.symm.eq_nil
  simp only [Workflow.nodeIds, List.map_eq_nil_iff] at hnone
  exact row.definition.nonempty hnone

omit h in
/-- The new run has an identifier of its own. -/
theorem fresh (hchanges : db.Changes (.submit run tasks) db') :
    ∀ old ∈ db.runs.rows, old.id ≠ run.id := by
  intro old hold hid
  have hnodup := db'.runs.nodup
  rw [hchanges.runs, List.map_append] at hnodup
  refine (List.nodup_append'.mp hnodup).2.2
    (List.mem_map_of_mem (List.mem_map_of_mem hold)) ?_
  simp [Effect.submit, hid]

omit h in
/-- The tasks that were there belong to other runs. -/
theorem elsewhere (hintegrity : db.Integrity) (hchanges : db.Changes (.submit run tasks) db') :
    ∀ other ∈ db.tasks.rows, other.runId ≠ run.id := by
  intro other hother hid
  obtain ⟨owner, howner⟩ := hintegrity.taskRun other hother
  exact fresh hchanges owner (Table.mem_of_row? howner) ((Db.id_of_run? howner).trans hid)

end Db.Submits

theorem Db.integrity_empty : ({} : Db).Integrity where
  workflows := by simp
  runWorkflow := by simp
  taskRun := by simp
  nodes := by simp
  attemptTask := by simp
  number_inj := by simp

/-! ## Lease tokens -/

/-- Only a live attempt has a lease token, no two attempts share one, and no
identifier in use will be drawn again. -/
structure Db.Tokens (db : Db) : Prop where
  live : ∀ attempt ∈ db.taskAttempts.rows, attempt.leaseToken ≠ none →
    attempt.state.live = true
  inj : ∀ attempt ∈ db.taskAttempts.rows, ∀ other ∈ db.taskAttempts.rows, ∀ token,
    attempt.leaseToken = some token → other.leaseToken = some token → attempt = other
  below : ∀ attempt ∈ db.taskAttempts.rows, ∀ token,
    attempt.leaseToken = some token → token < db.uuids
  ids : ∀ attempt ∈ db.taskAttempts.rows, attempt.id < db.uuids

theorem Db.tokens_empty : ({} : Db).Tokens where
  live := by simp
  inj := by simp
  below := by simp
  ids := by simp

theorem Attempt.live_of_recoverable (row : Attempt) (h : row.recoverable = true) :
    row.state.live = true := by
  unfold Attempt.recoverable at h
  cases hhandle : row.targetHandle <;> cases hstate : row.state <;>
    simp [hhandle, hstate] at h <;> rfl

/-- The lease of the row is kept, and with it that the attempt is live, or the
row loses its lease. -/
def Attempt.KeepsLease (f : Attempt → Attempt) (row : Attempt) : Prop :=
  (f row).leaseToken = none ∨
    (f row).leaseToken = row.leaseToken ∧ (row.state.live = true → (f row).state.live = true)

namespace Db.Tokens

variable {db db' : Db} (h : db.Tokens)

include h

theorem held_live {lease : TaskLease} {row : Attempt} (hleased : db.Leased lease row) :
    row.state.live = true :=
  h.live row (Table.mem_of_row? hleased.found) (by simp [hleased.token])

theorem rewrite {e : Effect} (hchanges : db.Changes e db') (hnew : e.newAttempts = [])
    (hkeeps : ∀ row ∈ db.taskAttempts.rows, Attempt.KeepsLease e.attempt.apply row) :
    db'.Tokens := by
  have hold : ∀ attempt ∈ db'.taskAttempts.rows, ∃ old ∈ db.taskAttempts.rows,
      e.attempt.apply old = attempt ∧ ∀ token, attempt.leaseToken = some token →
        old.leaseToken = some token ∧ attempt.state.live = true := by
    intro attempt hattempt
    obtain ⟨old, hold, rfl⟩ | hadded := hchanges.mem_attempts.mp hattempt
    · refine ⟨old, hold, rfl, fun token htoken => ?_⟩
      rcases hkeeps old hold with hnone | ⟨hsame, hlive⟩
      · simp [hnone] at htoken
      · rw [hsame] at htoken
        exact ⟨htoken, hlive (h.live old hold (by simp [htoken]))⟩
    · simp [hnew] at hadded
  refine ⟨?_, ?_, ?_, ?_⟩
  · intro attempt hattempt htoken
    obtain ⟨old, -, -, hlease⟩ := hold attempt hattempt
    obtain ⟨token, htoken⟩ := Option.ne_none_iff_exists'.mp htoken
    exact (hlease token htoken).2
  · intro attempt hattempt other hother token htoken htoken'
    obtain ⟨old, hmem, rfl, hlease⟩ := hold attempt hattempt
    obtain ⟨old', hmem', rfl, hlease'⟩ := hold other hother
    rw [h.inj old hmem old' hmem' token (hlease token htoken).1 (hlease' token htoken').1]
  · intro attempt hattempt token htoken
    obtain ⟨old, hmem, -, hlease⟩ := hold attempt hattempt
    exact (h.below old hmem token (hlease token htoken).1).trans_le hchanges.uuids
  · intro attempt hattempt
    obtain ⟨old, hmem, rfl, -⟩ := hold attempt hattempt
    rw [Attempt.apply_id]
    exact (h.ids old hmem).trans_le hchanges.uuids

/-- One attempt gets a fresh token; the others keep or lose theirs. -/
theorem lease (owner fresh : Uuid) (hfresh : db.uuids ≤ fresh) (hdrawn : fresh < db'.uuids)
    (howner : owner < db'.uuids)
    (hleased : ∀ attempt ∈ db'.taskAttempts.rows, attempt.id = owner →
      attempt.leaseToken = some fresh ∧ attempt.state.live = true)
    (hother : ∀ attempt ∈ db'.taskAttempts.rows, attempt.id ≠ owner →
      attempt ∈ db.taskAttempts.rows) : db'.Tokens := by
  have huuids : db.uuids < db'.uuids := hfresh.trans_lt hdrawn
  refine ⟨?_, ?_, ?_, ?_⟩
  · intro attempt hattempt htoken
    by_cases hid : attempt.id = owner
    · exact (hleased attempt hattempt hid).2
    · exact h.live attempt (hother attempt hattempt hid) htoken
  · intro attempt hattempt other hother' token htoken htoken'
    by_cases hid : attempt.id = owner
    · by_cases hid' : other.id = owner
      · exact db'.taskAttempts.eq_of_key_eq hattempt hother' (hid.trans hid'.symm)
      · have := h.below other (hother other hother' hid') token htoken'
        rw [(hleased attempt hattempt hid).1, Option.some.injEq] at htoken
        grind
    · by_cases hid' : other.id = owner
      · have := h.below attempt (hother attempt hattempt hid) token htoken
        rw [(hleased other hother' hid').1, Option.some.injEq] at htoken'
        grind
      · exact h.inj attempt (hother attempt hattempt hid) other (hother other hother' hid')
          token htoken htoken'
  · intro attempt hattempt token htoken
    by_cases hid : attempt.id = owner
    · rw [(hleased attempt hattempt hid).1, Option.some.injEq] at htoken
      grind
    · exact (h.below attempt (hother attempt hattempt hid) token htoken).trans huuids
  · intro attempt hattempt
    by_cases hid : attempt.id = owner
    · rwa [hid]
    · exact (h.ids attempt (hother attempt hattempt hid)).trans huuids

theorem sweep (now : Time) : (resetExpiredLeases db now).Tokens := by
  refine h.rewrite (resetExpiredLeases_changes db now) rfl fun row _ => ?_
  simp only [Effect.sweep, Attempt.KeepsLease, Db.sweepAttempt]
  split
  · next expired _ => exact .inl (by cases expired.expiry <;> rfl)
  · exact .inr ⟨rfl, fun hlive => hlive⟩

theorem claims {now : Time} {workerId : String} {leaseSeconds : Int}
    {admission : Admission} {claimed : Option TaskLease}
    (hclaims : db.Claims now workerId leaseSeconds admission claimed db') :
    db'.Tokens := by
  cases hclaims with
  | idle _ _ => exact h
  | @recovered row hrow =>
      have hchanges := recoverAttempt_changes db now workerId leaseSeconds row.attempt
      obtain ⟨hmem, hrecoverable, -⟩ :=
        mem_recoverableAttempts.mp (List.mem_of_find?_eq_some hrow)
      refine h.lease row.attempt.id db.uuids le_rfl (Nat.lt_succ_self _)
        ((h.ids _ hmem).trans (Nat.lt_succ_self _)) ?_ ?_
      · intro attempt hattempt hid
        obtain ⟨old, hold, rfl⟩ | hnew := hchanges.mem_attempts.mp hattempt
        · rw [Attempt.apply_id] at hid
          rw [db.taskAttempts.eq_of_key_eq hold hmem hid]
          simp only [Effect.recover, RowUpdate.forKey_apply, Attempt.key_eq, ↓reduceIte]
          exact ⟨rfl, row.attempt.live_of_recoverable hrecoverable⟩
        · cases hnew
      · intro attempt hattempt hid
        obtain ⟨old, hold, rfl⟩ | hnew := hchanges.mem_attempts.mp hattempt
        · rw [Attempt.apply_id] at hid
          simpa [Effect.recover, RowUpdate.forKey_apply, hid] using hold
        · cases hnew
  | started _ hready hlease =>
      obtain ⟨-, -, -, -, -, -, -, huuids, hchanges⟩ := leaseTask_ok hlease
      refine h.lease (db.uuids + 1) db.uuids le_rfl (by grind)
        (by grind) ?_ ?_
      · intro attempt hattempt hid
        obtain ⟨old, hold, rfl⟩ | hnew := hchanges.mem_attempts.mp hattempt
        · rw [Attempt.apply_id] at hid
          have := h.ids old hold
          grind
        · rw [List.mem_singleton.mp hnew]
          exact ⟨rfl, rfl⟩
      · intro attempt hattempt hid
        obtain ⟨old, hold, rfl⟩ | hnew := hchanges.mem_attempts.mp hattempt
        · exact hold
        · rw [List.mem_singleton.mp hnew] at hid
          exact absurd rfl hid

/-- Rewriting the attempt of a lease so that it stays live or loses the lease. -/
theorem ofLease {lease : TaskLease} {f : RowUpdate Attempt} {e : Effect}
    (hattempt : e.attempt = .forKey lease.attemptId f) (hnew : e.newAttempts = [])
    (hchanges : db.Changes e db')
    (hkeeps : ∀ row, db.Leased lease row → Attempt.KeepsLease f.apply row)
    {row : Attempt} (hleased : db.Leased lease row) : db'.Tokens := by
  refine h.rewrite hchanges hnew fun old hold => ?_
  rw [hattempt]
  by_cases hid : old.id = lease.attemptId
  · obtain rfl : old = row := by
      have hfound := Table.row?_of_mem hold
      rw [Attempt.key_eq, hid] at hfound
      exact Option.some.inj (hfound.symm.trans hleased.found)
    have := hkeeps old hleased
    simpa [Attempt.KeepsLease, RowUpdate.forKey_apply, hid] using this
  · exact .inr (by simp [RowUpdate.forKey_apply, hid])

/-- Every operation keeps the token discipline. -/
theorem step {now : Time} {operation : Operation} (hstep : db.Transition now operation db') :
    db'.Tokens := by
  cases hstep with
  | quiet hchanges =>
      exact h.rewrite hchanges rfl fun row _ => .inr ⟨rfl, fun hlive => hlive⟩
  | submitted _ _ hchanges =>
      exact h.rewrite hchanges rfl fun row _ => .inr ⟨rfl, fun hlive => hlive⟩
  | claimed hclaims => exact (h.sweep now).claims hclaims
  | renewed hholds hchanges =>
      exact h.ofLease rfl rfl hchanges (fun _ _ => .inr ⟨rfl, fun hlive => hlive⟩)
        hholds.toLeased
  | marked hholds _ hchanges =>
      exact h.ofLease rfl rfl hchanges (fun _ _ => .inr ⟨rfl, fun _ => rfl⟩) hholds.toLeased
  | @recorded _ _ _ _ row target _ hholds _ hchanges =>
      refine h.ofLease rfl rfl hchanges (fun _ _ => .inr ⟨rfl, fun _ => ?_⟩) hholds.toLeased
      simp only [Attempt.submit]
      split
      · rfl
      · cases target <;> rfl
  | @observed _ _ _ row target _ hholds _ hchanges =>
      refine h.ofLease rfl rfl hchanges (fun _ _ => .inr ⟨rfl, fun _ => ?_⟩) hholds.toLeased
      have hlive := h.held_live hholds.toLeased
      cases target <;> first | rfl | exact hlive
  | released hholds hchanges =>
      exact h.ofLease rfl rfl hchanges (fun _ _ => .inl rfl) hholds.toLeased
  | markedCanceled hholds hchanges =>
      exact h.ofLease rfl rfl hchanges (fun _ _ => .inl rfl) hholds.toLeased
  | completed _ _ _ hleased _ _ _ _ _ _ hchanges =>
      exact h.ofLease rfl rfl hchanges (fun _ _ => .inl rfl) hleased
  | failed _ _ _ hleased hchanges =>
      exact h.ofLease rfl rfl hchanges (fun _ _ => .inl rfl) hleased
  | runCanceled _ _ hchanges =>
      refine h.rewrite hchanges rfl fun row _ => ?_
      simp only [Attempt.KeepsLease, Effect.cancelRun, RowUpdate.onlyIf_apply,
        Attempt.requestCancel]
      split
      · split
        · exact .inl rfl
        · exact .inr ⟨rfl, fun _ => rfl⟩
      · exact .inr ⟨rfl, fun hlive => hlive⟩
  | retried _ _ _ hchanges =>
      exact h.rewrite hchanges rfl fun row _ => .inr ⟨rfl, fun hlive => hlive⟩

end Db.Tokens

/-! ## Reachable states -/

/-- An invariant of the transitions holds in every state of the engine. -/
theorem engine_invariant {Inv : Db → Prop} {guard : Db → Operation × Time → Prop} {db : Db}
    (hempty : Inv {})
    (hstep : ∀ db now operation db', engine.Reachable guard db → Inv db →
      guard db (operation, now) → db.Transition now operation db' → Inv db')
    (hreach : engine.Reachable guard db) : Inv db := by
  refine hreach.invariant Inv (fun s hs => by
    cases hs
    exact hempty) ?_
  intro s label s' hs hinv hguard hnext
  cases hnext
  exact hstep s label.2 label.1 _ hs hinv hguard (label.1.transition label.2 s)

theorem engine_integrity {guard : Db → Operation × Time → Prop} {db : Db}
    (hreach : engine.Reachable guard db) : db.Integrity :=
  engine_invariant Db.integrity_empty (fun _ _ _ _ _ h _ hstep => h.step hstep) hreach

theorem engine_tokens {guard : Db → Operation × Time → Prop} {db : Db}
    (hreach : engine.Reachable guard db) : db.Tokens :=
  engine_invariant Db.tokens_empty (fun _ _ _ _ _ h _ hstep => h.step hstep) hreach

end QhpcEcosystem
