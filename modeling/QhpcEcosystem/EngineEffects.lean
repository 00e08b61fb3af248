/-
What each engine operation does to the rows of runs, tasks and attempts, said
once: an effect rewrites the rows of each table and appends new ones.  Every
invariant of the engine is derived from these effects, not from the bodies of
the operations.
-/
import QhpcEcosystem.RunOperations

namespace QhpcEcosystem

/-- A rewriting of the rows of the three state tables, with the rows added. -/
structure Effect where
  attempt : RowUpdate Attempt := .keep
  task : RowUpdate Task := .keep
  run : RowUpdate Run := .keep
  newAttempts : List Attempt := []
  newTasks : List Task := []
  newRuns : List Run := []
  newArtifacts : List Artifact := []

/-- The workflow versions of `db'` are those of `db` and resolved ones. -/
def Db.ResolvedVersions (db db' : Db) : Prop :=
  ∀ row ∈ db'.workflowVersions.rows, row ∈ db.workflowVersions.rows ∨
    ∃ registry resolved, resolveWorkflow row.definition registry = .ok resolved ∧
      row.workflowId = row.definition.id ∧ row.version = row.definition.version ∧
      row.resolution = resolved.operations

/-- The step from `db` to `db'` has the effect.  Workflow versions and input
artifacts are never removed, and identifiers once drawn are not drawn again. -/
structure Db.Changes (db : Db) (e : Effect) (db' : Db) : Prop where
  attempts : db'.taskAttempts.rows =
    db.taskAttempts.rows.map e.attempt.apply ++ e.newAttempts
  tasks : db'.tasks.rows = db.tasks.rows.map e.task.apply ++ e.newTasks
  runs : db'.runs.rows = db.runs.rows.map e.run.apply ++ e.newRuns
  artifacts : db'.artifacts.rows = db.artifacts.rows ++ e.newArtifacts
  workflowVersions : db.workflowVersions.rows ⊆ db'.workflowVersions.rows
  resolvedVersions : db.ResolvedVersions db'
  inputArtifacts : db.inputArtifacts.rows ⊆ db'.inputArtifacts.rows
  newInputs : ∀ record ∈ db'.inputArtifacts.rows,
    record ∈ db.inputArtifacts.rows ∨ db.uuids ≤ record.id
  uuids : db.uuids ≤ db'.uuids

namespace Db.Changes

variable {db db' : Db} {e : Effect} (h : db.Changes e db')

include h

theorem mem_attempts {row : Attempt} : row ∈ db'.taskAttempts.rows ↔
    (∃ old ∈ db.taskAttempts.rows, e.attempt.apply old = row) ∨ row ∈ e.newAttempts := by
  rw [h.attempts, List.mem_append, List.mem_map]

theorem mem_tasks {row : Task} : row ∈ db'.tasks.rows ↔
    (∃ old ∈ db.tasks.rows, e.task.apply old = row) ∨ row ∈ e.newTasks := by
  rw [h.tasks, List.mem_append, List.mem_map]

theorem mem_runs {row : Run} : row ∈ db'.runs.rows ↔
    (∃ old ∈ db.runs.rows, e.run.apply old = row) ∨ row ∈ e.newRuns := by
  rw [h.runs, List.mem_append, List.mem_map]

theorem task?_eq (runId : Uuid) (nodeId : String) : db'.task? runId nodeId =
    ((db.task? runId nodeId).map e.task.apply).or
      (e.newTasks.find? fun row => decide (Keyed.key row = (runId, nodeId))) :=
  Table.row?_of_rows h.tasks _

theorem run?_eq (runId : Uuid) : db'.run? runId =
    ((db.run? runId).map e.run.apply).or
      (e.newRuns.find? fun row => decide (Keyed.key row = runId)) :=
  Table.row?_of_rows h.runs _

theorem attempt?_eq (attemptId : Uuid) : db'.attempt? attemptId =
    ((db.attempt? attemptId).map e.attempt.apply).or
      (e.newAttempts.find? fun row => decide (Keyed.key row = attemptId)) :=
  Table.row?_of_rows h.attempts _

theorem task?_some {runId : Uuid} {nodeId : String} {task : Task}
    (hfound : db.task? runId nodeId = some task) :
    db'.task? runId nodeId = some (e.task.apply task) := by
  simp [h.task?_eq, hfound]

theorem run?_some {runId : Uuid} {run : Run} (hfound : db.run? runId = some run) :
    db'.run? runId = some (e.run.apply run) := by
  simp [h.run?_eq, hfound]

theorem attempt?_some {attemptId : Uuid} {attempt : Attempt}
    (hfound : db.attempt? attemptId = some attempt) :
    db'.attempt? attemptId = some (e.attempt.apply attempt) := by
  simp [h.attempt?_eq, hfound]

end Db.Changes

/-- No row changes. -/
def Effect.quiet : Effect := {}

/-- Rewrite the attempt of a lease. -/
def Effect.ofLease (lease : TaskLease) (f : RowUpdate Attempt) : Effect where
  attempt := .forKey lease.attemptId f

/-- Rewrite the attempt of a lease and the task that shares its token. -/
def Effect.ofToken (lease : TaskLease) (f : RowUpdate Attempt) (g : RowUpdate Task) :
    Effect where
  attempt := .forKey lease.attemptId f
  task := .onlyIf (Task.leasedBy lease) g

/-- End the attempt of a lease together with its task. -/
def Effect.finish (lease : TaskLease) (f : RowUpdate Attempt) (g : RowUpdate Task)
    (run : RowUpdate Run := .keep) : Effect where
  attempt := .forKey lease.attemptId f
  task := .forKey (lease.runId, lease.nodeId) g
  run := run

/-- The rows of the state tables determine a change that leaves the other tables
alone. -/
theorem Db.changes_of_rows {db db' : Db} {e : Effect}
    (hattempts : db'.taskAttempts.rows =
      db.taskAttempts.rows.map e.attempt.apply ++ e.newAttempts)
    (htasks : db'.tasks.rows = db.tasks.rows.map e.task.apply ++ e.newTasks)
    (hruns : db'.runs.rows = db.runs.rows.map e.run.apply ++ e.newRuns)
    (hartifacts : db'.artifacts.rows = db.artifacts.rows ++ e.newArtifacts)
    (hworkflows : db'.workflowVersions = db.workflowVersions)
    (hinputs : db'.inputArtifacts = db.inputArtifacts)
    (huuids : db.uuids ≤ db'.uuids) : db.Changes e db' where
  attempts := hattempts
  tasks := htasks
  runs := hruns
  artifacts := hartifacts
  workflowVersions := by rw [hworkflows]; exact fun _ h => h
  resolvedVersions := fun row hrow => .inl (hworkflows ▸ hrow)
  inputArtifacts := by rw [hinputs]; exact fun _ h => h
  newInputs := fun record hrecord => .inl (hinputs ▸ hrecord)
  uuids := huuids

@[simp] theorem map_keep {ρ : Type} {κ : Type} [Keyed ρ κ] (rows : List ρ) :
    rows.map (RowUpdate.keep : RowUpdate ρ).apply = rows := by
  simp [RowUpdate.keep]

theorem Db.changes_quiet {db db' : Db} (hattempts : db'.taskAttempts = db.taskAttempts)
    (htasks : db'.tasks = db.tasks) (hruns : db'.runs = db.runs)
    (hartifacts : db'.artifacts = db.artifacts)
    (hworkflows : db'.workflowVersions = db.workflowVersions)
    (hinputs : db'.inputArtifacts = db.inputArtifacts) (huuids : db'.uuids = db.uuids) :
    db.Changes .quiet db' := by
  refine Db.changes_of_rows ?_ ?_ ?_ ?_ hworkflows hinputs huuids.ge
  · simp [Effect.quiet, hattempts]
  · simp [Effect.quiet, htasks]
  · simp [Effect.quiet, hruns]
  · simp [Effect.quiet, hartifacts]

/-! ## Operations of a lease holder -/

section ReportedStages

variable (db : Db) (now : Time) (lease : TaskLease) (metadata : Metadata)

/-- Reported stages only append events. -/
theorem appendReportedStages_core :
    ∃ events, appendReportedStages db now lease metadata =
      { db with executionEvents := events } := by
  unfold appendReportedStages
  generalize reportedStages metadata = stages
  induction stages generalizing db with
  | nil => exact ⟨db.executionEvents, rfl⟩
  | cons stage rest ih =>
      obtain ⟨events, hevents⟩ := ih (db.appendEvent lease.runId lease.nodeId
        (some lease.attemptId) "stage.completed" now (some stage.1) none (some stage.2)
        [("reported_by", .str "target-runner")] "target-runner")
      exact ⟨events, hevents⟩

end ReportedStages

section LeaseOperations

variable {db db' : Db} {now : Time} {lease : TaskLease}

theorem recordStage_ok {stage : String} {durationMs : Int}
    {details : List (String × Value)} {source : String}
    (h : recordStage db now lease stage durationMs details source = .ok db') :
    (∃ row, db.Holds lease row) ∧ ∃ events, db' = { db with executionEvents := events } := by
  unfold recordStage at h
  split at h
  · cases h
  · simp only [bind, Except.bind] at h
    split at h
    · cases h
    · next row hrow =>
        split at h
        · cases h
        · cases h
          exact ⟨⟨row, assertLease_eq_ok.mp hrow⟩, _, rfl⟩

theorem recordReportedStages_ok {metadata : Metadata}
    (h : recordReportedStages db now lease metadata = .ok db') :
    (∃ row, db.Holds lease row) ∧ ∃ events, db' = { db with executionEvents := events } := by
  simp only [recordReportedStages, bind, Except.bind] at h
  split at h
  · cases h
  · next row hrow =>
      cases h
      exact ⟨⟨row, assertLease_eq_ok.mp hrow⟩,
        appendReportedStages_core db now lease metadata⟩

theorem renewLease_ok {leaseSeconds : Int} {renewed : TaskLease}
    (h : renewLease db now lease leaseSeconds = .ok (renewed, db')) :
    (∃ row, db.Holds lease row) ∧
      db.Changes (.ofToken lease (Attempt.renew (leaseExpiration now leaseSeconds))
        (Task.renew (leaseExpiration now leaseSeconds))) db' := by
  unfold renewLease at h
  split at h
  · cases h
  · simp only [bind, Except.bind] at h
    split at h
    · cases h
    · next row hrow =>
        cases h
        refine ⟨⟨row, assertLease_eq_ok.mp hrow⟩,
          Db.changes_of_rows ?_ ?_ ?_ (List.append_nil _).symm rfl rfl le_rfl⟩
        · simp [Effect.ofToken, Db.updateAttempt, Db.updateTasksWhere, Table.rows_update]
        · simp [Effect.ofToken, Db.updateAttempt, Db.updateTasksWhere,
            Table.rows_updateWhere]
        · simp [Effect.ofToken, Db.updateAttempt, Db.updateTasksWhere]

theorem releaseLease_ok (h : releaseLease db lease = .ok db') :
    (∃ row, db.Holds lease row) ∧
      db.Changes (.ofToken lease Attempt.clearLease Task.clearLease) db' := by
  simp only [releaseLease, bind, Except.bind] at h
  split at h
  · cases h
  · next row hrow =>
      cases h
      refine ⟨⟨row, assertLease_eq_ok.mp hrow⟩,
        Db.changes_of_rows ?_ ?_ ?_ (List.append_nil _).symm rfl rfl le_rfl⟩
      · simp [Effect.ofToken, Db.updateAttempt, Db.updateTasksWhere, Table.rows_update]
      · simp [Effect.ofToken, Db.updateAttempt, Db.updateTasksWhere, Table.rows_updateWhere]
      · simp [Effect.ofToken, Db.updateAttempt, Db.updateTasksWhere]

/-- A rewriting of the attempt of a lease, up to events. -/
theorem Db.changes_ofLease {f : RowUpdate Attempt} (events : List Event)
    (h : db' = { db.updateAttempt lease.attemptId f with executionEvents := events }) :
    db.Changes (.ofLease lease f) db' := by
  subst h
  refine Db.changes_of_rows ?_ ?_ ?_ (List.append_nil _).symm rfl rfl le_rfl
  · simp [Effect.ofLease, Db.updateAttempt, Table.rows_update]
  · simp [Effect.ofLease, Db.updateAttempt]
  · simp [Effect.ofLease, Db.updateAttempt]

theorem recordSubmission_ok {targetHandle targetState : String} {metadata : Metadata}
    {state : AttemptState}
    (h : recordSubmission db now lease targetHandle targetState metadata =
      .ok (state, db')) :
    ∃ row target, db.Holds lease row ∧ TargetState.ofName? targetState = some target ∧
      state = (if row.state = .cancelRequested then .cancelRequested
        else submittedState target) ∧
      db.Changes (.ofLease lease (Attempt.submit state targetHandle target metadata now))
        db' := by
  unfold recordSubmission at h
  split at h
  · cases h
  · split at h
    · cases h
    · next target htarget =>
        simp only [bind, Except.bind] at h
        split at h
        · cases h
        · next row hrow =>
            simp only [pure, Except.pure, Except.ok.injEq, Prod.mk.injEq] at h
            obtain ⟨rfl, rfl⟩ := h
            refine ⟨row, target, assertLease_eq_ok.mp hrow, htarget, rfl, ?_⟩
            obtain ⟨events, hevents⟩ := appendReportedStages_core
              ((db.updateAttempt lease.attemptId (Attempt.submit
                (if row.state = .cancelRequested then .cancelRequested
                  else submittedState target) targetHandle target metadata now)).appendEvent
                lease.runId lease.nodeId (some lease.attemptId) "target.submitted" now none
                (some targetState) none [("target_handle", .str targetHandle)]
                "target-runner") now lease metadata
            exact Db.changes_ofLease events hevents

theorem recordTargetStatus_ok {targetState : String} {metadata : Metadata}
    (h : recordTargetStatus db now lease targetState metadata = .ok db') :
    ∃ row target, db.Holds lease row ∧ TargetState.ofName? targetState = some target ∧
      db.Changes (.ofLease lease (Attempt.observe (observedState row.state target) target
        (Metadata.merge row.targetMetadata metadata))) db' := by
  unfold recordTargetStatus at h
  split at h
  · cases h
  · next target htarget =>
      simp only [bind, Except.bind] at h
      split at h
      · cases h
      · next row hrow =>
          cases h
          refine ⟨row, target, assertLease_eq_ok.mp hrow, htarget, ?_⟩
          obtain ⟨events, hevents⟩ := appendReportedStages_core
            ((db.updateAttempt lease.attemptId
              (Attempt.observe (observedState row.state target) target
                (Metadata.merge row.targetMetadata metadata))).appendEvent
              lease.runId lease.nodeId (some lease.attemptId) "target.state" now none
              (some targetState) none metadata.rows "target-runner") now lease metadata
          exact Db.changes_ofLease events hevents

/-- The submission intent is recorded, or the attempt is to be canceled and
nothing changes. -/
theorem markSubmitting_ok (h : markSubmitting db now lease = .ok db') :
    ∃ row, db.Holds lease row ∧
      (row.state = .cancelRequested ∧ db' = db ∨
        (row.state = .leased ∨ row.state = .submitting) ∧
          db.Changes (.ofLease lease (Attempt.setState .submitting)) db') := by
  simp only [markSubmitting, bind, Except.bind] at h
  split at h
  · cases h
  · next row hrow =>
      refine ⟨row, assertLease_eq_ok.mp hrow, ?_⟩
      split at h
      · next hstate =>
          cases h
          exact .inl ⟨hstate, rfl⟩
      · next hstate =>
          cases h
          exact .inr ⟨.inl hstate, Db.changes_ofLease _ rfl⟩
      · next hstate =>
          cases h
          exact .inr ⟨.inr hstate, Db.changes_ofLease db.executionEvents rfl⟩
      · cases h

theorem markAttemptCanceled_ok {log : String} {details : List (String × Value)}
    (h : markAttemptCanceled db now lease log details = .ok db') :
    (∃ row, db.Holds lease row) ∧
      db.Changes (.finish lease (Attempt.cancel now log) (Task.cancel now)) db' := by
  simp only [markAttemptCanceled, bind, Except.bind] at h
  split at h
  · cases h
  · next row hrow =>
      cases h
      refine ⟨⟨row, assertLease_eq_ok.mp hrow⟩,
        Db.changes_of_rows ?_ ?_ ?_ (List.append_nil _).symm rfl rfl le_rfl⟩
      · simp [Effect.finish, Db.updateAttempt, Db.updateTask, Table.rows_update]
      · simp [Effect.finish, Db.updateAttempt, Db.updateTask, Table.rows_update]
      · simp [Effect.finish, Db.updateAttempt, Db.updateTask]

/-- Stored outputs add artifacts of the attempt and draw identifiers, nothing
else. -/
theorem insertOutputs_core {attempt : Attempt} {declared : Dict String PortDefinition}
    {outputs : List (String × ArtifactResult)} {outputIds outputIds' : ArtifactIds}
    (h : insertOutputs now attempt declared outputs db outputIds = .ok (db', outputIds')) :
    ∃ artifacts uuids added,
      db' = { db with artifacts := artifacts, uuids := uuids } ∧ db.uuids ≤ uuids ∧
      artifacts.rows = db.artifacts.rows ++ added ∧
      ∀ row ∈ added, row.attemptId = attempt.id := by
  induction outputs generalizing db outputIds with
  | nil =>
      simp only [insertOutputs, Except.ok.injEq, Prod.mk.injEq] at h
      exact ⟨db.artifacts, db.uuids, [], h.1.symm, le_rfl, by simp, by simp⟩
  | cons output rest ih =>
      obtain ⟨port, artifact⟩ := output
      simp only [insertOutputs] at h
      split at h
      · cases h
      · split at h
        · cases h
        · split at h
          · cases h
          · next stored hstored =>
              obtain ⟨artifacts, uuids, added, rfl, huuids, hartifacts, hadded⟩ := ih h
              unfold Db.insertArtifact? at hstored
              split at hstored
              · cases hstored
              · obtain ⟨rows, hrows, rfl⟩ := Option.map_eq_some_iff.mp hstored
                refine ⟨artifacts, uuids, newArtifact now attempt db.uuids port artifact :: added,
                  rfl, (Nat.le_succ _).trans huuids, ?_, ?_⟩
                · rw [hartifacts, Table.insert?_rows hrows, List.append_assoc]
                  rfl
                · intro row hrow
                  rcases List.mem_cons.mp hrow with rfl | hrow
                  · rfl
                  · exact hadded row hrow

/-- What the output loop stores: for each output an artifact of the declared
type under a fresh identifier, recorded under its port. -/
theorem insertOutputs_spec {attempt : Attempt} {declared : Dict String PortDefinition}
    {outputs : List (String × ArtifactResult)} (hnodup : (outputs.map Prod.fst).Nodup)
    {outputIds outputIds' : ArtifactIds}
    (h : insertOutputs now attempt declared outputs db outputIds = .ok (db', outputIds')) :
    db.uuids ≤ db'.uuids ∧ ∃ added, db'.artifacts.rows = db.artifacts.rows ++ added ∧
      (∀ row ∈ added, db.uuids ≤ row.record.id ∧ row.record.id < db'.uuids) ∧
      (∀ port artifact, (port, artifact) ∈ outputs → ∃ row ∈ added,
        row = newArtifact now attempt row.record.id port artifact ∧
        outputIds'.row? port = some (port, row.record.id) ∧
        ∃ definition, declared.row? port = some (port, definition) ∧
          artifact.artifactType = definition.artifactType) ∧
      ∀ port, port ∉ outputs.map Prod.fst → outputIds'.row? port = outputIds.row? port := by
  induction outputs generalizing db outputIds with
  | nil =>
      simp only [insertOutputs, Except.ok.injEq, Prod.mk.injEq] at h
      obtain ⟨rfl, rfl⟩ := h
      exact ⟨le_rfl, [], by simp⟩
  | cons output rest ih =>
      obtain ⟨port, artifact⟩ := output
      obtain ⟨hfresh, hrest⟩ := List.nodup_cons.mp hnodup
      simp only [insertOutputs] at h
      split at h
      · cases h
      · next name definition hdeclared =>
          have hname : name = port := Table.key_of_row? hdeclared
          subst hname
          split at h
          · cases h
          · next htype =>
              split at h
              · cases h
              · next stored hstored =>
                  obtain ⟨huuids, added, hartifacts, hids, hitems, hframe⟩ := ih hrest h
                  have hnext : db.uuids + 1 ≤ db'.uuids := huuids
                  have hrows : stored.artifacts.rows = db.artifacts.rows ++
                      [newArtifact now attempt db.uuids name artifact] := by
                    unfold Db.insertArtifact? at hstored
                    split at hstored
                    · cases hstored
                    · obtain ⟨rows, hrows, rfl⟩ := Option.map_eq_some_iff.mp hstored
                      exact Table.insert?_rows hrows
                  refine ⟨(Nat.le_succ _).trans hnext,
                    newArtifact now attempt db.uuids name artifact :: added, ?_, ?_, ?_, ?_⟩
                  · rw [hartifacts]
                    simp [hrows]
                  · intro row hrow
                    rcases List.mem_cons.mp hrow with rfl | hrow
                    · exact ⟨le_rfl, hnext⟩
                    · obtain ⟨hlow, hhigh⟩ := hids row hrow
                      have hlow : db.uuids + 1 ≤ row.record.id := hlow
                      exact ⟨(Nat.le_succ _).trans hlow, hhigh⟩
                  · intro other result hother
                    rcases List.mem_cons.mp hother with heq | hother
                    · obtain ⟨rfl, rfl⟩ := Prod.mk.inj heq
                      refine ⟨_, List.mem_cons_self, rfl, ?_, definition, hdeclared,
                        by simpa using htype⟩
                      rw [hframe other hfresh, Table.row?_set]
                      simp [Keyed.key, newArtifact]
                    · obtain ⟨row, hrow, hrest⟩ := hitems other result hother
                      exact ⟨row, List.mem_cons_of_mem _ hrow, hrest⟩
                  · intro other hother
                    simp only [List.map_cons, List.mem_cons, not_or] at hother
                    rw [hframe other hother.2, Table.row?_set]
                    have hne : ¬ name = other := fun heq => hother.1 heq.symm
                    simp [Keyed.key, hne]

theorem leased_of_leasedAttempt? {row : Attempt}
    (h : db.leasedAttempt? lease.runId lease.nodeId lease.token = some row)
    (hid : row.id = lease.attemptId) : db.Leased lease row := by
  have hmem := List.mem_of_find?_eq_some h
  have hmatch := List.find?_some h
  simp only [Bool.decide_and, Bool.and_eq_true, decide_eq_true_eq] at hmatch
  refine ⟨?_, hmatch.1, hmatch.2.1, hmatch.2.2⟩
  rw [← hid]
  exact Table.row?_of_mem hmem

theorem collectOutputs_congr {other : Db} (htasks : db.tasks = other.tasks) (runId : Uuid)
    (declared : List (String × WorkflowOutput)) (outputs : ArtifactIds) :
    collectOutputs db runId declared outputs = collectOutputs other runId declared outputs := by
  induction declared generalizing outputs with
  | nil => rfl
  | cons item rest ih =>
      obtain ⟨name, output⟩ := item
      simp only [collectOutputs, Db.task?, htasks, ih]

/-- How the run of a completed task changes: it has finished when all its tasks
have succeeded. -/
inductive FinishedRun (db : Db) (tasks : Table Task) (now : Time) (runId : Uuid) :
    RowUpdate Run → Prop
  | unfinished {task : Task} : task ∈ tasks.rows → task.runId = runId →
      task.state ≠ .succeeded → FinishedRun db tasks now runId .keep
  | finished {definition : Workflow} {outputs : ArtifactIds} :
      (∀ task ∈ tasks.rows, task.runId = runId → task.state = .succeeded) →
      db.definition? runId = some definition →
      collectOutputs { db with tasks := tasks } runId definition.outputs.rows Table.empty =
        .ok outputs →
      FinishedRun db tasks now runId (.forKey runId (Run.succeed now outputs))

theorem finishRunIfTerminal_ok {runId : Uuid} {task : Task} (hmem : task ∈ db.tasks.rows)
    (hrun : task.runId = runId) (h : finishRunIfTerminal db now runId = .ok db') :
    ∃ update, FinishedRun db db.tasks now runId update ∧
      db' = { db with runs := db'.runs } ∧
      db'.runs.rows = db.runs.rows.map update.apply := by
  simp only [finishRunIfTerminal] at h
  split at h
  · next hopen =>
      cases h
      have hne : db.tasksOf runId ≠ [] := by
        apply List.ne_nil_of_mem (a := task)
        simp [Db.tasksOf, hmem, hrun]
      obtain ⟨other, hother, hstate⟩ := List.any_eq_true.mp (hopen.resolve_left hne)
      simp only [Db.tasksOf, List.mem_filter, decide_eq_true_eq] at hother
      refine ⟨.keep, .unfinished hother.1 hother.2 ?_, rfl, by simp⟩
      simpa using hstate
  · next hall =>
      split at h
      · cases h
      · next definition hdefinition =>
          simp only [bind, Except.bind] at h
          split at h
          · cases h
          · next outputs houtputs =>
              cases h
              refine ⟨_, .finished ?_ hdefinition houtputs, rfl, rfl⟩
              intro other hother hotherRun
              by_contra hstate
              apply hall
              refine .inr (List.any_eq_true.mpr ⟨other, ?_, by simpa using hstate⟩)
              simp [Db.tasksOf, hother, hotherRun]

/-- End the attempt of a lease with stored outputs. -/
def Effect.complete (lease : TaskLease) (now : Time) (outputIds : ArtifactIds) (log : String)
    (run : RowUpdate Run) (artifacts : List Artifact) : Effect :=
  { Effect.finish lease (Attempt.succeed now outputIds log) (Task.succeed now outputIds log)
      run with newArtifacts := artifacts }

theorem storeCompletion_finished {row : Attempt} {task : Task} {stored : Db}
    {outputIds : ArtifactIds} {log : String}
    (htask : db.task? lease.runId lease.nodeId = some task)
    (hid : row.id = lease.attemptId)
    (hstored : ∃ artifacts uuids added,
      stored = { db with artifacts := artifacts, uuids := uuids } ∧ db.uuids ≤ uuids ∧
      artifacts.rows = db.artifacts.rows ++ added ∧ ∀ row' ∈ added, row'.attemptId = row.id)
    (h : finishRunIfTerminal (storeCompletion stored now lease row.id outputIds log) now
      lease.runId = .ok db') :
    ∃ update added, db'.artifacts = stored.artifacts ∧ db'.uuids = stored.uuids ∧
      FinishedRun db db'.tasks now lease.runId update ∧
      (∀ row' ∈ added, row'.attemptId = row.id) ∧
      db.Changes (.complete lease now outputIds log update added) db' := by
  obtain ⟨artifacts, uuids, added, rfl, huuids, hartifacts, hadded⟩ := hstored
  have hmem : (Task.succeed now outputIds log).apply task ∈
      (storeCompletion { db with artifacts := artifacts, uuids := uuids } now lease row.id
        outputIds log).tasks.rows := by
    refine Table.mem_of_row? (k := (lease.runId, lease.nodeId)) ?_
    simp only [Db.task?] at htask
    simp [storeCompletion, Db.updateTask, Db.updateAttempt, htask]
  have hrun : ((Task.succeed now outputIds log).apply task).runId = lease.runId :=
    congrArg Prod.fst (Table.key_of_row? htask)
  obtain ⟨update, hfinished, hdb, hruns⟩ := finishRunIfTerminal_ok hmem hrun h
  refine ⟨update, added, by rw [hdb]; rfl, by rw [hdb]; rfl, ?_, hadded, ?_⟩
  · rw [hdb]
    cases hfinished with
    | unfinished hother hotherRun hstate => exact .unfinished hother hotherRun hstate
    | finished hall hdefinition houtputs =>
        refine .finished hall hdefinition ?_
        rw [← houtputs]
        apply collectOutputs_congr
        rfl
  · refine Db.changes_of_rows ?_ ?_ ?_ ?_ ?_ ?_ ?_
    · rw [hdb]
      simp [Effect.complete, Effect.finish, storeCompletion, Db.updateAttempt, Db.updateTask,
        Table.rows_update, hid]
    · rw [hdb]
      simp [Effect.complete, Effect.finish, storeCompletion, Db.updateAttempt, Db.updateTask,
        Table.rows_update]
    · rw [hruns]
      simp [Effect.complete, Effect.finish, storeCompletion, Db.updateAttempt,
        Db.updateTask]
    · rw [hdb]
      exact hartifacts
    · rw [hdb]
      rfl
    · rw [hdb]
      rfl
    · rw [hdb]
      exact huuids

/-- A task that had already succeeded is left alone; otherwise the attempt that
carries the token of the running task ends with it. -/
theorem completeTask_ok {result : TaskResult}
    (h : completeTask db now lease result = .ok db') :
    (∃ task, db.task? lease.runId lease.nodeId = some task ∧ task.state = .succeeded ∧
      db' = db) ∨
    ∃ task row stored outputIds update added,
      db.task? lease.runId lease.nodeId = some task ∧ task.state = .running ∧
      task.leaseToken = some lease.token ∧ db.Leased lease row ∧
      insertOutputs now row task.operation.definition.outputs result.outputs.rows db
        Table.empty = .ok (stored, outputIds) ∧
      missingOutputs task.operation.definition.outputs result = [] ∧
      unknownOutputs task.operation.definition.outputs result = [] ∧
      db'.artifacts = stored.artifacts ∧ db'.uuids = stored.uuids ∧
      FinishedRun db db'.tasks now lease.runId update ∧
      (∀ artifact ∈ added, artifact.attemptId = row.id) ∧
      db.Changes (.complete lease now outputIds result.log update added) db' := by
  unfold completeTask at h
  split at h
  · cases h
  · next task htask =>
      split at h
      · next hdone =>
          cases h
          exact .inl ⟨task, htask, hdone, rfl⟩
      · split at h
        · cases h
        · next hlease =>
            simp only [ne_eq, not_or, Decidable.not_not] at hlease
            split at h
            · cases h
            · next row hrow =>
                split at h
                · cases h
                · next hid =>
                    simp only [ne_eq, Decidable.not_not] at hid
                    have hleased := leased_of_leasedAttempt? hrow hid
                    simp only [ne_eq, ite_not] at h
                    split at h
                    · next hmissing =>
                        split at h
                        · next hunknown =>
                            simp only [bind, Except.bind] at h
                            split at h
                            · cases h
                            · next pair hpair =>
                                obtain ⟨stored, outputIds⟩ := pair
                                obtain ⟨update, added, hartifacts, huuids, hfinished, hadded,
                                  heffect⟩ := storeCompletion_finished htask hid
                                    (insertOutputs_core hpair) h
                                exact .inr ⟨task, row, stored, outputIds, update, added,
                                  htask, hlease.1, hlease.2, hleased, hpair, hmissing,
                                  hunknown, hartifacts, huuids, hfinished, hadded, heffect⟩
                        · cases h
                    · cases h

/-- A failure that comes too late changes nothing; otherwise the attempt that
carries the token of the running task fails with it and with the run. -/
theorem failTask_ok {error : Exn} (h : failTask db now lease error = .ok db') :
    db' = db ∨
    ∃ task row, db.task? lease.runId lease.nodeId = some task ∧ task.state = .running ∧
      task.leaseToken = some lease.token ∧ db.Leased lease row ∧
      db.Changes (.finish lease (Attempt.fail now (taskFailure error))
        (Task.fail now (taskFailure error)) (.forKey lease.runId (Run.finish .failed now)))
        db' := by
  unfold failTask at h
  split at h
  · cases h
  · next task htask =>
      split at h
      · cases h
        exact .inl rfl
      · next hlease =>
          simp only [ne_eq, not_or, Decidable.not_not] at hlease
          split at h
          · cases h
            exact .inl rfl
          · next row hrow =>
              split at h
              · cases h
                exact .inl rfl
              · next hid =>
                  simp only [ne_eq, Decidable.not_not] at hid
                  cases h
                  refine .inr ⟨task, row, htask, hlease.1, hlease.2,
                    leased_of_leasedAttempt? hrow hid,
                    Db.changes_of_rows ?_ ?_ ?_ (List.append_nil _).symm rfl rfl le_rfl⟩
                  · simp [Effect.finish, Db.updateAttempt, Db.updateTask, Db.updateRun,
                      Table.rows_update, hid]
                  · simp [Effect.finish, Db.updateAttempt, Db.updateTask, Db.updateRun,
                      Table.rows_update]
                  · simp [Effect.finish, Db.updateAttempt, Db.updateTask, Db.updateRun,
                      Table.rows_update]

end LeaseOperations

/-! ## The sweep -/

section Sweep

variable {db : Db} {now : Time}

/-- The row of the sweep for an attempt that is the current one of its task. -/
def Db.expiredAttempt? (db : Db) (now : Time) (attempt : Attempt) : Option ExpiredLease :=
  ((db.task? attempt.runId attempt.nodeId).bind (db.expiredLease? now)).filter fun row =>
    row.attempt.any fun current => current.id = attempt.id

/-- What the sweep does to an attempt. -/
def Db.sweepAttempt (db : Db) (now : Time) : RowUpdate Attempt where
  apply attempt :=
    match db.expiredAttempt? now attempt with
    | some row => (row.expiry.attemptUpdate now).apply attempt
    | none => attempt
  key_apply attempt := by
    split
    · exact (ExpiredLease.expiry _).attemptUpdate now |>.key_apply attempt
    · rfl

/-- What the sweep does to a task. -/
def Db.sweepTask (db : Db) (now : Time) : RowUpdate Task where
  apply task :=
    match db.expiredLease? now task with
    | some row => row.expiry.taskUpdate.apply task
    | none => task
  key_apply task := by
    split
    · exact (ExpiredLease.expiry _).taskUpdate.key_apply task
    · rfl

def Effect.sweep (db : Db) (now : Time) : Effect where
  attempt := db.sweepAttempt now
  task := db.sweepTask now

theorem numberedAttempt?_spec {runId : Uuid} {nodeId : String} {number : Nat}
    {attempt : Attempt} (h : db.numberedAttempt? runId nodeId number = some attempt) :
    attempt ∈ db.taskAttempts.rows ∧ attempt.runId = runId ∧ attempt.nodeId = nodeId ∧
      attempt.number = number := by
  have hmatch := List.find?_some h
  simp only [Bool.decide_and, Bool.and_eq_true, decide_eq_true_eq] at hmatch
  exact ⟨List.mem_of_find?_eq_some h, hmatch⟩

/-- The rows of the sweep, read off the task and its current attempt. -/
theorem expiredLease?_spec {task : Task} {row : ExpiredLease}
    (h : db.expiredLease? now task = some row) :
    ∃ run, db.run? task.runId = some run ∧ row.task = task ∧ row.runState = run.state ∧
      row.attempt = db.numberedAttempt? task.runId task.nodeId task.attempt ∧
      (task.state = .running ∨ ∃ attempt, row.attempt = some attempt ∧
        attempt.state = .cancelRequested) := by
  unfold Db.expiredLease? at h
  split at h
  · cases h
  · next run hrun =>
      simp only at h
      split at h
      · next hcond =>
          cases h
          refine ⟨run, hrun, rfl, rfl, rfl, ?_⟩
          simp only [Bool.and_eq_true, Bool.or_eq_true, decide_eq_true_eq,
            Option.any_eq_true_iff_get] at hcond
          rcases hcond.2 with hstate | ⟨hsome, hstate⟩
          · exact .inl hstate
          · exact .inr ⟨_, (Option.some_get hsome).symm, hstate⟩
      · cases h

/-- The attempt of an expired lease is the current one of its task. -/
theorem expiredAttempt?_spec {attempt : Attempt} {row : ExpiredLease}
    (hattempt : attempt ∈ db.taskAttempts.rows)
    (h : db.expiredAttempt? now attempt = some row) :
    row.attempt = some attempt ∧ ∃ task run,
      db.task? attempt.runId attempt.nodeId = some task ∧
      db.run? attempt.runId = some run ∧ row.runState = run.state ∧
      attempt.number = task.attempt ∧
      (task.state = .running ∨ attempt.state = .cancelRequested) := by
  obtain ⟨hbind, hsame⟩ := Option.filter_eq_some_iff.mp h
  obtain ⟨task, htask, hrow⟩ := Option.bind_eq_some_iff.mp hbind
  obtain ⟨run, hrun, -, hstate, hcurrent, hreason⟩ := expiredLease?_spec hrow
  cases hsome : row.attempt with
  | none => simp [hsome] at hsame
  | some current =>
      rw [hsome] at hcurrent hreason hsame
      obtain ⟨hmem, -, -, hnumber⟩ := numberedAttempt?_spec hcurrent.symm
      obtain rfl : current = attempt :=
        db.taskAttempts.eq_of_key_eq hmem hattempt (by simpa using hsame)
      rw [(Db.place_of_task? htask).1] at hrun
      refine ⟨rfl, task, run, htask, hrun, hstate, hnumber, ?_⟩
      rcases hreason with hrunning | ⟨other, hother, hrequested⟩
      · exact .inl hrunning
      · rw [← Option.some.inj hother] at hrequested
        exact .inr hrequested

theorem tasks_foldl_expireLease (rows : List ExpiredLease) (db : Db) :
    (rows.foldl (expireLease now) db).tasks =
      rows.foldl (fun tasks row => tasks.update (row.task.runId, row.task.nodeId)
        row.expiry.taskUpdate) db.tasks := by
  induction rows generalizing db with
  | nil => rfl
  | cons row rest ih =>
      rw [List.foldl_cons, ih, List.foldl_cons]
      congr 1
      unfold expireLease
      cases row.attempt with
      | none => rfl
      | some attempt =>
          cases hexp : row.expiry <;>
            simp [Expiry.appendEvent, Db.updateTask, Db.updateAttempt]

/-- The rows of the sweep that have an attempt, with it. -/
def expiredPairs (rows : List ExpiredLease) : List (ExpiredLease × Attempt) :=
  rows.filterMap fun row => row.attempt.map fun attempt => (row, attempt)

theorem taskAttempts_foldl_expireLease (rows : List ExpiredLease) (db : Db) :
    (rows.foldl (expireLease now) db).taskAttempts =
      (expiredPairs rows).foldl (fun attempts pair => attempts.update pair.2.id
        (pair.1.expiry.attemptUpdate now)) db.taskAttempts := by
  induction rows generalizing db with
  | nil => rfl
  | cons row rest ih =>
      rw [List.foldl_cons, ih]
      unfold expireLease
      cases hattempt : row.attempt with
      | none => simp [expiredPairs, hattempt, Db.updateTask]
      | some attempt =>
          cases hexp : row.expiry <;>
            simp [expiredPairs, hattempt, hexp, Expiry.appendEvent, Db.updateTask,
              Db.updateAttempt]

theorem others_foldl_expireLease (now : Time) (rows : List ExpiredLease) (db : Db) :
    let swept := rows.foldl (expireLease now) db
    swept.runs = db.runs ∧ swept.workflowVersions = db.workflowVersions ∧
      swept.artifacts = db.artifacts ∧ swept.inputArtifacts = db.inputArtifacts ∧
      swept.uuids = db.uuids := by
  induction rows generalizing db with
  | nil => exact ⟨rfl, rfl, rfl, rfl, rfl⟩
  | cons row rest ih =>
      obtain ⟨hruns, hworkflows, hartifacts, hinputs, huuids⟩ := ih (expireLease now db row)
      have hone : (expireLease now db row).runs = db.runs ∧
          (expireLease now db row).workflowVersions = db.workflowVersions ∧
          (expireLease now db row).artifacts = db.artifacts ∧
          (expireLease now db row).inputArtifacts = db.inputArtifacts ∧
          (expireLease now db row).uuids = db.uuids := by
        unfold expireLease
        cases row.attempt with
        | none => exact ⟨rfl, rfl, rfl, rfl, rfl⟩
        | some attempt => cases row.expiry <;> exact ⟨rfl, rfl, rfl, rfl, rfl⟩
      simp only [List.foldl_cons]
      exact ⟨hruns.trans hone.1, hworkflows.trans hone.2.1, hartifacts.trans hone.2.2.1,
        hinputs.trans hone.2.2.2.1, huuids.trans hone.2.2.2.2⟩

theorem tasks_resetExpiredLeases :
    (resetExpiredLeases db now).tasks.rows = db.tasks.rows.map (db.sweepTask now).apply := by
  have hkey : ∀ task ∈ db.tasks.rows, ∀ row, db.expiredLease? now task = some row →
      (row.task.runId, row.task.nodeId) = Keyed.key task := by
    intro task _ row hrow
    obtain ⟨_, _, htask, _⟩ := expiredLease?_spec hrow
    rw [htask]
    rfl
  rw [resetExpiredLeases, tasks_foldl_expireLease, Table.rows_foldl_update _ _ _
    ((Table.sublist_map_filterMap _ _ _ hkey).nodup db.tasks.nodup)]
  apply List.map_congr_left
  intro task htask
  rw [Table.find?_filterMap db.tasks _ _ hkey htask]
  cases hrow : db.expiredLease? now task <;> simp [Db.sweepTask, hrow]

/-- A task with its expired lease and current attempt. -/
def Db.expiredPair? (db : Db) (now : Time) (task : Task) : Option (ExpiredLease × Attempt) :=
  (db.expiredLease? now task).bind fun row => row.attempt.map fun attempt => (row, attempt)

theorem expiredPairs_eq : expiredPairs (db.tasks.rows.filterMap (db.expiredLease? now)) =
    db.tasks.rows.filterMap (db.expiredPair? now) := by
  rw [expiredPairs, List.filterMap_filterMap]
  rfl

theorem expiredPair?_spec {task : Task} {pair : ExpiredLease × Attempt}
    (h : db.expiredPair? now task = some pair) :
    db.expiredLease? now task = some pair.1 ∧ pair.1.attempt = some pair.2 ∧
      pair.2 ∈ db.taskAttempts.rows ∧ pair.2.runId = task.runId ∧
      pair.2.nodeId = task.nodeId ∧ pair.2.number = task.attempt := by
  obtain ⟨row, hrow, hpair⟩ := Option.bind_eq_some_iff.mp h
  obtain ⟨attempt, hattempt, rfl⟩ := Option.map_eq_some_iff.mp hpair
  obtain ⟨_, _, _, _, hcurrent, _⟩ := expiredLease?_spec hrow
  exact ⟨hrow, hattempt, numberedAttempt?_spec (hcurrent.symm.trans hattempt)⟩

theorem nodup_expiredPairs :
    ((db.tasks.rows.filterMap (db.expiredPair? now)).map fun pair => pair.2.id).Nodup := by
  have hplaces : ((db.tasks.rows.filterMap (db.expiredPair? now)).map fun pair =>
      (pair.2.runId, pair.2.nodeId)).Nodup := by
    refine (Table.sublist_map_filterMap _ _ _ ?_).nodup db.tasks.nodup
    intro task _ pair hpair
    obtain ⟨_, _, _, hrun, hnode, _⟩ := expiredPair?_spec hpair
    rw [hrun, hnode]
    rfl
  refine List.Nodup.map_on ?_ hplaces.of_map
  intro pair hpair other hother hid
  obtain ⟨_, _, hdraw⟩ := List.mem_filterMap.mp hpair
  obtain ⟨_, _, hdraw'⟩ := List.mem_filterMap.mp hother
  obtain ⟨_, _, hmem, _⟩ := expiredPair?_spec hdraw
  obtain ⟨_, _, hmem', _⟩ := expiredPair?_spec hdraw'
  apply List.inj_on_of_nodup_map hplaces hpair hother
  rw [db.taskAttempts.eq_of_key_eq hmem hmem' hid]

theorem taskAttempts_resetExpiredLeases :
    (resetExpiredLeases db now).taskAttempts.rows =
      db.taskAttempts.rows.map (db.sweepAttempt now).apply := by
  rw [resetExpiredLeases, taskAttempts_foldl_expireLease, expiredPairs_eq,
    Table.rows_foldl_update _ (fun pair : ExpiredLease × Attempt => pair.2.id) _
      nodup_expiredPairs]
  apply List.map_congr_left
  intro attempt hattempt
  simp only [Db.sweepAttempt]
  split
  · next pair hpair =>
      obtain ⟨task, htask, hdraw⟩ := List.mem_filterMap.mp (List.mem_of_find?_eq_some hpair)
      obtain ⟨hrow, hcurrent, hmem, hrun, hnode, _⟩ := expiredPair?_spec hdraw
      have hsame : pair.2 = attempt := by
        apply db.taskAttempts.eq_of_key_eq hmem hattempt
        simpa using List.find?_some hpair
      have htask? : db.task? attempt.runId attempt.nodeId = some task := by
        rw [← hsame, hrun, hnode]
        exact Table.row?_of_mem htask
      have hexpired : db.expiredAttempt? now attempt = some pair.1 := by
        simp [Db.expiredAttempt?, htask?, hrow, hcurrent, hsame, Option.filter]
      rw [hexpired]
  · next hnone =>
      have hexpired : db.expiredAttempt? now attempt = none := by
        rw [Option.eq_none_iff_forall_ne_some]
        intro row hrow
        obtain ⟨hbind, hcurrent⟩ := Option.filter_eq_some_iff.mp hrow
        obtain ⟨task, htask, hlease⟩ := Option.bind_eq_some_iff.mp hbind
        cases hsome : row.attempt with
        | none => simp [hsome] at hcurrent
        | some current =>
            rw [hsome] at hcurrent
            refine List.find?_eq_none.mp hnone (row, current) ?_ (by simpa using hcurrent)
            refine List.mem_filterMap.mpr ⟨task, Table.mem_of_row? htask, ?_⟩
            simp [Db.expiredPair?, hlease, hsome]
      rw [hexpired]

theorem resetExpiredLeases_changes (db : Db) (now : Time) :
    db.Changes (.sweep db now) (resetExpiredLeases db now) := by
  obtain ⟨hruns, hworkflows, hartifacts, hinputs, huuids⟩ :=
    others_foldl_expireLease now (db.tasks.rows.filterMap (db.expiredLease? now)) db
  refine Db.changes_of_rows ?_ ?_ ?_ ?_ hworkflows hinputs huuids.ge
  · rw [taskAttempts_resetExpiredLeases]
    simp [Effect.sweep]
  · rw [tasks_resetExpiredLeases]
    simp [Effect.sweep]
  · rw [resetExpiredLeases, hruns]
    simp [Effect.sweep]
  · rw [resetExpiredLeases, hartifacts]
    simp [Effect.sweep]

end Sweep

/-! ## Claims -/

/-- Take over an attempt under a new token. -/
def Effect.recover (attempt : Attempt) (workerId : String) (token : Uuid) (expires : Time) :
    Effect where
  attempt := .forKey attempt.id (Attempt.lease workerId token expires)
  task := .forKey (attempt.runId, attempt.nodeId) (Task.lease token expires)

/-- Start a task under a new attempt. -/
def Effect.start (task : Task) (workerId : String) (attemptId token : Uuid)
    (now expires : Time) : Effect where
  task := .forKey (task.runId, task.nodeId) (Task.start token expires now)
  run := .forKey task.runId (Run.start now)
  newAttempts := [freshAttempt attemptId token workerId now expires task]

section Claim

variable {db db' : Db} {now : Time} {workerId : String} {leaseSeconds : Int}
  {admission : Admission}

theorem join?_spec {attempt : Attempt} {row : JoinedAttempt}
    (h : db.join? attempt = some row) : row.attempt = attempt ∧
      db.task? attempt.runId attempt.nodeId = some row.task ∧
      db.run? row.task.runId = some row.run := by
  unfold Db.join? at h
  split at h
  · cases h
  · next task htask =>
      obtain ⟨run, hrun, rfl⟩ := Option.map_eq_some_iff.mp h
      exact ⟨rfl, htask, hrun⟩

theorem mem_recoverableAttempts {row : JoinedAttempt} :
    row ∈ db.recoverableAttempts ↔ row.attempt ∈ db.taskAttempts.rows ∧
      row.attempt.recoverable = true ∧ db.join? row.attempt = some row := by
  rw [Db.recoverableAttempts, (List.perm_insertionSort _ _).mem_iff, List.mem_filterMap]
  constructor
  · rintro ⟨attempt, hattempt, hjoin⟩
    obtain ⟨hmem, hrecoverable⟩ := List.mem_filter.mp hattempt
    rw [(join?_spec hjoin).1]
    exact ⟨hmem, hrecoverable, hjoin⟩
  · rintro ⟨hmem, hrecoverable, hjoin⟩
    exact ⟨row.attempt, List.mem_filter.mpr ⟨hmem, hrecoverable⟩, hjoin⟩

theorem mem_candidates {task : Task} {run : Run} :
    (task, run) ∈ db.candidates ↔ task ∈ db.tasks.rows ∧ db.run? task.runId = some run ∧
      task.state = .pending ∧ run.state.live = true := by
  rw [Db.candidates, (List.perm_insertionSort _ _).mem_iff, List.mem_filterMap]
  constructor
  · rintro ⟨found, hmem, hcandidate⟩
    unfold Db.candidate? at hcandidate
    split at hcandidate
    · cases hcandidate
    · next owner hrun =>
        split at hcandidate
        · next hready =>
            cases hcandidate
            exact ⟨hmem, hrun, hready⟩
        · cases hcandidate
  · rintro ⟨hmem, hrun, hpending, hlive⟩
    exact ⟨task, hmem, by simp [Db.candidate?, hrun, hpending, hlive]⟩

theorem parentsSucceeded_ok {runId : Uuid} {nodes : List String}
    (h : parentsSucceeded db runId nodes = .ok true) :
    ∀ node ∈ nodes, ∃ task, db.task? runId node = some task ∧ task.state = .succeeded := by
  induction nodes with
  | nil => simp
  | cons node rest ih =>
      simp only [parentsSucceeded] at h
      split at h
      · cases h
      · next task htask =>
          split at h
          · cases h
          · next hstate =>
              simp only [ne_eq, Decidable.not_not] at hstate
              intro other hother
              rcases List.mem_cons.mp hother with rfl | hother
              · exact ⟨task, htask, hstate⟩
              · exact ih h other hother

/-- A task that `claim_task` may start: pending in a live run, admitted, and
with parents that all succeeded. -/
structure Db.Ready (db : Db) (admission : Admission) (task : Task) : Prop where
  mem : task ∈ db.tasks.rows
  pending : task.state = .pending
  run : ∃ run, db.run? task.runId = some run ∧ run.state.live = true ∧
    admission.admits task run = true
  parents : ∃ definition, db.definition? task.runId = some definition ∧
    ∀ node ∈ parents definition task.nodeId, ∃ parent,
      db.task? task.runId node = some parent ∧ parent.state = .succeeded

theorem firstReady_ok {rows : List (Task × Run)} {task : Task}
    (hrows : ∀ row ∈ rows, row ∈ db.candidates)
    (h : firstReady db admission rows = .ok (some task)) : db.Ready admission task := by
  induction rows with
  | nil => cases h
  | cons row rest ih =>
      obtain ⟨found, run⟩ := row
      have hrest := ih fun other hother => hrows other (List.mem_cons_of_mem _ hother)
      simp only [firstReady] at h
      split at h
      · exact hrest h
      · next hadmits =>
          split at h
          · cases h
          · next definition hdefinition =>
              simp only [bind, Except.bind] at h
              split at h
              · cases h
              · next ready hready =>
                  split at h
                  · next htrue =>
                      cases h
                      subst htrue
                      obtain ⟨hmem, hrun, hpending, hlive⟩ :=
                        mem_candidates.mp (hrows (task, run) List.mem_cons_self)
                      exact ⟨hmem, hpending, ⟨run, hrun, hlive, by simpa using hadmits⟩,
                        ⟨definition, hdefinition, parentsSucceeded_ok hready⟩⟩
                  · exact hrest h

theorem leaseTask_ok {task : Task} {lease : TaskLease}
    (h : leaseTask db now workerId leaseSeconds task = .ok (lease, db')) :
    lease.runId = task.runId ∧ lease.nodeId = task.nodeId ∧
      lease.attemptId = db.uuids + 1 ∧ lease.token = db.uuids ∧
      lease.workerId = workerId ∧ lease.state = .leased ∧ lease.targetHandle = none ∧
      db'.uuids = db.uuids + 2 ∧
      db.Changes (.start task workerId (db.uuids + 1) db.uuids now
        (leaseExpiration now leaseSeconds)) db' := by
  simp only [leaseTask] at h
  split at h
  · cases h
  · next stored hstored =>
      cases h
      unfold Db.insertAttempt? at hstored
      split at hstored
      · cases hstored
      · obtain ⟨attempts, hattempts, rfl⟩ := Option.map_eq_some_iff.mp hstored
        refine ⟨rfl, rfl, rfl, rfl, rfl, rfl, rfl, rfl,
          Db.changes_of_rows ?_ ?_ ?_ (List.append_nil _).symm rfl rfl (Nat.le_add_right _ _)⟩
        · simpa [Effect.start, Db.updateTask, Db.updateRun] using
            Table.insert?_rows hattempts
        · simp [Effect.start, Db.updateTask, Db.updateRun, Table.rows_update]
        · simp [Effect.start, Db.updateTask, Db.updateRun, Table.rows_update]

theorem recoverAttempt_changes (db : Db) (now : Time) (workerId : String) (leaseSeconds : Int)
    (attempt : Attempt) :
    db.Changes (.recover attempt workerId db.uuids (leaseExpiration now leaseSeconds))
      (recoverAttempt db now workerId leaseSeconds attempt).2 := by
  refine Db.changes_of_rows ?_ ?_ ?_ (List.append_nil _).symm rfl rfl (Nat.le_succ _)
  · simp [recoverAttempt, Effect.recover, Db.updateTask, Db.updateAttempt, Table.rows_update]
  · simp [recoverAttempt, Effect.recover, Db.updateTask, Db.updateAttempt, Table.rows_update]
  · simp [recoverAttempt, Effect.recover, Db.updateTask, Db.updateAttempt]

/-- What `claim_task` does after its sweep. -/
inductive Db.Claims (db : Db) (now : Time) (workerId : String) (leaseSeconds : Int)
    (admission : Admission) : Option TaskLease → Db → Prop
  | idle : (∀ row ∈ db.recoverableAttempts, admission.admits row.task row.run = false) →
      firstReady db admission db.candidates = .ok none →
      Db.Claims db now workerId leaseSeconds admission none db
  | recovered {row : JoinedAttempt} :
      (db.recoverableAttempts.find? fun row => admission.admits row.task row.run) =
        some row →
      Db.Claims db now workerId leaseSeconds admission
        (some (recoverAttempt db now workerId leaseSeconds row.attempt).1)
        (recoverAttempt db now workerId leaseSeconds row.attempt).2
  | started {task : Task} {lease : TaskLease} {db' : Db} :
      (∀ row ∈ db.recoverableAttempts, admission.admits row.task row.run = false) →
      db.Ready admission task →
      leaseTask db now workerId leaseSeconds task = .ok (lease, db') →
      Db.Claims db now workerId leaseSeconds admission (some lease) db'

theorem claimTask_ok {claimed : Option TaskLease}
    (h : claimTask db now workerId leaseSeconds admission = .ok (claimed, db')) :
    (resetExpiredLeases db now).Claims now workerId leaseSeconds admission claimed db' := by
  unfold claimTask at h
  split at h
  · cases h
  · simp only at h
    split at h
    · next row hrow =>
        cases h
        exact .recovered hrow
    · next hnone =>
        have hrefused : ∀ row ∈ (resetExpiredLeases db now).recoverableAttempts,
            admission.admits row.task row.run = false := by
          intro row hrow
          simpa using List.find?_eq_none.mp hnone row hrow
        simp only [bind, Except.bind] at h
        split at h
        · cases h
        · next found hfound =>
            split at h
            · cases h
              exact .idle hrefused hfound
            · next task =>
                split at h
                · cases h
                · next pair hpair =>
                    cases h
                    exact .started hrefused (firstReady_ok (fun _ h => h) hfound) hpair

end Claim

/-! ## Operations of clients -/

def Effect.submit (run : Run) (tasks : List Task) : Effect where
  newRuns := [run]
  newTasks := tasks

/-- Cancel a run: its selected attempts, its unfinished tasks and itself. -/
def Effect.cancelRun (runId : Uuid) (now : Time) : Effect where
  attempt := .onlyIf (Attempt.selectedForCancel runId) Attempt.requestCancel
  task := .onlyIf (Task.unfinishedIn runId) (Task.cancel now)
  run := .forKey runId (Run.finish .canceled now)

/-- Reset tasks of a run and queue it again. -/
def Effect.retry (runId : Uuid) (nodes : List String) : Effect where
  task := .onlyIf (fun row => row.runId = runId && row.nodeId ∈ nodes) Task.retry
  run := .forKey runId Run.requeue

section Clients

variable {db db' : Db} {now : Time} {runId : Uuid}

/-- A workflow version is stored as it was resolved, and only when there was
none. -/
theorem registerWorkflow_ok {workflow : Workflow} {registry : Registry} {digest : String}
    (h : registerWorkflow db workflow registry digest = .ok db') :
    db.Changes .quiet db' := by
  simp only [registerWorkflow, bind, Except.bind] at h
  split at h
  · cases h
  · next resolved hresolved =>
      split at h
      · split at h
        · cases h
        · cases h
          exact Db.changes_quiet rfl rfl rfl rfl rfl rfl rfl
      · split at h
        · cases h
          exact Db.changes_quiet rfl rfl rfl rfl rfl rfl rfl
        · next rows hrows =>
            cases h
            have hrows := Table.insert?_rows hrows
            refine ⟨by simp [Effect.quiet], by simp [Effect.quiet], by simp [Effect.quiet],
              by simp [Effect.quiet], ?_, ?_, fun _ h => h, fun _ h => .inl h, le_rfl⟩
            · intro row hrow
              simp [hrows, hrow]
            · intro row hrow
              simp only [hrows, List.mem_append, List.mem_singleton] at hrow
              rcases hrow with hold | rfl
              · exact .inl hold
              · exact .inr ⟨registry, _, resolveWorkflow_stored hresolved, rfl, rfl, rfl⟩

theorem registerInputArtifact_ok {artifactType fileName uri checksum : String}
    {sizeBytes : Nat} {artifactId : Uuid}
    (h : registerInputArtifact db artifactType fileName uri checksum sizeBytes =
      .ok (artifactId, db')) :
    db.Changes .quiet db' ∧ artifactId = db.uuids ∧ db'.uuids = db.uuids + 1 ∧
      db'.inputArtifacts.rows = db.inputArtifacts.rows ++
        [⟨artifactId, artifactType, uri, checksum, sizeBytes⟩] := by
  unfold registerInputArtifact at h
  split at h
  · cases h
  · split at h
    · cases h
    · split at h
      · cases h
      · split at h
        · cases h
        · next records hrecords =>
            cases h
            have hrows := Table.insert?_rows hrecords
            refine ⟨⟨by simp [Effect.quiet], by simp [Effect.quiet], by simp [Effect.quiet],
              by simp [Effect.quiet], fun _ h => h, fun _ h => .inl h, ?_, ?_, Nat.le_succ _⟩,
              rfl, rfl, hrows⟩
            · intro record hrecord
              simp [hrows, hrecord]
            · intro record hrecord
              simp only [hrows, List.mem_append, List.mem_singleton] at hrecord
              rcases hrecord with hold | rfl
              · exact .inl hold
              · exact .inr le_rfl

/-- The task rows of a submission are those of the nodes, in order. -/
theorem insertTasks_ok {row : WorkflowRow} {executionTarget executionClass : String}
    {nodes : List (String × Nat)} {tasks tasks' : Table Task}
    (h : insertTasks runId row executionTarget executionClass nodes tasks = .ok tasks') :
    ∃ added, tasks'.rows = tasks.rows ++ added ∧
      added.map (fun task => (task.nodeId, task.sequence)) = nodes ∧
      ∀ task ∈ added, ∃ node item, row.definition.node? task.nodeId = some node ∧
        row.resolution.row? task.nodeId = some (task.nodeId, item) ∧
        task = newTask runId executionTarget executionClass task.sequence node item := by
  induction nodes generalizing tasks with
  | nil =>
      cases h
      exact ⟨[], by simp⟩
  | cons head rest ih =>
      obtain ⟨nodeId, sequence⟩ := head
      simp only [insertTasks] at h
      split at h
      · next name item node hitem hnode =>
          split at h
          · cases h
          · split at h
            · cases h
            · next stored hstored =>
                obtain ⟨added, hrows, hnodes, hadded⟩ := ih h
                have hname : name = nodeId := Table.key_of_row? hitem
                have hid : node.id = nodeId := by
                  simpa using List.find?_some hnode
                subst hname
                refine ⟨newTask runId executionTarget executionClass sequence node item ::
                  added, ?_, ?_, ?_⟩
                · rw [hrows, Table.insert?_rows hstored]
                  simp
                · simp [hnodes, newTask, hid]
                · intro task htask
                  rcases List.mem_cons.mp htask with rfl | htask
                  · refine ⟨node, item, ?_, ?_, rfl⟩
                    · simpa [newTask, hid] using hnode
                    · simpa [newTask, hid] using hitem
                  · exact hadded task htask
      · cases h

theorem checkSubmission_ok {definition : Workflow} {registry : Option Registry}
    {inputs : ArtifactIds} (h : checkSubmission db definition registry inputs = .ok ()) :
    checkInputs db definition.inputs inputs.rows = .ok () := by
  simp only [checkSubmission, bind, Except.bind] at h
  split at h
  · cases h
  · simp only [ne_eq, ite_not] at h
    split at h
    · split at h
      · exact h
      · cases h
    · cases h

theorem submitRun_ok {workflowId version executionTarget : String}
    {registry : Option Registry} {inputs : ArtifactIds} {executionClass : Option String}
    (h : submitRun db now workflowId version registry inputs executionTarget
      executionClass = .ok (runId, db')) :
    ∃ row tasks, db.workflowVersions.row? (workflowId, version) = some row ∧
      runId = db.uuids ∧ db'.uuids = db.uuids + 1 ∧
      checkInputs db row.definition.inputs inputs.rows = .ok () ∧
      tasks.map (fun task => (task.nodeId, task.sequence)) =
        (topologicalNodes row.definition).zipIdx ∧
      (∀ task ∈ tasks, ∃ node item, row.definition.node? task.nodeId = some node ∧
        row.resolution.row? task.nodeId = some (task.nodeId, item) ∧
        task = newTask runId executionTarget
          (defaultExecutionClass executionTarget executionClass) task.sequence node item) ∧
      db.Changes (.submit (newRun runId row executionTarget now inputs) tasks) db' := by
  unfold submitRun at h
  split at h
  · cases h
  · next row hrow =>
      simp only [bind, Except.bind] at h
      split at h
      · cases h
      · next hchecked =>
          split at h
          · cases h
          · next runs hruns =>
              split at h
              · cases h
              · next tasks htasks =>
                  cases h
                  obtain ⟨added, hrows, hnodes, hadded⟩ := insertTasks_ok htasks
                  refine ⟨row, added, hrow, rfl, rfl,
                    checkSubmission_ok hchecked, hnodes, hadded,
                    Db.changes_of_rows ?_ ?_ ?_ (List.append_nil _).symm rfl rfl (Nat.le_succ _)⟩
                  · simp [Effect.submit]
                  · simpa [Effect.submit] using hrows
                  · simpa [Effect.submit] using Table.insert?_rows hruns

theorem foldl_cancelAttempt (now : Time) (attempts : List Attempt) (db : Db) :
    ∃ events, attempts.foldl (cancelAttempt now) db = { db with
      taskAttempts := attempts.foldl (fun rows attempt =>
        rows.update (Keyed.key attempt) Attempt.requestCancel) db.taskAttempts
      executionEvents := events } := by
  induction attempts generalizing db with
  | nil => exact ⟨db.executionEvents, rfl⟩
  | cons attempt rest ih =>
      obtain ⟨events, hevents⟩ := ih (cancelAttempt now db attempt)
      refine ⟨events, ?_⟩
      rw [List.foldl_cons, hevents, List.foldl_cons]
      unfold cancelAttempt
      cases attempt.targetHandle <;> rfl

theorem cancelRun_ok (h : cancelRun db now runId = .ok db') :
    ∃ run, db.run? runId = some run ∧
      (run.state.terminal = true ∧ db' = db ∨
        run.state.terminal = false ∧ db.Changes (.cancelRun runId now) db') := by
  unfold cancelRun at h
  split at h
  · cases h
  · next run hrun =>
      refine ⟨run, hrun, ?_⟩
      split at h
      · next hterminal =>
          cases h
          exact .inl ⟨hterminal, rfl⟩
      · next hlive =>
          cases h
          obtain ⟨events, hevents⟩ := foldl_cancelAttempt now
            (db.taskAttempts.rows.filter (Attempt.selectedForCancel runId)) db
          rw [hevents]
          refine .inr ⟨by simpa using hlive,
            Db.changes_of_rows ?_ ?_ ?_ (List.append_nil _).symm rfl rfl le_rfl⟩
          · simpa [Effect.cancelRun, Db.updateTasksWhere, Db.updateRun] using
              Table.rows_foldl_update_filter db.taskAttempts
                (Attempt.selectedForCancel runId) Attempt.requestCancel
          · simp [Effect.cancelRun, Db.updateTasksWhere, Db.updateRun,
              Table.rows_updateWhere]
          · simp [Effect.cancelRun, Db.updateTasksWhere, Db.updateRun, Table.rows_update]

theorem appendRetryEvents_core {nodes : List String}
    (h : appendRetryEvents now runId nodes db = .ok db') :
    (∃ events, db' = { db with executionEvents := events }) ∧
      ∀ node ∈ nodes, ∃ task, db.task? runId node = some task := by
  induction nodes generalizing db with
  | nil =>
      cases h
      exact ⟨⟨db'.executionEvents, rfl⟩, by simp⟩
  | cons node rest ih =>
      simp only [appendRetryEvents] at h
      split at h
      · cases h
      · next task htask =>
          obtain ⟨⟨events, rfl⟩, hrest⟩ := ih h
          refine ⟨⟨events, rfl⟩, fun other hother => ?_⟩
          rcases List.mem_cons.mp hother with rfl | hother
          · exact ⟨task, htask⟩
          · exact hrest other hother

theorem retryTask_ok {nodeId : String} (h : retryTask db now runId nodeId = .ok db') :
    ∃ run definition, db.run? runId = some run ∧ db.definition? runId = some definition ∧
      (∀ node ∈ descendants definition nodeId, ∃ task, db.task? runId node = some task) ∧
      db.Changes (.retry runId (descendants definition nodeId)) db' := by
  unfold retryTask at h
  split at h
  · cases h
  · next run hrun =>
      split at h
      · cases h
      · next definition hdefinition =>
          simp only [bind, Except.bind] at h
          split at h
          · cases h
          · next stored hstored =>
              cases h
              obtain ⟨⟨events, rfl⟩, hnodes⟩ := appendRetryEvents_core hstored
              refine ⟨run, definition, hrun, hdefinition, fun node hnode => ?_,
                Db.changes_of_rows ?_ ?_ ?_ (List.append_nil _).symm rfl rfl le_rfl⟩
              · obtain ⟨task, htask⟩ := hnodes node ((sortedStrings_perm _).mem_iff.mpr hnode)
                simp only [Db.task?, Db.updateTasksWhere, Table.row?_updateWhere] at htask
                obtain ⟨old, hold, -⟩ := Option.map_eq_some_iff.mp htask
                exact ⟨old, hold⟩
              · simp [Effect.retry, Db.updateTasksWhere, Db.updateRun]
              · simp [Effect.retry, Db.updateTasksWhere, Db.updateRun, Table.rows_updateWhere]
              · simp [Effect.retry, Db.updateTasksWhere, Db.updateRun, Table.rows_update]

end Clients

end QhpcEcosystem
