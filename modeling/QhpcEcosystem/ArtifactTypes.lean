/-
Types of artifacts.  The checks of validation, resolution, submission and
completion together type every artifact: what a task is given on a port has the
type that its operation declares for the port, and so has what it records.
-/
import QhpcEcosystem.EngineInvariants

namespace QhpcEcosystem

/-! ## The typing of a state -/

/-- The task carries the operation that its node was resolved to. -/
def Db.TaskResolved (db : Db) (task : Task) : Prop :=
  ∀ run, db.run? task.runId = some run → ∀ row,
    db.workflowVersions.row? (run.workflowId, run.workflowVersion) = some row →
    ∃ item, row.resolution.row? task.nodeId = some (task.nodeId, item) ∧
      task.operation.definition = item.operation

/-- Every recorded output is an artifact of the task, under its port, of the type
that the operation declares. -/
def Db.TaskTyped (db : Db) (task : Task) : Prop :=
  ∀ item ∈ task.outputs.rows, ∃ artifact port, db.artifacts.row? item.2 = some artifact ∧
    artifact.runId = task.runId ∧ artifact.taskId = task.nodeId ∧ artifact.port = item.1 ∧
    task.operation.definition.outputs.row? item.1 = some (item.1, port) ∧
    artifact.record.artifactType = port.artifactType

/-- Every input of the run is an artifact of the type that the workflow
declares. -/
def Db.RunTyped (db : Db) (run : Run) : Prop :=
  ∀ definition, db.definition? run.id = some definition → ∀ item ∈ run.inputs.rows,
    ∃ record input, getArtifact db item.2 = .ok record ∧
      definition.inputs.row? item.1 = some (item.1, input) ∧
      record.artifactType = input.artifactType

/-- Every artifact that a row of the state refers to has its type. -/
structure Db.Typed (db : Db) : Prop where
  drawn : ∀ artifact ∈ db.artifacts.rows, artifact.record.id < db.uuids
  resolved : ∀ task ∈ db.tasks.rows, db.TaskResolved task
  tasks : ∀ task ∈ db.tasks.rows, db.TaskTyped task
  runs : ∀ run ∈ db.runs.rows, db.RunTyped run

/-- The update keeps the outputs or drops them all. -/
def Task.KeepsOutputs (f : RowUpdate Task) : Prop :=
  ∀ row, (f.apply row).outputs = row.outputs ∨ (f.apply row).outputs = Table.empty

theorem Task.keepsOutputs_keep : Task.KeepsOutputs .keep := fun _ => .inl rfl

theorem Task.keepsOutputs_onlyIf {f : RowUpdate Task} (hf : Task.KeepsOutputs f)
    (p : Task → Bool) : Task.KeepsOutputs (.onlyIf p f) := by
  intro row
  rw [RowUpdate.onlyIf_apply]
  split
  · exact hf row
  · exact .inl rfl

theorem Task.keepsOutputs_sweep (db : Db) (now : Time) :
    Task.KeepsOutputs (db.sweepTask now) := by
  intro row
  simp only [Db.sweepTask]
  split
  · next expired _ => cases expired.expiry <;> exact .inl rfl
  · exact .inl rfl

section Frame

variable {db db' : Db} {e : Effect}

theorem Db.Changes.artifact?_some (hchanges : db.Changes e db') {artifactId : Uuid}
    {artifact : Artifact} (hfound : db.artifacts.row? artifactId = some artifact) :
    db'.artifacts.row? artifactId = some artifact := by
  rw [Table.row?_eq_some_iff] at hfound ⊢
  refine ⟨?_, hfound.2⟩
  rw [hchanges.artifacts]
  exact List.mem_append_left _ hfound.1

/-- A found artifact is found later: no input artifact takes its identifier. -/
theorem Db.Changes.getArtifact_ok (hchanges : db.Changes e db')
    (hdrawn : ∀ artifact ∈ db.artifacts.rows, artifact.record.id < db.uuids)
    {artifactId : Uuid} {record : ArtifactRecord}
    (hfound : getArtifact db artifactId = .ok record) :
    getArtifact db' artifactId = .ok record := by
  unfold getArtifact at hfound
  split at hfound
  · next found hinput =>
      cases hfound
      have hinput' : db'.inputArtifacts.row? artifactId = some record := by
        rw [Table.row?_eq_some_iff] at hinput ⊢
        exact ⟨hchanges.inputArtifacts hinput.1, hinput.2⟩
      simp [getArtifact, hinput']
  · next hnone =>
      split at hfound
      · next artifact hartifact =>
          cases hfound
          have hid : artifact.record.id = artifactId := Table.key_of_row? hartifact
          have hnone' : db'.inputArtifacts.row? artifactId = none := by
            rw [Table.row?_eq_none_iff] at hnone ⊢
            intro other hother hkey
            rcases hchanges.newInputs other hother with hold | hnew
            · exact hnone other hold hkey
            · have hlow := hdrawn artifact (Table.mem_of_row? hartifact)
              have hkey : other.id = artifactId := hkey
              rw [hid, ← hkey] at hlow
              exact absurd hnew (Nat.not_le.mpr hlow)
          simp [getArtifact, hnone', hchanges.artifact?_some hartifact]
      · cases hfound

end Frame

/-- The inputs of an accepted submission have the declared types. -/
theorem checkInputs_ok {db : Db} {declared : Dict String WorkflowInput}
    {inputs : List (String × Uuid)} (h : checkInputs db declared inputs = .ok ()) :
    ∀ item ∈ inputs, ∃ record input, getArtifact db item.2 = .ok record ∧
      declared.row? item.1 = some (item.1, input) ∧
      record.artifactType = input.artifactType := by
  induction inputs with
  | nil => simp
  | cons item rest ih =>
      obtain ⟨name, artifactId⟩ := item
      simp only [checkInputs, bind, Except.bind] at h
      split at h
      · cases h
      · next record hrecord =>
          split at h
          · cases h
          · next found input hinput =>
              have hname : found = name := Table.key_of_row? hinput
              subst hname
              split at h
              · cases h
              · next htype =>
                  intro other hother
                  rcases List.mem_cons.mp hother with rfl | hother
                  · exact ⟨record, input, hrecord, hinput, by simpa using htype⟩
                  · exact ih h other hother

theorem Db.typed_empty : ({} : Db).Typed :=
  ⟨fun _ hartifact => (by cases hartifact), fun _ htask => (by cases htask),
    fun _ htask => (by cases htask), fun _ hrun => (by cases hrun)⟩

theorem Db.TaskTyped.of_empty {db : Db} {task : Task} (h : task.outputs = Table.empty) :
    db.TaskTyped task := by
  intro item hitem
  rw [h] at hitem
  cases hitem

namespace Db.Typed

variable {db db' : Db} (h : db.Typed)

include h

/-- Old rows stay typed, so a step owes the typing of what it adds. -/
theorem rewrite (hintegrity : db.Integrity) {e : Effect} (hchanges : db.Changes e db')
    (hkeeps : e.Keeps) (hartifacts : ∀ artifact ∈ e.newArtifacts, artifact.record.id < db'.uuids)
    (hnewTasks : ∀ task ∈ e.newTasks, db'.TaskResolved task ∧ db'.TaskTyped task)
    (hnewRuns : ∀ run ∈ e.newRuns, db'.RunTyped run)
    (htasks : ∀ task ∈ db.tasks.rows, (e.task.apply task).outputs = task.outputs ∨
      db'.TaskTyped (e.task.apply task)) : db'.Typed where
  drawn artifact hartifact := by
    rw [hchanges.artifacts, List.mem_append] at hartifact
    rcases hartifact with hold | hnew
    · exact (h.drawn artifact hold).trans_le hchanges.uuids
    · exact hartifacts artifact hnew
  resolved task htask := by
    obtain ⟨old, hold, rfl⟩ | hadded := hchanges.mem_tasks.mp htask
    · intro run' hrun' row hrow
      obtain ⟨run, hrun⟩ := hintegrity.taskRun old hold
      rw [Task.apply_runId, hchanges.run?_some hrun] at hrun'
      obtain rfl := Option.some.inj hrun'
      obtain ⟨hid, hversion, -⟩ := hkeeps.run run
      obtain ⟨found, hfound⟩ := hintegrity.runWorkflow run (Table.mem_of_row? hrun)
      rw [hid, hversion, hchanges.version?_some hfound] at hrow
      obtain rfl := Option.some.inj hrow
      rw [Task.apply_nodeId, (hkeeps.task old).1]
      exact h.resolved old hold run hrun found hfound
    · exact (hnewTasks task hadded).1
  tasks task htask := by
    obtain ⟨old, hold, rfl⟩ | hadded := hchanges.mem_tasks.mp htask
    · rcases htasks old hold with hsame | htyped
      · intro item hitem
        rw [hsame] at hitem
        obtain ⟨artifact, port, hfound, hrest⟩ := h.tasks old hold item hitem
        refine ⟨artifact, port, hchanges.artifact?_some hfound, ?_⟩
        rw [Task.apply_runId, Task.apply_nodeId, (hkeeps.task old).1]
        exact hrest
      · exact htyped
    · exact (hnewTasks task hadded).2
  runs run hrun := by
    obtain ⟨old, hold, rfl⟩ | hadded := hchanges.mem_runs.mp hrun
    · intro definition hdefinition item hitem
      rw [Run.apply_id] at hdefinition
      obtain ⟨-, -, -, -, hinputs⟩ := hkeeps.run old
      rw [hinputs] at hitem
      have hdefinition := hintegrity.definition?_old hchanges hkeeps.run
        (Table.row?_of_mem hold) hdefinition
      obtain ⟨record, input, hrecord, hrest⟩ := h.runs old hold definition hdefinition item hitem
      exact ⟨record, input, hchanges.getArtifact_ok h.drawn hrecord, hrest⟩
    · exact hnewRuns run hadded

/-- A step that adds no task, run or artifact and keeps the outputs. -/
theorem steady (hintegrity : db.Integrity) {e : Effect} (hchanges : db.Changes e db')
    (hkeeps : e.Keeps) (hartifacts : e.newArtifacts = []) (hnewTasks : e.newTasks = [])
    (hnewRuns : e.newRuns = []) (htasks : Task.KeepsOutputs e.task) : db'.Typed :=
  h.rewrite hintegrity hchanges hkeeps (by simp [hartifacts]) (by simp [hnewTasks])
    (by simp [hnewRuns]) fun task _ => (htasks task).imp_right fun hempty => .of_empty hempty

theorem submit (hintegrity : db.Integrity) {row : WorkflowRow} {run : Run} {tasks : List Task}
    {now : Time} (hsubmits : db.Submits now row run tasks)
    (hchanges : db.Changes (.submit run tasks) db') : db'.Typed := by
  obtain ⟨executionTarget, inputs, heq⟩ := hsubmits.run_eq
  have hversion : db'.workflowVersions.row? (run.workflowId, run.workflowVersion) = some row := by
    rw [heq]
    exact hchanges.version?_some hsubmits.stored
  have hrun : db'.run? run.id = some run :=
    Table.row?_of_mem (hchanges.mem_runs.mpr (.inr List.mem_cons_self))
  refine h.rewrite hintegrity hchanges (Effect.keeps_submit _ _) (by simp [Effect.submit])
    (fun task htask => ?_) (fun added hadded => ?_) fun _ _ => .inl rfl
  · obtain ⟨_, _, node, item, -, hitem, htaskEq⟩ := hsubmits.tasks_eq task htask
    have hrunId := (hsubmits.pending task htask).1
    refine ⟨fun run' hrun' row' hrow' => ?_, .of_empty (by rw [htaskEq]; rfl)⟩
    rw [hrunId, hrun] at hrun'
    obtain rfl := Option.some.inj hrun'
    rw [hversion] at hrow'
    obtain rfl := Option.some.inj hrow'
    exact ⟨item, hitem, by rw [htaskEq]; rfl⟩
  · obtain rfl := List.mem_singleton.mp hadded
    intro definition hdefinition item hitem
    obtain ⟨run', row', hrun', hrow', rfl⟩ := Db.definition?_eq_some.mp hdefinition
    rw [hrun] at hrun'
    obtain rfl := Option.some.inj hrun'
    rw [hversion] at hrow'
    obtain rfl := Option.some.inj hrow'
    obtain ⟨record, input, hrecord, hinput, htype⟩ :=
      checkInputs_ok hsubmits.inputs item hitem
    exact ⟨record, input, hchanges.getArtifact_ok h.drawn hrecord, hinput, htype⟩

/-- A completion records artifacts of the declared types. -/
theorem complete (hintegrity : db.Integrity) {lease : TaskLease} {result : TaskResult}
    {task : Task} {row : Attempt} {stored : Db} {outputIds : ArtifactIds}
    {update : RowUpdate Run} {added : List Artifact} {now : Time}
    (htask : db.task? lease.runId lease.nodeId = some task) (hleased : db.Leased lease row)
    (hinsert : insertOutputs now row task.operation.definition.outputs result.outputs.rows db
      Table.empty = .ok (stored, outputIds))
    (hartifacts : db'.artifacts = stored.artifacts) (huuids : db'.uuids = stored.uuids)
    (hkeeps : Run.Keeps update)
    (hchanges : db.Changes (.complete lease now outputIds result.log update added) db') :
    db'.Typed := by
  obtain ⟨-, stored', hrows, hids, hitems, hframe⟩ :=
    insertOutputs_spec result.outputs.nodup hinsert
  have hadded : added = stored' := by
    have hboth := hchanges.artifacts
    rw [hartifacts, hrows] at hboth
    exact (List.append_cancel_left hboth).symm
  refine h.rewrite hintegrity hchanges (Effect.keeps_complete hkeeps _) (fun artifact hnew => ?_)
    (by simp [Effect.complete, Effect.finish]) (by simp [Effect.complete, Effect.finish])
    fun other hother => ?_
  · rw [huuids]
    exact (hids artifact (hadded ▸ hnew)).2
  · simp only [Effect.complete, Effect.finish, RowUpdate.forKey_apply]
    split
    · next hkey =>
        obtain rfl : other = task := db.tasks.eq_of_key_eq hother (Table.mem_of_row? htask)
          (hkey.trans (Table.key_of_row? htask).symm)
        obtain ⟨htaskRun, htaskNode⟩ := Db.place_of_task? htask
        refine .inr fun item hitem => ?_
        have hfound : outputIds.row? item.1 = some item := Table.row?_of_mem hitem
        have hport : item.1 ∈ result.outputs.rows.map Prod.fst := by
          by_contra hunknown
          rw [hframe item.1 hunknown] at hfound
          cases hfound
        obtain ⟨output, houtput, hname⟩ := List.mem_map.mp hport
        obtain ⟨artifact, hartifact, heq, hid, definition, hdeclared, htype⟩ :=
          hitems output.1 output.2 houtput
        rw [hname] at heq hid hdeclared
        have hsame := Option.some.inj (hid.symm.trans hfound)
        refine ⟨artifact, definition, ?_, ?_, ?_, ?_, hdeclared, ?_⟩
        · have hmem : artifact ∈ db'.artifacts.rows := by
            have hnew : (Effect.complete lease now outputIds result.log update added).newArtifacts =
                stored' := hadded
            rw [hchanges.artifacts, hnew]
            exact List.mem_append_right _ hartifact
          rw [← hsame]
          exact Table.row?_of_mem hmem
        · rw [heq]
          exact hleased.runId.trans (htaskRun.symm.trans (Task.apply_runId _ _).symm)
        · rw [heq]
          exact hleased.nodeId.trans (htaskNode.symm.trans (Task.apply_nodeId _ _).symm)
        · rw [heq]
          rfl
        · rw [heq]
          exact htype
    · exact .inl rfl

theorem claims (hintegrity : db.Integrity) {now : Time} {workerId : String}
    {leaseSeconds : Int} {admission : Admission} {claimed : Option TaskLease}
    (hclaims : db.Claims now workerId leaseSeconds admission claimed db') : db'.Typed := by
  cases hclaims with
  | idle _ _ => exact h
  | @recovered row _ =>
      exact h.steady hintegrity (recoverAttempt_changes _ _ _ _ row.attempt)
        (Effect.keeps_recover _ _ _ _) rfl rfl rfl
        (Task.keepsOutputs_onlyIf (fun _ => .inl rfl) _)
  | @started started _ _ _ _ hlease =>
      obtain ⟨-, -, -, -, -, -, -, -, hchanges⟩ := leaseTask_ok hlease
      exact h.steady hintegrity hchanges (Effect.keeps_start _ _ _ _ _ _) rfl rfl rfl
        (Task.keepsOutputs_onlyIf (fun _ => .inl rfl) _)

/-- Every operation keeps the typing. -/
theorem step (hintegrity : db.Integrity) {now : Time} {operation : Operation}
    (hstep : db.Transition now operation db') : db'.Typed := by
  cases hstep with
  | quiet hchanges =>
      exact h.steady hintegrity hchanges Effect.keeps_quiet rfl rfl rfl Task.keepsOutputs_keep
  | submitted hsubmits _ hchanges => exact h.submit hintegrity hsubmits hchanges
  | claimed hclaims =>
      have hswept := h.steady hintegrity (resetExpiredLeases_changes db now)
        (Effect.keeps_sweep db now) rfl rfl rfl (Task.keepsOutputs_sweep db now)
      exact hswept.claims (hintegrity.sweep now) hclaims
  | renewed _ hchanges =>
      exact h.steady hintegrity hchanges (Effect.keeps_ofToken (fun _ => ⟨rfl, rfl, rfl, rfl⟩)
        (fun _ => ⟨rfl, rfl, le_rfl⟩) _) rfl rfl rfl
        (Task.keepsOutputs_onlyIf (fun _ => .inl rfl) _)
  | marked _ _ hchanges =>
      exact h.steady hintegrity hchanges (Effect.keeps_ofLease (fun _ => ⟨rfl, rfl, rfl, rfl⟩) _)
        rfl rfl rfl Task.keepsOutputs_keep
  | recorded _ _ hchanges =>
      exact h.steady hintegrity hchanges (Effect.keeps_ofLease (fun _ => ⟨rfl, rfl, rfl, rfl⟩) _)
        rfl rfl rfl Task.keepsOutputs_keep
  | observed _ _ hchanges =>
      exact h.steady hintegrity hchanges (Effect.keeps_ofLease (fun _ => ⟨rfl, rfl, rfl, rfl⟩) _)
        rfl rfl rfl Task.keepsOutputs_keep
  | released _ hchanges =>
      exact h.steady hintegrity hchanges (Effect.keeps_ofToken (fun _ => ⟨rfl, rfl, rfl, rfl⟩)
        (fun _ => ⟨rfl, rfl, le_rfl⟩) _) rfl rfl rfl
        (Task.keepsOutputs_onlyIf (fun _ => .inl rfl) _)
  | markedCanceled _ hchanges =>
      exact h.steady hintegrity hchanges (Effect.keeps_finish (fun _ => ⟨rfl, rfl, rfl, rfl⟩)
        (fun _ => ⟨rfl, rfl, le_rfl⟩) Run.keeps_keep _) rfl rfl rfl
        (Task.keepsOutputs_onlyIf (fun _ => .inl rfl) _)
  | completed htask _ _ hleased hinsert _ hartifacts huuids hfinished _ hchanges =>
      exact h.complete hintegrity htask hleased hinsert hartifacts huuids hfinished.keeps hchanges
  | failed _ _ _ _ hchanges =>
      exact h.steady hintegrity hchanges (Effect.keeps_finish (fun _ => ⟨rfl, rfl, rfl, rfl⟩)
        (fun _ => ⟨rfl, rfl, le_rfl⟩)
        (Run.keeps_onlyIf (fun _ => ⟨rfl, rfl, rfl, rfl, rfl⟩) _) _) rfl rfl rfl
        (Task.keepsOutputs_onlyIf (fun _ => .inl rfl) _)
  | runCanceled _ _ hchanges =>
      exact h.steady hintegrity hchanges (Effect.keeps_cancelRun _ _) rfl rfl rfl
        (Task.keepsOutputs_onlyIf (fun _ => .inl rfl) _)
  | retried _ _ _ hchanges =>
      exact h.steady hintegrity hchanges (Effect.keeps_retry _ _) rfl rfl rfl
        (Task.keepsOutputs_onlyIf (fun _ => .inr rfl) _)

end Db.Typed

theorem engine_typed {guard : Db → Operation × Time → Prop} {db : Db}
    (hreach : engine.Reachable guard db) : db.Typed :=
  engine_invariant Db.typed_empty
    (fun _ _ _ _ hreach h _ hstep => h.step (engine_integrity hreach) hstep) hreach

/-! ## What a request passes on -/

section Requests

variable {db : Db} {P : String → ArtifactRecord → Prop}

/-- A property of every artifact that the loop over the workflow inputs stores. -/
theorem runInputArtifacts_all {run : Run} {nodeId : String}
    {declared : List (String × WorkflowInput)} {inputs inputs' : Dict String ArtifactRecord}
    (hitems : ∀ item ∈ declared, item.2.target.node = nodeId → ∀ name artifactId record,
      run.inputs.row? item.1 = some (name, artifactId) → getArtifact db artifactId = .ok record →
      P item.2.target.port record)
    (hinputs : ∀ port record, inputs.row? port = some (port, record) → P port record)
    (h : runInputArtifacts db run nodeId declared inputs = .ok inputs') :
    ∀ port record, inputs'.row? port = some (port, record) → P port record := by
  induction declared generalizing inputs with
  | nil =>
      cases h
      exact hinputs
  | cons item rest ih =>
      obtain ⟨name, input⟩ := item
      have hrest := fun other hother => hitems other (List.mem_cons_of_mem _ hother)
      simp only [runInputArtifacts] at h
      split at h
      · next hnode =>
          split at h
          · exact ih hrest hinputs h
          · next found artifactId hfound =>
              simp only [bind, Except.bind] at h
              split at h
              · cases h
              · next record hrecord =>
                  refine ih hrest (fun port other hother => ?_) h
                  rw [Table.row?_set] at hother
                  split at hother
                  · next hport =>
                      have hport : input.target.port = port := hport
                      obtain ⟨-, rfl⟩ := Prod.mk.inj (Option.some.inj hother)
                      rw [← hport]
                      exact hitems _ List.mem_cons_self hnode found artifactId record hfound
                        hrecord
                  · exact hinputs port other hother
      · exact ih hrest hinputs h

/-- A property of every artifact that the loop over the edges stores. -/
theorem edgeArtifacts_all {runId : Uuid} {nodeId : String} {edges : List Edge}
    {inputs inputs' : Dict String ArtifactRecord}
    (hedges : ∀ edge ∈ edges, edge.target.node = nodeId → ∀ parent name artifactId artifact,
      db.task? runId edge.source.node = some parent →
      parent.outputs.row? edge.source.port = some (name, artifactId) →
      db.artifacts.row? artifactId = some artifact → P edge.target.port artifact.record)
    (hinputs : ∀ port record, inputs.row? port = some (port, record) → P port record)
    (h : edgeArtifacts db runId nodeId edges inputs = .ok inputs') :
    ∀ port record, inputs'.row? port = some (port, record) → P port record := by
  induction edges generalizing inputs with
  | nil =>
      cases h
      exact hinputs
  | cons edge rest ih =>
      have hrest := fun other hother => hedges other (List.mem_cons_of_mem _ hother)
      simp only [edgeArtifacts] at h
      split at h
      · next hnode =>
          split at h
          · cases h
          · next parent hparent =>
              split at h
              · cases h
              · next name artifactId hport =>
                  split at h
                  · cases h
                  · next artifact hartifact =>
                      refine ih hrest (fun port other hother => ?_) h
                      rw [Table.row?_set] at hother
                      split at hother
                      · next htarget =>
                          have htarget : edge.target.port = port := htarget
                          obtain ⟨-, rfl⟩ := Prod.mk.inj (Option.some.inj hother)
                          rw [← htarget]
                          exact hedges edge List.mem_cons_self hnode parent name artifactId
                            artifact hparent hport hartifact
                      · exact hinputs port other hother
      · exact ih hrest hinputs h

end Requests

section Resolved

variable {db : Db} {task : Task} {run : Run} {row : WorkflowRow}
  (hresolved : db.TaskResolved task) (hrun : db.run? task.runId = some run)
  (hrow : db.workflowVersions.row? (run.workflowId, run.workflowVersion) = some row)

include hresolved hrun hrow

/-- The ports of the resolved node are those of the operation of the task. -/
theorem Db.TaskResolved.hasInput {port artifactType : String}
    (h : ResolvedWorkflow.HasInput ⟨row.definition, row.resolution⟩ task.nodeId port
      artifactType) :
    ∃ input, task.operation.definition.inputs.row? port = some (port, input) ∧
      input.artifactType = artifactType := by
  obtain ⟨item, hitem, hsame⟩ := hresolved run hrun row hrow
  obtain ⟨operation, input, hoperation, hinput, htype⟩ := h
  obtain ⟨-, rfl⟩ := Prod.mk.inj (Option.some.inj (hitem.symm.trans hoperation))
  exact ⟨input, by rw [hsame, hinput], htype⟩

theorem Db.TaskResolved.hasOutput {port artifactType : String}
    (h : ResolvedWorkflow.HasOutput ⟨row.definition, row.resolution⟩ task.nodeId port
      artifactType) :
    ∃ output, task.operation.definition.outputs.row? port = some (port, output) ∧
      output.artifactType = artifactType := by
  obtain ⟨item, hitem, hsame⟩ := hresolved run hrun row hrow
  obtain ⟨operation, output, hoperation, houtput, htype⟩ := h
  obtain ⟨-, rfl⟩ := Prod.mk.inj (Option.some.inj (hitem.symm.trans hoperation))
  exact ⟨output, by rw [hsame, houtput], htype⟩

end Resolved

/-- The request of a typed state gives the task artifacts of the declared types
on declared ports. -/
theorem Db.Typed.taskRequestFor {db : Db} (h : db.Typed) (hintegrity : db.Integrity)
    {runId : Uuid} {nodeId : String} {attemptId : Uuid} {request : TaskRequest}
    (hrequest : taskRequestFor db runId nodeId attemptId = .ok request) :
    request.runId = runId ∧ request.nodeId = nodeId ∧ ∃ task,
      db.task? runId nodeId = some task ∧ ∀ item ∈ request.inputs.rows, ∃ port,
        task.operation.definition.inputs.row? item.1 = some (item.1, port) ∧
        item.2.artifactType = port.artifactType := by
  unfold QhpcEcosystem.taskRequestFor at hrequest
  split at hrequest
  · next run definition task hrun hdefinition htask =>
      simp only [bind, Except.bind, pure, Except.pure] at hrequest
      split at hrequest
      · cases hrequest
      · next inputs hinputs =>
          split at hrequest
          · cases hrequest
          · next edges hedges =>
              cases hrequest
              refine ⟨rfl, rfl, task, htask, ?_⟩
              obtain ⟨found, row, hfound, hrow, rfl⟩ := Db.definition?_eq_some.mp hdefinition
              obtain rfl := Option.some.inj (hrun.symm.trans hfound)
              have hsound := hintegrity.workflows row (Table.mem_of_row? hrow)
              obtain ⟨rfl, rfl⟩ := Db.place_of_task? htask
              have hresolved := h.resolved task (Table.mem_of_row? htask)
              have hall := edgeArtifacts_all (P := fun port record => ∃ input,
                task.operation.definition.inputs.row? port = some (port, input) ∧
                  record.artifactType = input.artifactType) ?_ ?_ hedges
              · intro item hitem
                exact hall item.1 item.2 (Table.row?_of_mem hitem)
              · -- an edge carries the type of its source to its target
                intro edge hedge hnode parent name artifactId artifact hparent hport hartifact
                obtain ⟨hparentRun, hparentNode⟩ := Db.place_of_task? hparent
                have hname : name = edge.source.port := Table.key_of_row? hport
                subst hname
                obtain ⟨found, output, hfoundArtifact, -, -, -, houtput, htype⟩ :=
                  h.tasks parent (Table.mem_of_row? hparent) _ (Table.mem_of_row? hport)
                obtain rfl := Option.some.inj (hartifact.symm.trans hfoundArtifact)
                have htarget := hsound.edgeTargets edge hedge
                have hsource := hsound.edgeSources edge hedge
                rw [hnode] at htarget
                rw [← hparentNode] at hsource
                obtain ⟨input, hinput, hinputType⟩ := hresolved.hasInput hrun hrow htarget
                obtain ⟨declared, hdeclared, hdeclaredType⟩ :=
                  (h.resolved parent (Table.mem_of_row? hparent)).hasOutput
                    (by rw [hparentRun]; exact hrun) hrow hsource
                obtain ⟨-, rfl⟩ := Prod.mk.inj (Option.some.inj (houtput.symm.trans hdeclared))
                refine ⟨input, hinput, ?_⟩
                rw [htype, hdeclaredType, hinputType]
                exact hsound.wellFormed.edgeTypes edge hedge
              · refine runInputArtifacts_all ?_ (fun _ _ hnone => by cases hnone) hinputs
                intro item hitem hnode name artifactId record hname hrecord
                have hkey : name = item.1 := Table.key_of_row? hname
                subst hkey
                have hrunId := Db.id_of_run? hrun
                obtain ⟨found, declared, hfoundRecord, hdeclared, htype⟩ :=
                  h.runs run (Table.mem_of_row? hrun) row.definition
                    (by rw [hrunId]; exact hdefinition) _ (Table.mem_of_row? hname)
                obtain rfl := Except.ok.inj (hrecord.symm.trans hfoundRecord)
                have hsame := hdeclared.symm.trans (Table.row?_of_mem hitem)
                obtain ⟨-, hinputEq⟩ := Prod.mk.inj (Option.some.inj hsame)
                have htarget := hsound.inputs item hitem
                rw [hnode] at htarget
                obtain ⟨input, hinput, hinputType⟩ := hresolved.hasInput hrun hrow htarget
                exact ⟨input, hinput, by rw [htype, hinputEq, hinputType]⟩
  · cases hrequest

/-- In every state of the engine a request passes on artifacts of the types that
the operation of the task declares, and a succeeded task records artifacts of its
own of the declared types. -/
theorem artifacts_typed {guard : Db → Operation × Time → Prop} {db : Db}
    (hreach : engine.Reachable guard db) :
    (∀ lease request, taskRequest db lease = .ok request → ∃ task,
      db.task? request.runId request.nodeId = some task ∧ request.runId = lease.runId ∧
      request.nodeId = lease.nodeId ∧ ∀ item ∈ request.inputs.rows, ∃ port,
        task.operation.definition.inputs.row? item.1 = some (item.1, port) ∧
        item.2.artifactType = port.artifactType) ∧
    ∀ task ∈ db.tasks.rows, task.state = .succeeded → ∀ item ∈ task.outputs.rows,
      ∃ artifact port, db.artifacts.row? item.2 = some artifact ∧
        artifact.runId = task.runId ∧ artifact.taskId = task.nodeId ∧ artifact.port = item.1 ∧
        task.operation.definition.outputs.row? item.1 = some (item.1, port) ∧
        artifact.record.artifactType = port.artifactType := by
  have htyped := engine_typed hreach
  refine ⟨fun lease request hrequest => ?_, fun task htask _ => htyped.tasks task htask⟩
  simp only [taskRequest, bind, Except.bind] at hrequest
  split at hrequest
  · cases hrequest
  · obtain ⟨hrun, hnode, task, htask, hinputs⟩ :=
      htyped.taskRequestFor (engine_integrity hreach) hrequest
    exact ⟨task, by rw [hrun, hnode, htask], hrun, hnode, hinputs⟩

/-- The lease of the second task of the chain, taken when the first has been
completed. -/
def chainLease : TaskLease :=
  { sampleLease 5 4 1 "w2" 300000003 .leased none with nodeId := "b" }

def halfChain : List (Operation × Time) :=
  chainSubmission ++ [(sampleClaim "w1", 1),
    (.completeTask (sampleLease 2 1 1 "w1" 300000001 .leased none) sampleResult, 2),
    (sampleClaim "w2", 3)]

theorem artifacts_typed_halfChain :
    let db := engine.after (fun _ _ => true) {} halfChain
    (taskRequest db chainLease).toOption.map
        (fun request => request.inputs.rows.map fun item => (item.1, item.2.artifactType)) =
      some [("in", "data@1")] ∧
    (∀ lease request, taskRequest db lease = .ok request → ∃ task,
      db.task? request.runId request.nodeId = some task ∧ request.runId = lease.runId ∧
      request.nodeId = lease.nodeId ∧ ∀ item ∈ request.inputs.rows, ∃ port,
        task.operation.definition.inputs.row? item.1 = some (item.1, port) ∧
        item.2.artifactType = port.artifactType) ∧
    ∀ task ∈ db.tasks.rows, task.state = .succeeded → ∀ item ∈ task.outputs.rows,
      ∃ artifact port, db.artifacts.row? item.2 = some artifact ∧
        artifact.runId = task.runId ∧ artifact.taskId = task.nodeId ∧ artifact.port = item.1 ∧
        task.operation.definition.outputs.row? item.1 = some (item.1, port) ∧
        artifact.record.artifactType = port.artifactType := by
  refine ⟨by decide, ?_⟩
  exact artifacts_typed ((TransitionSystem.Reachable.initial rfl).after halfChain)

end QhpcEcosystem
