/-
What the engine records of a computation.  The contents of an artifact are what its
runner has stored under its columns.  In a run that is neither canceled nor retried
the call of a task stays the same once its parents have succeeded, and when every
result is the value of a task function on the request, a succeeded task records the
value on what its parents record and a failed task has none.
-/
import QhpcEcosystem.AttemptHistory
import QhpcEcosystem.DataLineage
import QhpcEcosystem.DependencyGating
import QhpcEcosystem.WorkflowMeaning

namespace QhpcEcosystem

universe u

variable {γ : Type u}

/-! ## Contents -/

/-- The columns of an artifact that the runner has given. -/
def ArtifactRecord.stored (record : ArtifactRecord) : ArtifactResult where
  artifactType := record.artifactType
  uri := record.uri
  checksum := record.checksum
  sizeBytes := record.sizeBytes

/-- The contents of what a task has recorded under an identifier. -/
def Db.contents (db : Db) (read : ArtifactResult → γ) (artifactId : Uuid) : Option γ :=
  (db.artifacts.row? artifactId).map fun artifact => read artifact.record.stored

/-- The contents of the outputs of a node. -/
def Db.outputContents (db : Db) (read : ArtifactResult → γ) (runId : Uuid) (nodeId port : String) :
    Option γ :=
  (db.task? runId nodeId).bind fun task =>
    (task.outputs.row? port).bind fun item => db.contents read item.2

/-- The contents of the inputs of a run. -/
def Db.inputContents (db : Db) (read : ArtifactResult → γ) (run : Run) (name : String) :
    Option γ :=
  (run.inputs.row? name).bind fun item =>
    (getArtifact db item.2).toOption.map fun record => read record.stored

/-- The call of a task on what the database holds. -/
def Db.call (db : Db) (read : ArtifactResult → γ) (runId : Uuid) (nodeId : String) :
    Option (TaskCall γ) :=
  match db.run? runId, db.definition? runId, db.task? runId nodeId with
  | some run, some definition, some task => some (task.operation.call
      (definition.gather (db.inputContents read run) (db.outputContents read runId) nodeId))
  | _, _, _ => none

def Dict.contents (read : ArtifactResult → γ) (inputs : Dict String ArtifactRecord)
    (port : String) : Option γ :=
  (inputs.row? port).map fun item => read item.2.stored

/-- What a runner is asked for. -/
def TaskRequest.call (request : TaskRequest) (read : ArtifactResult → γ) : TaskCall γ where
  capabilityId := request.capabilityId
  capabilityVersion := request.capabilityVersion
  operationId := request.operationId
  project := request.project
  runtimeType := request.runtimeType
  runtimeReference := request.runtimeReference
  runtimeDigest := request.runtimeDigest
  entrypoint := request.entrypoint
  arguments := request.arguments
  resources := request.resources
  outputTypes := request.outputTypes
  parameters := request.parameters
  inputs := Dict.contents read request.inputs

/-- The result has an artifact with these contents for every port, of its type, and
no others. -/
structure TaskResult.Presents (result : TaskResult) (read : ArtifactResult → γ)
    (types : Dict String String) (contents : String → γ) : Prop where
  declared : ∀ item ∈ types.rows, ∃ artifact,
    result.outputs.row? item.1 = some (item.1, artifact) ∧ artifact.artifactType = item.2 ∧
      read artifact = contents item.1
  known : ∀ item ∈ result.outputs.rows, (types.row? item.1).isSome = true

section Requests

variable {db : Db} {read : ArtifactResult → γ} {runId : Uuid} {nodeId : String}

theorem Dict.contents_set {inputs : Dict String ArtifactRecord} {port : String}
    {record : ArtifactRecord} : Dict.contents read (inputs.set (port, record)) =
      Function.update (Dict.contents read inputs) port (some (read record.stored)) := by
  funext other
  simp only [Dict.contents, Table.row?_set, Function.update_apply, Keyed.key]
  by_cases hport : port = other
  · simp [hport]
  · have hne : ¬ other = port := fun heq => hport heq.symm
    simp [hport, hne]

/-- The loop over the workflow inputs gathers the contents of those given. -/
theorem runInputArtifacts_contents {run : Run} {declared : List (String × WorkflowInput)}
    {inputs inputs' : Dict String ArtifactRecord}
    (h : runInputArtifacts db run nodeId declared inputs = .ok inputs') :
    Dict.contents read inputs' =
      gatherInputs (db.inputContents read run) nodeId declared (Dict.contents read inputs) := by
  induction declared generalizing inputs with
  | nil =>
      cases h
      rfl
  | cons item rest ih =>
      obtain ⟨name, input⟩ := item
      simp only [runInputArtifacts] at h
      split at h
      · next hnode =>
          split at h
          · next habsent =>
              rw [ih h]
              simp [gatherInputs, Db.inputContents, habsent]
          · next found artifactId hfound =>
              simp only [bind, Except.bind] at h
              split at h
              · cases h
              · next record hrecord =>
                  have hcontents : db.inputContents read run name =
                      some (read record.stored) := by
                    simp [Db.inputContents, hfound, hrecord, Except.toOption]
                  rw [ih h, Dict.contents_set]
                  simp [gatherInputs, hnode, hcontents]
      · next hnode =>
          rw [ih h]
          simp [gatherInputs, hnode]

/-- The loop over the edges gathers what the parents have recorded. -/
theorem edgeArtifacts_contents {edges : List Edge}
    {inputs inputs' : Dict String ArtifactRecord}
    (h : edgeArtifacts db runId nodeId edges inputs = .ok inputs') :
    Dict.contents read inputs' =
      gatherEdges (db.outputContents read runId) nodeId edges (Dict.contents read inputs) := by
  induction edges generalizing inputs with
  | nil =>
      cases h
      rfl
  | cons edge rest ih =>
      simp only [edgeArtifacts] at h
      split at h
      · next hnode =>
          split at h
          · cases h
          · next parent hparent =>
              split at h
              · cases h
              · next hport =>
                  split at h
                  · cases h
                  · next artifact hartifact =>
                      have hcontents : db.outputContents read runId edge.source.node
                          edge.source.port = some (read artifact.record.stored) := by
                        simp [Db.outputContents, Db.contents, hparent, hport, hartifact]
                      rw [ih h, Dict.contents_set]
                      simp [gatherEdges, hnode, hcontents]
      · next hnode =>
          rw [ih h]
          simp [gatherEdges, hnode]

/-- A request is the call of its task on what the database holds. -/
theorem taskRequestFor_call {attemptId : Uuid} {request : TaskRequest}
    (h : taskRequestFor db runId nodeId attemptId = .ok request) :
    db.call read runId nodeId = some (request.call read) := by
  obtain ⟨run, definition, task, given, inputs, hrun, hdefinition, htask, hgiven, hinputs, rfl⟩ :=
    taskRequestFor_eq_ok h
  have hcontents : Dict.contents read inputs = definition.gather
      (db.inputContents read run) (db.outputContents read runId) nodeId := by
    rw [edgeArtifacts_contents hinputs, runInputArtifacts_contents hgiven]
    rfl
  simp only [Db.call, hrun, hdefinition, htask, TaskRequest.call, TaskOperation.call, hcontents]

end Requests

/-! ## Runs that are left alone -/

/-- No run is canceled or retried. -/
def undisturbed (_ : Db) : Operation × Time → Bool
  | (.cancelRun _, _) | (.retryTask _ _, _) | (.markAttemptCanceled _ _ _, _) => false
  | _ => true

/-- Nothing is canceled or waits for its cancellation. -/
structure Db.Undisturbed (db : Db) : Prop where
  attempts : ∀ row ∈ db.taskAttempts.rows, row.state ≠ .cancelRequested
  tasks : ∀ task ∈ db.tasks.rows, task.state ≠ .canceled
  runs : ∀ run ∈ db.runs.rows, run.state ≠ .canceled

theorem Db.undisturbed_empty : ({} : Db).Undisturbed :=
  ⟨fun _ hrow => (by cases hrow), fun _ htask => (by cases htask), fun _ hrun => (by cases hrun)⟩

section Undisturbed

variable {db db' : Db} {now : Time} {operation : Operation}

/-- The sweep closes or reopens no task into the canceled state. -/
theorem Task.canceled_sweep (db : Db) (now : Time) (task : Task)
    (h : ((db.sweepTask now).apply task).state = .canceled) : task.state = .canceled := by
  simp only [Db.sweepTask] at h
  split at h
  · next expired _ =>
      cases hexpiry : expired.expiry <;> rw [hexpiry] at h
      · exact h
      · exact h
      · cases h
  · exact h

theorem Db.TaskChange.canceled_before {task task' : Task}
    (h : db.TaskChange now operation task task')
    (hguard : undisturbed db (operation, now) = true) (hcanceled : task'.state = .canceled) :
    task.state = .canceled := by
  cases h with
  | kept | renewed _ | released _ => exact hcanceled
  | attemptCanceled _ _ | canceled _ => cases hguard
  | expired hexpired =>
      refine Task.canceled_sweep db now task ?_
      simpa only [Db.sweepTask, hexpired] using hcanceled
  | recovered => exact Task.canceled_sweep db now task hcanceled
  | completed _ _ _ _ _ _ | failed _ _ _ _ | started _ | retried _ _ => cases hcanceled

theorem Db.Undisturbed.step (h : db.Undisturbed)
    (hguard : undisturbed db (operation, now) = true) (hstep : db.Transition now operation db') :
    db'.Undisturbed where
  attempts row' hrow' hrequested := by
    obtain ⟨row, hrow, -, hstate⟩ | ⟨rfl, -⟩ := hstep.requested hrow' hrequested
    · exact h.attempts row hrow hstate
    · cases hguard
  tasks task' htask' hcanceled := by
    obtain ⟨task, htask, -, -, hchange⟩ | ⟨run, tasks, hadds, hadded⟩ :=
      hstep.taskChanges.new task' htask'
    · exact h.tasks task htask (hchange.canceled_before hguard hcanceled)
    · obtain ⟨row, -, -, -, hsubmits, -⟩ := hadds.submits
      rw [(hsubmits.pending task' hadded).2] at hcanceled
      cases hcanceled
  runs run' hrun' hcanceled := by
    obtain ⟨run, hrun, hold | ⟨rfl, -⟩⟩ :=
      hstep.run_canceled (Table.row?_of_mem hrun') hcanceled
    · exact h.runs run (Table.mem_of_row? hrun) hold
    · cases hguard

/-- The sweep takes back running tasks only. -/
theorem Db.Undisturbed.keepsLineage (h : db.Undisturbed)
    (hguard : undisturbed db (operation, now) = true) :
    keepsLineage db (operation, now) = true := by
  cases operation with
  | claimTask workerId leaseSeconds admission =>
      simp only [QhpcEcosystem.keepsLineage, List.all_eq_true]
      intro task htask
      cases hexpired : db.expiredLease? now task with
      | none => simp [Db.reopens, hexpired]
      | some expired =>
          obtain ⟨-, -, -, -, hattempt, hrunning | ⟨attempt, hfound, hrequested⟩⟩ :=
            expiredLease?_spec hexpired
          · simp [hrunning]
          · rw [hattempt] at hfound
            exact absurd hrequested (h.attempts attempt (numberedAttempt?_spec hfound).1)
  | markAttemptCanceled lease log details => cases hguard
  | retryTask runId nodeId => cases hguard
  | _ => rfl

theorem engine_undisturbed
    (hreach : engine.Reachable (fun db label => undisturbed db label = true) db) :
    db.Undisturbed :=
  engine_invariant Db.undisturbed_empty (fun _ _ _ _ _ h hguard hstep => h.step hguard hstep) hreach

theorem engine_undisturbed_lineage
    (hreach : engine.Reachable (fun db label => undisturbed db label = true) db) :
    engine.Reachable (fun db label => keepsLineage db label = true) db :=
  hreach.replace fun _ _ hbefore hguard => (engine_undisturbed hbefore).keepsLineage hguard

end Undisturbed

/-! ## What stays -/

section Stays

variable {db db' : Db} {now : Time} {operation : Operation} {read : ArtifactResult → γ}
  {runId : Uuid} {nodeId : String}

theorem Db.Transition.artifact?_some (hstep : db.Transition now operation db')
    {artifactId : Uuid} {artifact : Artifact}
    (hfound : db.artifacts.row? artifactId = some artifact) :
    db'.artifacts.row? artifactId = some artifact := by
  rw [Table.row?_eq_some_iff] at hfound ⊢
  exact ⟨hstep.artifacts.1.subset hfound.1, hfound.2⟩

theorem Db.Transition.getArtifact_ok (hstep : db.Transition now operation db')
    (hdrawn : ∀ artifact ∈ db.artifacts.rows, artifact.record.id < db.uuids)
    {artifactId : Uuid} {record : ArtifactRecord}
    (hfound : getArtifact db artifactId = .ok record) :
    getArtifact db' artifactId = .ok record := by
  rcases hstep.stages with ⟨_, hchanges⟩ | ⟨_, hchanges⟩
  · exact hchanges.getArtifact_ok hdrawn hfound
  · have hsweep := resetExpiredLeases_changes db now
    refine hchanges.getArtifact_ok (fun artifact hartifact => ?_)
      (hsweep.getArtifact_ok hdrawn hfound)
    rw [hsweep.artifacts] at hartifact
    exact (hdrawn artifact (by simpa [Effect.sweep] using hartifact)).trans_le hsweep.uuids

/-- The inputs of a run keep their contents. -/
theorem Db.Transition.inputContents_eq (hstep : db.Transition now operation db')
    (hintegrity : db.Integrity) (htyped : db.Typed) {run run' : Run}
    (hrun : db.run? runId = some run) (hinputs : run'.inputs = run.inputs) :
    db'.inputContents read run' = db.inputContents read run := by
  obtain ⟨definition, hdefinition⟩ := hintegrity.definition?_isSome hrun
  rw [← Db.id_of_run? hrun] at hdefinition
  funext name
  rw [Db.inputContents, Db.inputContents, hinputs]
  cases hfound : run.inputs.row? name with
  | none => rfl
  | some item =>
      obtain ⟨record, -, hrecord, -⟩ := htyped.runs run (Table.mem_of_row? hrun) definition
        hdefinition item (Table.mem_of_row? hfound)
      simp [hrecord, hstep.getArtifact_ok htyped.drawn hrecord]

/-- A task that keeps its outputs keeps their contents. -/
theorem Db.Transition.outputContents_eq (hstep : db.Transition now operation db')
    (htyped : db.Typed) {task task' : Task} (htask : db.task? runId nodeId = some task)
    (htask' : db'.task? runId nodeId = some task') (houtputs : task'.outputs = task.outputs) :
    db'.outputContents read runId nodeId = db.outputContents read runId nodeId := by
  funext port
  simp only [Db.outputContents, htask, htask', houtputs, Option.bind_some]
  cases hfound : task.outputs.row? port with
  | none => rfl
  | some item =>
      obtain ⟨artifact, -, hartifact, -⟩ := htyped.tasks task (Table.mem_of_row? htask) item
        (Table.mem_of_row? hfound)
      simp [Db.contents, hartifact, hstep.artifact?_some hartifact]

namespace Db.Undisturbed

variable (h : db.Undisturbed) (hguard : undisturbed db (operation, now) = true)
  (hstep : db.Transition now operation db')

include h hguard hstep

/-- What has succeeded stays as it is. -/
theorem succeeded_stays {task : Task} (htask : db.task? runId nodeId = some task)
    (hsucceeded : task.state = .succeeded) : ∃ task', db'.task? runId nodeId = some task' ∧
      task'.state = .succeeded ∧ task'.outputs = task.outputs := by
  obtain ⟨task', htask', hchange⟩ := hstep.taskChanges.task? htask
  rcases hchange.succeeded_stays (Table.mem_of_row? htask) (h.keepsLineage hguard) hsucceeded with
    ⟨hstate, houtputs⟩ | ⟨_, _, rfl, -⟩
  · exact ⟨task', htask', hstate, houtputs⟩
  · cases hguard

variable (hintegrity : db.Integrity)

include hintegrity

theorem parentsSucceeded {task : Task} (hparents : db.ParentsSucceeded runId nodeId)
    (htask : db.task? runId nodeId = some task) : db'.ParentsSucceeded runId nodeId := by
  intro definition hdefinition edge hedge hnode
  obtain ⟨run, hrun⟩ := hintegrity.taskRun task (Table.mem_of_row? htask)
  rw [(Db.place_of_task? htask).1] at hrun
  rw [hstep.definition?_eq hintegrity hrun] at hdefinition
  obtain ⟨parent, hparent, hsucceeded⟩ := hparents definition hdefinition edge hedge hnode
  obtain ⟨parent', hparent', hstate, -⟩ := h.succeeded_stays hguard hstep hparent hsucceeded
  exact ⟨parent', hparent', hstate⟩

/-- The call of a task whose parents have succeeded stays the same. -/
theorem call_eq (htyped : db.Typed) {task : Task} (hparents : db.ParentsSucceeded runId nodeId)
    (htask : db.task? runId nodeId = some task) :
    db'.call read runId nodeId = db.call read runId nodeId := by
  obtain ⟨run, hrun⟩ := hintegrity.taskRun task (Table.mem_of_row? htask)
  rw [(Db.place_of_task? htask).1] at hrun
  obtain ⟨definition, hdefinition⟩ := hintegrity.definition?_isSome hrun
  obtain ⟨task', htask', htaskChange⟩ := hstep.taskChanges.task? htask
  obtain ⟨run', hrun', hid, hrunChange⟩ := hstep.runChanges.old run (Table.mem_of_row? hrun)
  have hfound := Table.row?_of_mem hrun'
  rw [Run.key_eq, hid, Db.id_of_run? hrun] at hfound
  have hgather : definition.gather (db.inputContents read run) (db'.outputContents read runId)
      nodeId = definition.gather (db.inputContents read run) (db.outputContents read runId)
        nodeId := by
    refine Workflow.gather_congr fun source hsource => ?_
    obtain ⟨edge, hedge, hnode, rfl⟩ := mem_parents.mp hsource
    obtain ⟨parent, hparent, hsucceeded⟩ := hparents definition hdefinition edge hedge hnode
    obtain ⟨parent', hparent', -, houtputs⟩ := h.succeeded_stays hguard hstep hparent hsucceeded
    exact hstep.outputContents_eq htyped hparent hparent' houtputs
  simp only [Db.call, Db.run?] at hfound ⊢
  simp only [Db.run?] at hrun
  simp only [hfound, hrun, hstep.definition?_eq hintegrity hrun, hdefinition, htask', htask,
    htaskChange.operation_eq, hstep.inputContents_eq hintegrity htyped hrun hrunChange.keeps.2.2,
    hgather]

end Db.Undisturbed

end Stays

/-! ## The values of the tasks -/

/-- The operations that end a task have an effect under this lease. -/
structure Db.Bears (db : Db) (lease : TaskLease) (task : Task) (row : Attempt) : Prop where
  found : db.task? lease.runId lease.nodeId = some task
  running : task.state = .running
  token : task.leaseToken = some lease.token
  leased : db.Leased lease row

/-- The result presents the value of the task. -/
def Db.Yields (db : Db) (compute : TaskFunction γ) (read : ArtifactResult → γ)
    (runId : Uuid) (nodeId : String) (result : TaskResult) : Prop :=
  ∃ call contents, db.call read runId nodeId = some call ∧ compute call = some contents ∧
    result.Presents read call.outputTypes contents

/-- The task has no value. -/
def Db.Fails (db : Db) (compute : TaskFunction γ) (read : ArtifactResult → γ)
    (runId : Uuid) (nodeId : String) : Prop :=
  ∃ call, db.call read runId nodeId = some call ∧ compute call = none

/-- Tasks are completed with their values and failed when they have none. -/
def follows (compute : TaskFunction γ) (read : ArtifactResult → γ) (db : Db) :
    Operation × Time → Prop
  | (.completeTask lease result, _) => ∀ task row, db.Bears lease task row →
      db.Yields compute read lease.runId lease.nodeId result
  | (.failTask lease _, _) => ∀ task row, db.Bears lease task row →
      db.Fails compute read lease.runId lease.nodeId
  | label => undisturbed db label = true

/-- Succeeded tasks record their values, failed tasks have none. -/
structure Db.Computes (db : Db) (compute : TaskFunction γ) (read : ArtifactResult → γ) :
    Prop where
  succeeded : ∀ task ∈ db.tasks.rows, task.state = .succeeded → ∃ call contents,
    db.call read task.runId task.nodeId = some call ∧ compute call = some contents ∧
      db.outputContents read task.runId task.nodeId =
        declaredContents task.operation.definition.outputs contents
  failed : ∀ task ∈ db.tasks.rows, task.state = .failed →
    db.ParentsSucceeded task.runId task.nodeId ∧
      db.Fails compute read task.runId task.nodeId

section Computes

variable {db db' : Db} {now : Time} {operation : Operation} {compute : TaskFunction γ}
  {read : ArtifactResult → γ}

theorem Db.computes_empty : ({} : Db).Computes compute read :=
  ⟨fun _ htask => (by cases htask), fun _ htask => (by cases htask)⟩

theorem follows_undisturbed {label : Operation × Time} (h : follows compute read db label) :
    undisturbed db label = true := by
  obtain ⟨operation, now⟩ := label
  cases operation with
  | completeTask _ _ | failTask _ _ => rfl
  | _ => exact h

theorem row?_outputTypes (declared : Dict String PortDefinition) (port : String) :
    (outputTypes declared).row? port =
      (declared.row? port).map fun item => (item.1, item.2.artifactType) := by
  have hnodup : ((declared.rows.map fun item => (item.1, item.2.artifactType)).map
      (Keyed.key : String × String → String)).Nodup := by
    rw [List.map_map]
    exact declared.nodup
  rw [outputTypes, Table.row?_foldl_set _ hnodup, Table.row?_empty, Option.or_none,
    List.find?_map]
  rfl

/-- Only `fail_task` fails a task. -/
theorem Db.TaskChange.failed_before {task task' : Task}
    (h : db.TaskChange now operation task task') (hfailed : task'.state = .failed) :
    task.state = .failed ∨ ∃ lease error row, operation = .failTask lease error ∧
      db.Bears lease task row := by
  have hsweep : ((db.sweepTask now).apply task).state = .failed → task.state = .failed := by
    intro hswept
    simp only [Db.sweepTask] at hswept
    split at hswept
    · next expired _ =>
        cases hexpiry : expired.expiry <;> rw [hexpiry] at hswept
        · exact hswept
        · exact hswept
        · cases hswept
    · exact hswept
  cases h with
  | kept | renewed _ | released _ => exact .inl hfailed
  | failed htask hrunning htoken hleased =>
      exact .inr ⟨_, _, _, rfl, htask, hrunning, htoken, hleased⟩
  | expired hexpired =>
      refine .inl (hsweep ?_)
      simpa only [Db.sweepTask, hexpired] using hfailed
  | recovered => exact .inl (hsweep hfailed)
  | attemptCanceled _ _ | canceled _ | completed _ _ _ _ _ _ | started _ | retried _ _ =>
      cases hfailed

/-- A completion stores its artifacts and ends the attempt of its lease. -/
theorem Db.Transition.completed_stores {lease : TaskLease} {result : TaskResult}
    (hstep : db.Transition now (.completeTask lease result) db') {task task' : Task}
    {row : Attempt} {stored : Db} {outputIds : ArtifactIds}
    (htask : db.task? lease.runId lease.nodeId = some task) (hrunning : task.state = .running)
    (hleased : db.Leased lease row)
    (hinsert : insertOutputs now row task.operation.definition.outputs result.outputs.rows db
      Table.empty = .ok (stored, outputIds))
    (htask' : db'.task? lease.runId lease.nodeId = some task')
    (hsucceeded : task'.state = .succeeded) :
    db'.artifacts = stored.artifacts ∧
      ∃ row', db'.attempt? lease.attemptId = some row' ∧ row'.state = .succeeded := by
  cases hstep with
  | quiet hchanges =>
      rw [hchanges.task?_some htask] at htask'
      obtain rfl := Option.some.inj htask'
      rw [show (Effect.quiet.task.apply task).state = task.state from rfl, hrunning] at hsucceeded
      cases hsucceeded
  | completed hsame _ _ hrow hinserted _ hartifacts _ _ _ hchanges =>
      obtain rfl := Option.some.inj (htask.symm.trans hsame)
      obtain rfl := Option.some.inj (hleased.found.symm.trans hrow.found)
      rw [hinsert] at hinserted
      obtain ⟨rfl, rfl⟩ := Prod.mk.inj (Except.ok.inj hinserted)
      refine ⟨hartifacts, _, hchanges.attempt?_some hrow.found, ?_⟩
      simp [Effect.complete, Effect.finish, RowUpdate.forKey_apply,
        Db.id_of_attempt? hrow.found, Attempt.succeed]

/-- The artifacts of a result that presents the value have the contents of the value. -/
theorem TaskResult.Presents.outputContents {result : TaskResult} {row : Attempt} {task' : Task}
    {stored : Db} {declared : Dict String PortDefinition} {contents : String → γ}
    {runId : Uuid} {nodeId : String}
    (h : result.Presents read (outputTypes declared) contents)
    (hinsert : insertOutputs now row declared result.outputs.rows db Table.empty =
      .ok (stored, task'.outputs)) (hartifacts : db'.artifacts = stored.artifacts)
    (htask' : db'.task? runId nodeId = some task') :
    db'.outputContents read runId nodeId = declaredContents declared contents := by
  obtain ⟨-, added, hrows, -, hitems, hframe⟩ := insertOutputs_spec result.outputs.nodup hinsert
  funext port
  simp only [Db.outputContents, htask', Option.bind_some, declaredContents]
  cases hdeclared : declared.row? port with
  | none =>
      have hunknown : port ∉ result.outputs.rows.map Prod.fst := by
        intro hmem
        obtain ⟨item, hitem, rfl⟩ := List.mem_map.mp hmem
        have hknown := h.known item hitem
        rw [row?_outputTypes, hdeclared] at hknown
        cases hknown
      simp [hframe port hunknown]
  | some item =>
      obtain ⟨name, definition⟩ := item
      obtain rfl : name = port := Table.key_of_row? hdeclared
      have htype : (name, definition.artifactType) ∈ (outputTypes declared).rows :=
        Table.mem_of_row? (k := name) (by rw [row?_outputTypes, hdeclared]; rfl)
      obtain ⟨artifact, hartifact, -, hcontents⟩ := h.declared _ htype
      obtain ⟨added, hadded, heq, hid, -⟩ := hitems name artifact (Table.mem_of_row? hartifact)
      have hfound : db'.artifacts.row? added.record.id = some added := by
        have hmem : added ∈ db'.artifacts.rows := by
          rw [hartifacts, hrows]
          exact List.mem_append_right _ hadded
        exact Table.row?_of_mem hmem
      have hread : read added.record.stored = contents name := by
        rw [← hcontents, heq]
        rfl
      simp [hid, Db.contents, hfound, hread]

namespace Db.Computes

variable (h : db.Computes compute read) (hundisturbed : db.Undisturbed)
  (hguard : follows compute read db (operation, now)) (hstep : db.Transition now operation db')
  (hintegrity : db.Integrity) (htyped : db.Typed)

include h hundisturbed hguard hstep hintegrity htyped

theorem succeeded_step (hgrounded : db.Grounded) (htokens : db.Tokens) :
    ∀ task' ∈ db'.tasks.rows, task'.state = .succeeded → ∃ call contents,
      db'.call read task'.runId task'.nodeId = some call ∧ compute call = some contents ∧
        db'.outputContents read task'.runId task'.nodeId =
          declaredContents task'.operation.definition.outputs contents := by
  intro task' htask' hsucceeded
  have hquiet := follows_undisturbed hguard
  have hfound' := Table.row?_of_mem htask'
  rw [Task.key_eq] at hfound'
  obtain ⟨task, htask, hrun, hnode, hchange⟩ | ⟨run, tasks, hadds, hadded⟩ :=
    hstep.taskChanges.new task' htask'
  · have hfound := Table.row?_of_mem htask
    rw [Task.key_eq] at hfound
    rw [hrun, hnode] at hfound' ⊢
    rw [hchange.operation_eq]
    rcases hchange.outputs with ⟨houtputs, hstate⟩ |
      ⟨lease, result, row, stored, rfl, hplace, hrunning, htoken, hleased, hinsert, -⟩ |
      ⟨_, _, rfl, -⟩
    · obtain ⟨call, contents, hcall, hcompute, hcontents⟩ :=
        h.succeeded task htask (hstate hsucceeded)
      refine ⟨call, contents, ?_, hcompute, ?_⟩
      · rw [hundisturbed.call_eq hquiet hstep hintegrity htyped
          (hgrounded.tasks task htask (hstate hsucceeded)) hfound, hcall]
      · rw [hstep.outputContents_eq htyped hfound hfound' houtputs, hcontents]
    · -- the completion of the task
      obtain ⟨call, contents, hcall, hcompute, hpresents⟩ :=
        hguard task row ⟨hplace, hrunning, htoken, hleased⟩
      obtain ⟨hleaseRun, hleaseNode⟩ := Db.place_of_task? hplace
      have hparents := hgrounded.attempts row (Table.mem_of_row? hleased.found)
        (htokens.held_live hleased)
      rw [hleased.runId, hleased.nodeId, ← hleaseRun, ← hleaseNode] at hparents
      rw [hleaseRun, hleaseNode] at hfound'
      obtain ⟨hartifacts, -⟩ := hstep.completed_stores hplace hrunning hleased hinsert hfound'
        hsucceeded
      rw [← hleaseRun, ← hleaseNode] at hcall hfound'
      refine ⟨call, contents, ?_, hcompute, ?_⟩
      · rw [hundisturbed.call_eq hquiet hstep hintegrity htyped hparents hfound, hcall]
      · refine TaskResult.Presents.outputContents ?_ hinsert hartifacts hfound'
        have htypes : call.outputTypes = outputTypes task.operation.definition.outputs := by
          unfold Db.call at hcall
          split at hcall
          · next hsame =>
              obtain rfl := Option.some.inj (hfound.symm.trans hsame)
              cases hcall
              rfl
          · cases hcall
        rwa [← htypes]
    · cases hquiet
  · obtain ⟨row, -, -, -, hsubmits, -⟩ := hadds.submits
    rw [(hsubmits.pending task' hadded).2] at hsucceeded
    cases hsucceeded

theorem failed_step (hgrounded : db.Grounded) (htokens : db.Tokens) :
    ∀ task' ∈ db'.tasks.rows, task'.state = .failed →
      db'.ParentsSucceeded task'.runId task'.nodeId ∧
        db'.Fails compute read task'.runId task'.nodeId := by
  intro task' htask' hfailed
  have hquiet := follows_undisturbed hguard
  obtain ⟨task, htask, hrun, hnode, hchange⟩ | ⟨run, tasks, hadds, hadded⟩ :=
    hstep.taskChanges.new task' htask'
  · have hfound := Table.row?_of_mem htask
    rw [Task.key_eq] at hfound
    have hbefore : db.ParentsSucceeded task.runId task.nodeId ∧
        db.Fails compute read task.runId task.nodeId := by
      rcases hchange.failed_before hfailed with hold | ⟨lease, error, row, rfl, hbears⟩
      · exact h.failed task htask hold
      · have hfails := hguard task row hbears
        have hparents := hgrounded.attempts row (Table.mem_of_row? hbears.leased.found)
          (htokens.held_live hbears.leased)
        obtain ⟨hleaseRun, hleaseNode⟩ := Db.place_of_task? hbears.found
        rw [hbears.leased.runId, hbears.leased.nodeId] at hparents
        rw [hleaseRun, hleaseNode]
        exact ⟨hparents, hfails⟩
    obtain ⟨hparents, call, hcall, hcompute⟩ := hbefore
    rw [hrun, hnode]
    refine ⟨hundisturbed.parentsSucceeded hquiet hstep hintegrity hparents hfound, call, ?_,
      hcompute⟩
    rw [hundisturbed.call_eq hquiet hstep hintegrity htyped hparents hfound, hcall]
  · obtain ⟨row, -, -, -, hsubmits, -⟩ := hadds.submits
    rw [(hsubmits.pending task' hadded).2] at hfailed
    cases hfailed

end Db.Computes

theorem engine_follows_undisturbed (hreach : engine.Reachable (follows compute read) db) :
    engine.Reachable (fun db label => undisturbed db label = true) db :=
  hreach.weaken fun _ _ => follows_undisturbed

theorem engine_computes (hreach : engine.Reachable (follows compute read) db) :
    db.Computes compute read := by
  refine @engine_invariant (fun db => db.Computes compute read) _ db Db.computes_empty ?_ hreach
  intro db now operation db' hreach h hguard hstep
  have hquiet := engine_follows_undisturbed hreach
  have hundisturbed := engine_undisturbed hquiet
  have hgrounded := engine_grounded (engine_undisturbed_lineage hquiet)
  have hintegrity := engine_integrity hreach
  have htyped := engine_typed hreach
  have htokens := engine_tokens hreach
  exact ⟨h.succeeded_step hundisturbed hguard hstep hintegrity htyped hgrounded htokens,
    h.failed_step hundisturbed hguard hstep hintegrity htyped hgrounded htokens⟩

end Computes

end QhpcEcosystem
