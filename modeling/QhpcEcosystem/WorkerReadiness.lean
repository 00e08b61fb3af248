/-
Readiness, submission and claims.  `workflow_execution_requirements` computes the
targets and classes of a run before it exists, `worker_readiness` compares them with
what the workers registered, and `claim_task` with what the workers pass.
-/
import QhpcEcosystem.RegistryAdmission
import QhpcEcosystem.Worker

namespace QhpcEcosystem

/-! ## Registered workers -/

inductive WorkerState where
  | online
  | draining
  | offline
deriving DecidableEq, Repr

def WorkerState.ofName? : String → Option WorkerState
  | "online" => some .online
  | "draining" => some .draining
  | "offline" => some .offline
  | _ => none

structure WorkerMetadata where
  execution : String
  executionTargets : List String
  executionClasses : List String
  runtimeDigests : List String
deriving DecidableEq, Repr

/-- A row of the table of workers. -/
structure WorkerRow where
  id : String
  kind : String
  state : WorkerState
  startedAt : Time
  lastHeartbeatAt : Time
  metadata : WorkerMetadata
deriving DecidableEq, Repr

instance : Keyed WorkerRow String := ⟨WorkerRow.id⟩

def letterOrDigit (c : Char) : Bool :=
  lowerOrDigit c || ('A' ≤ c && c ≤ 'Z')

/-- `[A-Za-z0-9][A-Za-z0-9_.:-]{0,127}` matches the whole text. -/
def isWorkerId (text : String) : Bool :=
  match text.toList with
  | [] => false
  | c :: rest => letterOrDigit c && rest.length ≤ 127 &&
      rest.all fun c => letterOrDigit c || c = '_' || c = '.' || c = ':' || c = '-'

/-- `[a-z][a-z0-9-]{0,63}` matches the whole text. -/
def isWorkerKind (text : String) : Bool :=
  match text.toList with
  | [] => false
  | c :: rest => lowerCase c && rest.length ≤ 63 && rest.all fun c => lowerOrDigit c || c = '-'

/-- `register_worker`. -/
def registerWorker (workers : Table WorkerRow) (now : Time) (workerId kind : String)
    (metadata : WorkerMetadata) : Except Exn (Table WorkerRow) :=
  if isWorkerId workerId = false then .error (valueError "invalid worker ID")
  else if isWorkerKind kind = false then .error (valueError "invalid worker kind")
  else .ok (workers.set ⟨workerId, kind, .online, now, now, metadata⟩)

def WorkerRow.heartbeat (state : WorkerState) (now : Time) : RowUpdate WorkerRow where
  apply row := { row with state := state, lastHeartbeatAt := now }

/-- `heartbeat_worker`. -/
def heartbeatWorker (workers : Table WorkerRow) (now : Time) (workerId state : String) :
    Except Exn (Table WorkerRow) :=
  match WorkerState.ofName? state with
  | none => .error (valueError "invalid worker state")
  | some state =>
      match workers.row? workerId with
      | none => .error (keyError ("worker not found: " ++ workerId))
      | some _ => .ok (workers.update workerId (WorkerRow.heartbeat state now))

/-- `_worker_row`; `age` is in microseconds. -/
structure WorkerHealth where
  row : WorkerRow
  age : Nat
  stale : Bool
  available : Bool
deriving DecidableEq, Repr

def workerHealthRow (now : Time) (staleAfter : Int) (row : WorkerRow) : WorkerHealth :=
  let age := now - row.lastHeartbeatAt
  let stale := row.state = .online ∧ staleAfter < age
  ⟨row, age, stale, row.state = .online ∧ ¬stale⟩

/-- `worker_health`; `staleAfter` is in microseconds. -/
def workerHealth (workers : Table WorkerRow) (now : Time) (staleAfter : Int) :
    Except Exn (List WorkerHealth) :=
  if staleAfter ≤ 0 then
    .error (valueError "worker stale threshold must be greater than zero")
  else
    .ok ((workers.rows.insertionSort fun row other => row.id ≤ other.id).map
      (workerHealthRow now staleAfter))

/-! ## Requirements -/

structure ExecutionRequirement where
  nodeId : String
  executionTarget : String
  executionClass : String
  runtimeDigest : String
deriving DecidableEq, Repr

/-- `_worker_supports`. -/
def workerSupports (worker : WorkerHealth) (requirement : ExecutionRequirement) : Bool :=
  worker.available &&
    (requirement.executionTarget ∈ worker.row.metadata.executionTargets &&
      requirement.executionClass ∈ worker.row.metadata.executionClasses &&
      requirement.runtimeDigest ∈ worker.row.metadata.runtimeDigests)

structure CheckedRequirement where
  requirement : ExecutionRequirement
  ready : Bool
  compatibleWorkers : List String
deriving DecidableEq, Repr

structure Readiness where
  ready : Bool
  reason : String
  staleAfter : Int
  requirements : List CheckedRequirement
  workers : List WorkerHealth

def checkRequirement (workers : List WorkerHealth) (requirement : ExecutionRequirement) :
    CheckedRequirement :=
  let compatible := (workers.filter fun worker => workerSupports worker requirement).map
    fun worker => worker.row.id
  ⟨requirement, !compatible.isEmpty, compatible⟩

/-- The entry of a requirement in the reason of `worker_readiness`. -/
def CheckedRequirement.missing (checked : CheckedRequirement) : String :=
  checked.requirement.nodeId ++ " (" ++ checked.requirement.executionTarget ++ "/" ++
    checked.requirement.executionClass ++ ")"

/-- `worker_readiness`. -/
def workerReadiness (workers : Table WorkerRow) (now : Time) (staleAfter : Int)
    (requirements : List ExecutionRequirement) : Except Exn Readiness := do
  let health ← workerHealth workers now staleAfter
  let checked := requirements.map (checkRequirement health)
  let ready := !checked.isEmpty && checked.all CheckedRequirement.ready
  let missing := (checked.filter fun item => !item.ready).map CheckedRequirement.missing
  let reason :=
    if ready then "compatible worker available"
    else if missing ≠ [] then
      "no healthy compatible worker for " ++ ", ".intercalate missing
    else "no execution requirements supplied"
  pure ⟨ready, reason, staleAfter, checked, health⟩

/-- The node loop of `workflow_execution_requirements`. -/
def nodeRequirements (row : WorkflowRow) (executionTarget executionClass : String) :
    List String → Except Exn (List ExecutionRequirement)
  | [] => .ok []
  | nodeId :: rest =>
      match row.definition.node? nodeId, row.resolution.row? nodeId with
      | some node, some (_, item) =>
          let target := node.executionTarget.getD executionTarget
          if target ∉ item.operation.executionTargets then
            .error (contractError
              ("node " ++ nodeId ++ " does not support execution target " ++ target) [])
          else do
            let requirements ← nodeRequirements row executionTarget executionClass rest
            pure (⟨nodeId, target, node.executionClass.getD executionClass,
              item.operation.runtime.digest⟩ :: requirements)
      | _, _ => .error (keyError nodeId)

/-- `workflow_execution_requirements`. -/
def workflowExecutionRequirements (db : Db) (workflowId version executionTarget : String)
    (executionClass : Option String) : Except Exn (List ExecutionRequirement) :=
  match db.workflowVersions.row? (workflowId, version) with
  | none => .error (keyError ("workflow not found: " ++ workflowId ++ "@" ++ version))
  | some row => nodeRequirements row executionTarget
      (defaultExecutionClass executionTarget executionClass) (topologicalNodes row.definition)

/-! ## Workers -/

/-- The metadata that the constructors of both workers register. -/
def WorkerProfile.metadata (profile : WorkerProfile) (runtimeDigests : List String) :
    WorkerMetadata where
  execution :=
    match profile.kind with
    | .sync => "synchronous"
    | .async => "asynchronous"
  executionTargets := sortedStrings (profile.admission.executionTargets.getD []).dedup
  executionClasses := sortedStrings (profile.admission.executionClasses.getD []).dedup
  runtimeDigests := sortedStrings runtimeDigests

/-- `frozenset(values)`. -/
def frozenset : Option (List String) → Except Exn (List String)
  | some values => .ok values
  | none => .error ⟨.typeError, "'NoneType' object is not iterable", []⟩

/-- `Worker.__init__` and `AsyncWorker.__init__` up to the registration. -/
def constructWorker (workers : Table WorkerRow) (now : Time) (profile : WorkerProfile)
    (runtimeDigests : List String) : Except Exn (Table WorkerRow) :=
  match profile.kind with
  | .sync => do
      let targets ← frozenset profile.admission.executionTargets
      if targets = [] then throw (valueError "worker must admit at least one execution target")
      let classes ← frozenset profile.admission.executionClasses
      if classes = [] then throw (valueError "worker must admit at least one execution class")
      registerWorker workers now profile.workerId "local" (profile.metadata runtimeDigests)
  | .async =>
      registerWorker workers now profile.workerId "target" (profile.metadata runtimeDigests)

/-- The table of workers and the workers that registered there, the last one first. -/
structure WorkerPool where
  workers : Table WorkerRow := Table.empty
  created : List WorkerProfile := []

inductive WorkerCall where
  | construct (profile : WorkerProfile) (runtimeDigests : List String)
  | heartbeat (workerId state : String)

def WorkerPool.after (pool : WorkerPool) (now : Time) : WorkerCall → WorkerPool
  | .construct profile runtimeDigests =>
      match constructWorker pool.workers now profile runtimeDigests with
      | .ok workers => ⟨workers, profile :: pool.created⟩
      | .error _ => pool
  | .heartbeat workerId state =>
      match heartbeatWorker pool.workers now workerId state with
      | .ok workers => { pool with workers := workers }
      | .error _ => pool

/-- Any workers, registered and heard of in any order. -/
def workerPool : TransitionSystem WorkerPool (WorkerCall × Time) where
  Initial pool := pool = {}
  step pool label := some (pool.after label.2 label.1)

/-- The worker behind a row: the last one that registered its id.  Its admission is what
it passes to `claim_task`. -/
def WorkerPool.worker? (pool : WorkerPool) (workerId : String) : Option WorkerProfile :=
  pool.created.find? fun profile => profile.workerId = workerId

/-- Every row describes the worker behind it. -/
def WorkerPool.Registered (pool : WorkerPool) : Prop :=
  ∀ row ∈ pool.workers.rows, ∃ profile runtimeDigests,
    pool.worker? row.id = some profile ∧ row.metadata = profile.metadata runtimeDigests

section Pool

variable {pool : WorkerPool} {now : Time}

theorem registerWorker_ok {workers workers' : Table WorkerRow} {workerId kind : String}
    {metadata : WorkerMetadata}
    (h : registerWorker workers now workerId kind metadata = .ok workers') :
    workers' = workers.set ⟨workerId, kind, .online, now, now, metadata⟩ := by
  unfold registerWorker at h
  split at h
  · cases h
  · split at h
    · cases h
    · cases h
      rfl

theorem constructWorker_ok {workers workers' : Table WorkerRow} {profile : WorkerProfile}
    {runtimeDigests : List String}
    (h : constructWorker workers now profile runtimeDigests = .ok workers') :
    ∃ kind, workers' = workers.set
      ⟨profile.workerId, kind, .online, now, now, profile.metadata runtimeDigests⟩ := by
  unfold constructWorker at h
  split at h
  · simp only [bind, Except.bind] at h
    split at h
    · cases h
    · split at h
      · cases h
      · split at h
        · cases h
        · split at h
          · cases h
          · exact ⟨_, registerWorker_ok h⟩
  · exact ⟨_, registerWorker_ok h⟩

/-- A call keeps the rows in step with the workers. -/
theorem WorkerPool.Registered.after (h : pool.Registered) (call : WorkerCall) :
    (pool.after now call).Registered := by
  cases call with
  | construct profile runtimeDigests =>
      simp only [WorkerPool.after]
      split
      · next workers hworkers =>
          obtain ⟨kind, rfl⟩ := constructWorker_ok hworkers
          intro row hrow
          have hfound := Table.row?_of_mem hrow
          rw [Table.row?_set] at hfound
          split at hfound
          · next hid =>
              obtain rfl := Option.some.inj hfound
              exact ⟨profile, runtimeDigests, by simp [WorkerPool.worker?], rfl⟩
          · next hid =>
              obtain ⟨other, digests, hother, hmetadata⟩ := h row (Table.mem_of_row? hfound)
              have hne : profile.workerId ≠ row.id := hid
              refine ⟨other, digests, ?_, hmetadata⟩
              simp only [WorkerPool.worker?] at hother ⊢
              rw [List.find?_cons_of_neg (by simpa using hne), hother]
      · exact h
  | heartbeat workerId state =>
      simp only [WorkerPool.after]
      split
      · next workers hworkers =>
          unfold heartbeatWorker at hworkers
          split at hworkers
          · cases hworkers
          · split at hworkers
            · cases hworkers
            · cases hworkers
              intro row hrow
              rw [Table.rows_update] at hrow
              obtain ⟨old, hold, rfl⟩ := List.mem_map.mp hrow
              obtain ⟨profile, digests, hprofile, hmetadata⟩ := h old hold
              refine ⟨profile, digests, ?_, ?_⟩
              · rw [RowUpdate.forKey_apply]
                split
                · exact hprofile
                · exact hprofile
              · rw [RowUpdate.forKey_apply]
                split
                · exact hmetadata
                · exact hmetadata
      · exact h

theorem workerPool_registered (hreach : workerPool.Reachable TransitionSystem.anyStep pool) :
    pool.Registered := by
  refine hreach.invariant WorkerPool.Registered (fun pool hinitial => ?_)
    fun pool label pool' _ h _ hstep => ?_
  · rw [show pool = {} from hinitial]
    intro row hrow
    cases hrow
  · obtain rfl := Option.some.inj hstep
    exact h.after label.1

end Pool

/-! ## Submission -/

/-- The requirement that `claim_task` compares with the sets of a worker. -/
def Task.requirement (task : Task) (run : Run) : ExecutionRequirement where
  nodeId := task.nodeId
  executionTarget := task.executionTarget run
  executionClass := task.executionClass
  runtimeDigest := task.runtimeDigest

section Submission

variable {db : Db} {row : WorkflowRow} {runId : Uuid} {executionTarget executionClass : String}

/-- The row of a node is new, and leaves the other nodes without one. -/
theorem insert_newTask {node : Node} {nodeId : String} {rest : List String} {tasks : Table Task}
    (hid : node.id = nodeId) (hother : nodeId ∉ rest)
    (hfresh : ∀ id ∈ nodeId :: rest, tasks.row? (runId, id) = none)
    (executionTarget executionClass : String) (sequence : Nat) (item : ResolvedOperation) :
    ∃ stored, tasks.insert?
        (newTask runId executionTarget executionClass sequence node item) = some stored ∧
      ∀ id ∈ rest, stored.row? (runId, id) = none := by
  subst hid
  obtain ⟨stored, hstored⟩ := @Table.insert?_isSome _ _ _
    (newTask runId executionTarget executionClass sequence node item) _ tasks
    (hfresh node.id List.mem_cons_self)
  refine ⟨stored, hstored, fun id hmem => ?_⟩
  have hne : (runId, node.id) ≠ (runId, id) := by
    intro heq
    exact hother ((Prod.mk.inj heq).2 ▸ hmem)
  rw [Table.row?_insert? hstored]
  exact (if_neg hne).trans (hfresh id (List.mem_cons_of_mem _ hmem))

/-- Both loops stop at the same node with the same error. -/
theorem insertTasks_error {nodes : List (String × Nat)} {error : Exn} (tasks : Table Task)
    (hnodup : (nodes.map Prod.fst).Nodup)
    (hfresh : ∀ nodeId ∈ nodes.map Prod.fst, tasks.row? (runId, nodeId) = none)
    (h : nodeRequirements row executionTarget executionClass (nodes.map Prod.fst) =
      .error error) :
    insertTasks runId row executionTarget executionClass nodes tasks = .error error := by
  induction nodes generalizing tasks with
  | nil => cases h
  | cons head rest ih =>
      obtain ⟨nodeId, sequence⟩ := head
      obtain ⟨hother, hrest⟩ := List.nodup_cons.mp hnodup
      simp only [List.map_cons, nodeRequirements] at h
      split at h
      · next node name item hnode hitem =>
          simp only [insertTasks, hnode, hitem]
          split at h
          · next htarget =>
              rw [if_pos htarget]
              exact congrArg Except.error (Except.error.inj h)
          · next htarget =>
              rw [if_neg htarget]
              have hid : node.id = nodeId := by simpa using List.find?_some hnode
              obtain ⟨stored, hstored, hkept⟩ := insert_newTask hid hother hfresh
                executionTarget executionClass sequence item
              simp only [hstored]
              simp only [bind, Except.bind] at h
              split at h
              · next found hfound =>
                  cases h
                  exact ih stored hrest hkept hfound
              · cases h
      · next hnone =>
          cases h
          simp only [insertTasks]
          split
          · next found node hfound hnode => exact absurd hfound (hnone node _ _ hnode)
          · rfl

/-- Where the requirements are met the task rows carry them, in order. -/
theorem insertTasks_requirements {nodes : List (String × Nat)} (tasks : Table Task)
    (hnodup : (nodes.map Prod.fst).Nodup)
    (hfresh : ∀ nodeId ∈ nodes.map Prod.fst, tasks.row? (runId, nodeId) = none)
    {requirements : List ExecutionRequirement}
    (h : nodeRequirements row executionTarget executionClass (nodes.map Prod.fst) =
      .ok requirements) :
    ∃ tasks' added,
      insertTasks runId row executionTarget executionClass nodes tasks = .ok tasks' ∧
      tasks'.rows = tasks.rows ++ added ∧
      (∀ task ∈ added, task.runId = runId ∧ task.state = .pending) ∧
      ∀ run, added.map (fun task => task.requirement run) = requirements := by
  induction nodes generalizing tasks requirements with
  | nil =>
      cases h
      exact ⟨tasks, [], rfl, by simp, by simp, fun _ => rfl⟩
  | cons head rest ih =>
      obtain ⟨nodeId, sequence⟩ := head
      obtain ⟨hother, hrest⟩ := List.nodup_cons.mp hnodup
      simp only [List.map_cons, nodeRequirements] at h
      split at h
      · next node name item hnode hitem =>
          split at h
          · cases h
          · next htarget =>
              simp only [bind, Except.bind] at h
              split at h
              · cases h
              · next others hothers =>
                  cases h
                  have hid : node.id = nodeId := by simpa using List.find?_some hnode
                  obtain ⟨stored, hstored, hkept⟩ :=
                    insert_newTask hid hother hfresh executionTarget executionClass sequence item
                  obtain ⟨tasks', added, hok, hrows, hpending, hadded⟩ :=
                    ih stored hrest hkept hothers
                  refine ⟨tasks', newTask runId executionTarget executionClass sequence node item ::
                    added, ?_, ?_, ?_, fun run => ?_⟩
                  · simp only [insertTasks, hnode, hitem, if_neg htarget, hstored]
                    exact hok
                  · rw [hrows, Table.insert?_rows hstored, List.append_assoc]
                    rfl
                  · exact List.forall_mem_cons.mpr ⟨⟨rfl, rfl⟩, hpending⟩
                  · rw [List.map_cons, hadded run, ← hid]
                    rfl
      · cases h

/-- A stored workflow has a node and an operation for every requirement. -/
theorem nodeRequirements_error {nodes : List String} {error : Exn}
    (hfound : ∀ nodeId ∈ nodes, (row.definition.node? nodeId).isSome ∧
      (row.resolution.row? nodeId).isSome)
    (h : nodeRequirements row executionTarget executionClass nodes = .error error) :
    error.cls = .contractError := by
  induction nodes with
  | nil => cases h
  | cons nodeId rest ih =>
      obtain ⟨⟨hnode, hitem⟩, hrest⟩ := List.forall_mem_cons.mp hfound
      obtain ⟨node, hnode⟩ := Option.isSome_iff_exists.mp hnode
      obtain ⟨⟨name, item⟩, hitem⟩ := Option.isSome_iff_exists.mp hitem
      simp only [nodeRequirements, hnode, hitem] at h
      split at h
      · cases h
        rfl
      · simp only [bind, Except.bind] at h
        split at h
        · next found hother =>
            cases h
            exact ih hrest hother
        · cases h

end Submission

/-! ## Agreement -/

/-- A worker that is counted admits the target and the class of the requirement. -/
theorem workerSupports_admitted {worker : WorkerHealth} {requirement : ExecutionRequirement}
    {profile : WorkerProfile} {runtimeDigests : List String}
    (hmetadata : worker.row.metadata = profile.metadata runtimeDigests)
    (h : workerSupports worker requirement = true) :
    admitted profile.admission.executionTargets requirement.executionTarget = true ∧
      admitted profile.admission.executionClasses requirement.executionClass = true := by
  have hadmitted : ∀ (values : Option (List String)) (value : String),
      value ∈ sortedStrings (values.getD []).dedup → admitted values value = true := by
    intro values value hmem
    rw [(sortedStrings_perm _).mem_iff, List.mem_dedup] at hmem
    cases values with
    | none => rfl
    | some values => exact decide_eq_true hmem
  simp only [workerSupports, hmetadata, WorkerProfile.metadata, Bool.and_eq_true,
    decide_eq_true_eq] at h
  obtain ⟨-, ⟨htarget, hclass⟩, -⟩ := h
  exact ⟨hadmitted _ _ htarget, hadmitted _ _ hclass⟩

/-- The worker behind every id that `worker_readiness` counts. -/
theorem workerReadiness_compatible {pool : WorkerPool} (hregistered : pool.Registered)
    {now : Time} {staleAfter : Int} {requirements : List ExecutionRequirement}
    {readiness : Readiness}
    (h : workerReadiness pool.workers now staleAfter requirements = .ok readiness)
    {checked : CheckedRequirement} (hchecked : checked ∈ readiness.requirements)
    {workerId : String} (hworker : workerId ∈ checked.compatibleWorkers) :
    checked.requirement ∈ requirements ∧ ∃ profile, pool.worker? workerId = some profile ∧
      admitted profile.admission.executionTargets checked.requirement.executionTarget = true ∧
      admitted profile.admission.executionClasses checked.requirement.executionClass = true := by
  simp only [workerReadiness, workerHealth, bind, Except.bind] at h
  split at h
  · cases h
  · next health hhealth =>
      cases h
      split at hhealth
      · cases hhealth
      · cases hhealth
        obtain ⟨requirement, hrequirement, rfl⟩ := List.mem_map.mp hchecked
        obtain ⟨worker, hcompatible, rfl⟩ := List.mem_map.mp hworker
        obtain ⟨hlisted, hsupports⟩ := List.mem_filter.mp hcompatible
        obtain ⟨row, hrow, rfl⟩ := List.mem_map.mp hlisted
        rw [(List.perm_insertionSort _ _).mem_iff] at hrow
        obtain ⟨profile, digests, hprofile, hmetadata⟩ := hregistered row hrow
        exact ⟨hrequirement, profile, hprofile, workerSupports_admitted hmetadata hsupports⟩

/-- All requirements are checked, and a run is ready when there are some and a worker is
counted for each. -/
theorem workerReadiness_ready {workers : Table WorkerRow} {now : Time} {staleAfter : Int}
    {requirements : List ExecutionRequirement} {readiness : Readiness}
    (h : workerReadiness workers now staleAfter requirements = .ok readiness) :
    readiness.requirements.map CheckedRequirement.requirement = requirements ∧
      (readiness.ready = true ↔ requirements ≠ [] ∧
        ∀ checked ∈ readiness.requirements, checked.compatibleWorkers ≠ []) := by
  simp only [workerReadiness, bind, Except.bind] at h
  split at h
  · cases h
  · next health _ =>
      cases h
      constructor
      · rw [List.map_map]
        exact List.map_id _
      · simp [checkRequirement]

/-- The identifiers of the runs have been drawn. -/
theorem engine_runIds {guard : Db → Operation × Time → Prop} {db : Db}
    (hreach : engine.Reachable guard db) : ∀ run ∈ db.runs.rows, run.id < db.uuids := by
  refine @engine_invariant (fun db => ∀ run ∈ db.runs.rows, run.id < db.uuids) guard db
    (fun run hrun => by cases hrun) ?_ hreach
  intro db now operation db' _ h _ hstep run' hrun'
  rcases hstep.runChanges.new run' hrun' with ⟨run, hrun, hid, -⟩ | ⟨tasks, hadds⟩
  · rw [hid]
    exact (h run hrun).trans_le hstep.grows.uuids
  · obtain ⟨_, _, _, _, hsubmits, hoperation⟩ := hadds.submits
    obtain ⟨_, _, rfl⟩ := hsubmits.run_eq
    cases hstep with
    | quiet hchanges =>
        obtain ⟨old, hold, hsame⟩ | hadded := hchanges.mem_runs.mp hrun'
        · exact absurd (congrArg Run.id hsame) (hadds.fresh old hold)
        · cases hadded
    | submitted _ huuids _ =>
        rw [huuids]
        exact Nat.lt_succ_self _
    | _ => cases hoperation

theorem engine_taskRunIds {guard : Db → Operation × Time → Prop} {db : Db}
    (hreach : engine.Reachable guard db) : ∀ task ∈ db.tasks.rows, task.runId < db.uuids := by
  intro task htask
  obtain ⟨run, hrun⟩ := (engine_integrity hreach).taskRun task htask
  have hlow := engine_runIds hreach run (Table.mem_of_row? hrun)
  rwa [Db.id_of_run? hrun] at hlow

/-- The requirements of a stored workflow are those of the tasks that a submission
stores, or both calls raise the same `ContractError`. -/
theorem submitRun_requirements {db : Db} {row : WorkflowRow} {now : Time}
    (hreach : engine.Reachable TransitionSystem.anyStep db)
    (hrow : row ∈ db.workflowVersions.rows) {inputs : ArtifactIds}
    (haccept : checkSubmission db row.definition none inputs = .ok ())
    (executionTarget : String) (executionClass : Option String) :
    (∀ error, workflowExecutionRequirements db row.workflowId row.version executionTarget
        executionClass = .error error →
      error.cls = .contractError ∧ submitRun db now row.workflowId row.version none inputs
        executionTarget executionClass = .error error) ∧
    (∀ requirements, workflowExecutionRequirements db row.workflowId row.version executionTarget
        executionClass = .ok requirements →
      ∃ db' tasks, submitRun db now row.workflowId row.version none inputs executionTarget
          executionClass = .ok (db.uuids, db') ∧
        db'.uuids = db.uuids + 1 ∧ db'.tasks.rows = db.tasks.rows ++ tasks ∧
        (∀ task ∈ tasks, task.runId = db.uuids ∧ task.state = .pending) ∧
        ∀ run, tasks.map (fun task => task.requirement run) = requirements) := by
  have hintegrity := engine_integrity hreach
  have hsound := hintegrity.workflows row hrow
  have hwf : row.definition.WellFormed := hsound.wellFormed
  have hstored : db.workflowVersions.row? (row.workflowId, row.version) = some row :=
    Table.row?_of_mem hrow
  have hnodes : (topologicalNodes row.definition).zipIdx.map Prod.fst =
      topologicalNodes row.definition := List.zipIdx_map_fst 0 _
  have hnodup : ((topologicalNodes row.definition).zipIdx.map Prod.fst).Nodup := by
    rw [hnodes]
    exact topologicalNodes_nodup hwf
  have hfresh : ∀ nodeId ∈ (topologicalNodes row.definition).zipIdx.map Prod.fst,
      db.tasks.row? (db.uuids, nodeId) = none := by
    intro nodeId _
    by_contra htask
    obtain ⟨task, htask⟩ := Option.ne_none_iff_exists'.mp htask
    have hlow := engine_taskRunIds hreach task (Table.mem_of_row? htask)
    rw [(Db.place_of_task? htask).1] at hlow
    exact absurd hlow (Nat.lt_irrefl _)
  obtain ⟨runs, hruns⟩ : ∃ runs, db.runs.insert?
      (newRun db.uuids row executionTarget now inputs) = some runs := by
    apply Table.insert?_isSome
    by_contra hrun
    obtain ⟨run, hrun⟩ := Option.ne_none_iff_exists'.mp hrun
    have hlow := engine_runIds hreach run (Table.mem_of_row? hrun)
    rw [Db.id_of_run? hrun] at hlow
    exact absurd hlow (Nat.lt_irrefl _)
  constructor
  · intro error herror
    simp only [workflowExecutionRequirements, hstored] at herror
    refine ⟨nodeRequirements_error (fun nodeId hnode => ?_) herror, ?_⟩
    · rw [mem_topologicalNodes hwf] at hnode
      obtain ⟨node, hmem, rfl⟩ := List.mem_map.mp hnode
      obtain ⟨item, hitem⟩ := hsound.nodes node hmem
      refine ⟨?_, by simp [hitem]⟩
      simp only [Workflow.node?, List.find?_isSome]
      exact ⟨node, hmem, by simp⟩
    · rw [← hnodes] at herror
      simp only [submitRun, hstored, haccept, bind, Except.bind, hruns]
      rw [insertTasks_error db.tasks hnodup hfresh herror]
  · intro requirements hok
    simp only [workflowExecutionRequirements, hstored] at hok
    rw [← hnodes] at hok
    obtain ⟨tasks', added, hinsert, hrows, hpending, hadded⟩ :=
      insertTasks_requirements db.tasks hnodup hfresh hok
    refine ⟨{ db with runs := runs, tasks := tasks', uuids := db.uuids + 1 }, added, ?_, rfl,
      hrows, hpending, hadded⟩
    simp only [submitRun, hstored, haccept, bind, Except.bind, hruns]
    rw [hinsert]
    rfl

/-- Readiness, submission and claims agree: an unsupported target stops both calls and
leaves the database alone, otherwise the requirements are those of the stored tasks,
and every worker that is counted for a requirement admits its task, now and later.  A run
is ready when a worker is counted for each of its requirements, so that each of its tasks
is admitted by a worker that is counted. -/
theorem readiness_agrees {db : Db} {row : WorkflowRow}
    (hreach : engine.Reachable TransitionSystem.anyStep db)
    (hrow : row ∈ db.workflowVersions.rows) (now : Time) {inputs : ArtifactIds}
    (haccept : checkSubmission db row.definition none inputs = .ok ())
    (executionTarget : String) (executionClass : Option String) :
    (∀ error, workflowExecutionRequirements db row.workflowId row.version executionTarget
          executionClass = .error error ↔
        submitRun db now row.workflowId row.version none inputs executionTarget
          executionClass = .error error) ∧
    (∀ error, workflowExecutionRequirements db row.workflowId row.version executionTarget
          executionClass = .error error →
        error.cls = .contractError ∧
        (Operation.submitRun row.workflowId row.version none inputs executionTarget
          executionClass).after now db = db) ∧
    ∀ requirements, workflowExecutionRequirements db row.workflowId row.version executionTarget
        executionClass = .ok requirements →
      ∃ db' tasks, submitRun db now row.workflowId row.version none inputs executionTarget
          executionClass = .ok (db.uuids, db') ∧
        db'.tasks.rows = db.tasks.rows ++ tasks ∧
        (∀ task ∈ tasks, task.runId = db.uuids ∧ task.state = .pending) ∧
        (∀ run, tasks.map (fun task => task.requirement run) = requirements) ∧
        ∀ pool, workerPool.Reachable TransitionSystem.anyStep pool →
          ∀ time staleAfter readiness,
          workerReadiness pool.workers time staleAfter requirements = .ok readiness →
          readiness.requirements.map CheckedRequirement.requirement = requirements ∧
          (readiness.ready = true ↔ requirements ≠ [] ∧
            ∀ checked ∈ readiness.requirements, checked.compatibleWorkers ≠ []) ∧
          (∀ checked ∈ readiness.requirements, ∀ workerId ∈ checked.compatibleWorkers,
            ∃ profile, pool.worker? workerId = some profile ∧
              ∀ later, engine.Leads TransitionSystem.anyStep db' later →
                ∀ task ∈ later.tasks.rows, task.runId = db.uuids →
                  task.nodeId = checked.requirement.nodeId →
                  ∀ run, profile.admission.admits task run = true) ∧
          (readiness.ready = true → ∀ later, engine.Leads TransitionSystem.anyStep db' later →
            ∀ task ∈ later.tasks.rows, task.runId = db.uuids →
              ∃ checked ∈ readiness.requirements, checked.requirement.nodeId = task.nodeId ∧
                ∃ workerId ∈ checked.compatibleWorkers, ∃ profile,
                  pool.worker? workerId = some profile ∧
                    ∀ run, profile.admission.admits task run = true) := by
  obtain ⟨herror, hok⟩ := @submitRun_requirements db row now hreach hrow inputs haccept
    executionTarget executionClass
  refine ⟨fun error => ⟨fun h => (herror error h).2, fun h => ?_⟩, fun error h => ?_,
    fun requirements h => ?_⟩
  · cases hresult : workflowExecutionRequirements db row.workflowId row.version executionTarget
        executionClass with
    | error other =>
        rw [(herror other hresult).2] at h
        exact congrArg _ (Except.error.inj h)
    | ok requirements =>
        obtain ⟨_, _, hsubmit, -⟩ := hok requirements hresult
        rw [hsubmit] at h
        cases h
  · obtain ⟨hcls, hsubmit⟩ := herror error h
    refine ⟨hcls, ?_⟩
    simp [Operation.after, perform, hsubmit, Except.map]
  · obtain ⟨db', tasks, hsubmit, huuids, hrows, hpending, hrequirements⟩ := hok requirements h
    refine ⟨db', tasks, hsubmit, hrows, hpending, hrequirements, ?_⟩
    intro pool hpool time staleAfter readiness hready
    obtain ⟨hcovered, hcounted⟩ := workerReadiness_ready hready
    -- a task of the run is one that the submission has stored
    have hstored : ∀ later, engine.Leads TransitionSystem.anyStep db' later →
        ∀ task ∈ later.tasks.rows, task.runId = db.uuids → ∃ old ∈ tasks,
          old.runId = db.uuids ∧ old.nodeId = task.nodeId ∧ task.operation = old.operation := by
      intro later hleads task htask hrun
      obtain ⟨old, hold, holdRun, holdNode, hoperation⟩ :=
        (Db.task_leads hleads (huuids ▸ Nat.lt_succ_self _)).2 task htask hrun
      rw [hrows] at hold
      rcases List.mem_append.mp hold with hbefore | hadded
      · have hlow := engine_taskRunIds hreach old hbefore
        rw [holdRun] at hlow
        exact absurd hlow (Nat.lt_irrefl _)
      · exact ⟨old, hadded, holdRun, holdNode, hoperation⟩
    have hadmits : ∀ checked ∈ readiness.requirements, ∀ workerId ∈ checked.compatibleWorkers,
        ∃ profile, pool.worker? workerId = some profile ∧
          ∀ later, engine.Leads TransitionSystem.anyStep db' later →
            ∀ task ∈ later.tasks.rows, task.runId = db.uuids →
              task.nodeId = checked.requirement.nodeId →
              ∀ run, profile.admission.admits task run = true := by
      intro checked hchecked workerId hworker
      obtain ⟨hmem, profile, hprofile, htarget, hclass⟩ :=
        workerReadiness_compatible (workerPool_registered hpool) hready hchecked hworker
      refine ⟨profile, hprofile, fun later hleads task htask hrun hnode run => ?_⟩
      obtain ⟨old, hadded, holdRun, holdNode, hoperation⟩ := hstored later hleads task htask hrun
      -- the node has one row in the run, so its requirement is the one checked
      have hrequired : old.requirement run = checked.requirement := by
        rw [← hrequirements run] at hmem
        obtain ⟨other, hother, hsame⟩ := List.mem_map.mp hmem
        have hotherNode : other.nodeId = checked.requirement.nodeId := by rw [← hsame]; rfl
        have hkey : (Keyed.key old : Uuid × String) = Keyed.key other := by
          rw [Task.key_eq, Task.key_eq, holdRun, (hpending other hother).1, holdNode, hnode,
            hotherNode]
        have hadded' : ∀ task ∈ tasks, task ∈ db'.tasks.rows := fun task htask => by
          rw [hrows]
          exact List.mem_append_right _ htask
        rw [db'.tasks.eq_of_key_eq (hadded' old hadded) (hadded' other hother) hkey, hsame]
      rw [← hrequired] at htarget hclass
      simp only [Admission.admits, Task.executionTarget, Task.executionClass, hoperation,
        Bool.and_eq_true]
      exact ⟨htarget, hclass⟩
    refine ⟨hcovered, hcounted, hadmits, fun hall later hleads task htask hrun => ?_⟩
    obtain ⟨old, hadded, -, holdNode, -⟩ := hstored later hleads task htask hrun
    have hmem : old.requirement (newRun db.uuids row executionTarget now inputs) ∈
        readiness.requirements.map CheckedRequirement.requirement := by
      rw [hcovered, ← hrequirements (newRun db.uuids row executionTarget now inputs)]
      exact List.mem_map_of_mem hadded
    obtain ⟨checked, hchecked, hsame⟩ := List.mem_map.mp hmem
    have hnode : checked.requirement.nodeId = task.nodeId := by
      rw [hsame, ← holdNode]
      rfl
    obtain ⟨workerId, hworker⟩ :=
      List.exists_mem_of_ne_nil _ ((hcounted.mp hall).2 checked hchecked)
    obtain ⟨profile, hprofile, hadmitted⟩ := hadmits checked hchecked workerId hworker
    exact ⟨checked, hchecked, hnode, workerId, hworker, profile, hprofile,
      hadmitted later hleads task htask hrun hnode.symm⟩

/-- The sample workflow is registered. -/
def registeredPair : Db :=
  engine.after (fun _ _ => true) {} [(.registerWorkflow sampleWorkflow sampleRegistry "digest", 0)]

theorem clusterLease_positive : (0 : Int) < 300 := by decide

def clusterWorker : WorkerProfile where
  kind := .sync
  workerId := "w1"
  leaseSeconds := 300
  admission := ⟨some ["cluster"], some ["batch-hpc"]⟩
  positive := clusterLease_positive

/-- One worker for the cluster. -/
def clusterPool : WorkerPool :=
  workerPool.after (fun _ _ => true) {} [(.construct clusterWorker ["sha256:00"], 0)]

theorem readiness_agrees_cluster :
    ∃ requirements db' readiness,
      workflowExecutionRequirements registeredPair "pair" "1.0.0" "cluster" none =
        .ok requirements ∧
      submitRun registeredPair 1 "pair" "1.0.0" none Table.empty "cluster" none = .ok (0, db') ∧
      workerReadiness clusterPool.workers 1 30000000 requirements = .ok readiness ∧
      readiness.ready = true ∧
      ∀ task ∈ db'.tasks.rows, task.runId = 0 → ∃ workerId profile,
        clusterPool.worker? workerId = some profile ∧
          ∀ run, profile.admission.admits task run = true := by
  have hempty : engine.Reachable (fun _ _ => true = true) {} := .initial rfl
  have hreach : engine.Reachable TransitionSystem.anyStep registeredPair :=
    (hempty.after _).unguarded
  have hidle : workerPool.Reachable (fun _ _ => true = true) {} := .initial rfl
  have hpool : workerPool.Reachable TransitionSystem.anyStep clusterPool :=
    (hidle.after _).unguarded
  obtain ⟨row, hrow, hdefinition⟩ : ∃ row, row ∈ registeredPair.workflowVersions.rows ∧
    (row.definition = sampleWorkflow ∧ row.workflowId = "pair" ∧ row.version = "1.0.0") :=
    ⟨_, List.mem_singleton_self _, rfl, rfl, rfl⟩
  obtain ⟨hworkflow, hid, hversion⟩ := hdefinition
  have haccept : checkSubmission registeredPair row.definition none Table.empty = .ok () := by
    rw [hworkflow]
    rfl
  obtain ⟨-, -, hagree⟩ := readiness_agrees hreach hrow 1 haccept "cluster" none
  rw [hid, hversion] at hagree
  have hrequirements : workflowExecutionRequirements registeredPair "pair" "1.0.0" "cluster" none =
    .ok [⟨"a", "cluster", "batch-hpc", "sha256:00"⟩, ⟨"b", "cluster", "batch-hpc", "sha256:00"⟩] :=
    rfl
  obtain ⟨readiness, hready, hall⟩ : ∃ readiness, workerReadiness clusterPool.workers 1 30000000
      [⟨"a", "cluster", "batch-hpc", "sha256:00"⟩, ⟨"b", "cluster", "batch-hpc", "sha256:00"⟩] =
        .ok readiness ∧ readiness.ready = true :=
    ⟨_, rfl, by decide⟩
  obtain ⟨db', tasks, hsubmit, -, -, -, hworkers⟩ := hagree _ hrequirements
  obtain ⟨-, -, -, hadmitted⟩ := hworkers clusterPool hpool 1 30000000 readiness hready
  refine ⟨_, db', readiness, hrequirements, hsubmit, hready, hall, fun task htask hrun => ?_⟩
  obtain ⟨-, -, -, workerId, -, profile, hprofile, hadmits⟩ :=
    hadmitted hall db' .refl task htask hrun
  exact ⟨workerId, profile, hprofile, hadmits⟩

end QhpcEcosystem
