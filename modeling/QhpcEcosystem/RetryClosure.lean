/-
`retry_task` as a whole: the loop over the edges ends in the set of nodes that
the given node reaches, exactly the tasks of these nodes are reset, and a node
without a task leaves the database as it was.
-/
import QhpcEcosystem.Descendants
import QhpcEcosystem.EngineInvariants
import Mathlib.Logic.Function.Iterate

namespace QhpcEcosystem

/-! ## The loop -/

section Loop

variable {edges : List Edge} {found : List String}

/-- A pass over a set that no edge leaves changes nothing. -/
theorem addDescendants_of_closed
    (h : ∀ edge ∈ edges, edge.source.node ∈ found → edge.target.node ∈ found) :
    addDescendants edges found = found := by
  induction edges with
  | nil => rfl
  | cons edge rest ih =>
      have hkept : ¬(edge.source.node ∈ found ∧ edge.target.node ∉ found) :=
        fun hadded => hadded.2 (h edge List.mem_cons_self hadded.1)
      have hrest := ih fun other hother => h other (List.mem_cons_of_mem _ hother)
      simp only [addDescendants, List.foldl_cons, if_neg hkept]
      exact hrest

/-- A pass adds a node once. -/
theorem addDescendants_nodup (h : found.Nodup) : (addDescendants edges found).Nodup := by
  induction edges generalizing found with
  | nil => exact h
  | cons edge rest ih =>
      simp only [addDescendants, List.foldl_cons]
      split
      · next hadded =>
          apply ih
          rw [List.nodup_append]
          refine ⟨h, List.nodup_singleton _, fun node hnode other hother => ?_⟩
          rw [List.mem_singleton.mp hother]
          intro heq
          exact hadded.2 (heq ▸ hnode)
      · exact ih h

theorem closeDescendants_nodup {fuel : Nat} (h : found.Nodup) :
    (closeDescendants edges fuel found).Nodup := by
  induction fuel generalizing found with
  | zero => exact h
  | succ fuel ih =>
      simp only [closeDescendants]
      split
      · exact h
      · exact ih (addDescendants_nodup h)

theorem closeDescendants_iterate (edges : List Edge) (fuel : Nat) (found : List String) :
    ∃ passes, closeDescendants edges fuel found = (addDescendants edges)^[passes] found := by
  induction fuel generalizing found with
  | zero => exact ⟨0, rfl⟩
  | succ fuel ih =>
      simp only [closeDescendants]
      split
      · exact ⟨0, rfl⟩
      · obtain ⟨passes, hpasses⟩ := ih (addDescendants edges found)
        refine ⟨passes + 1, ?_⟩
        rw [hpasses, Function.iterate_succ_apply]

end Loop

theorem descendants_nodup (definition : Workflow) (nodeId : String) :
    (descendants definition nodeId).Nodup :=
  closeDescendants_nodup (List.nodup_singleton nodeId)

/-- The loop stops: its result is the set after some passes, and one more pass
changes nothing. -/
theorem descendants_settled (definition : Workflow) (nodeId : String) :
    (∃ passes, descendants definition nodeId =
      (addDescendants definition.edges)^[passes] [nodeId]) ∧
    addDescendants definition.edges (descendants definition nodeId) =
      descendants definition nodeId := by
  constructor
  · exact closeDescendants_iterate definition.edges _ [nodeId]
  · apply addDescendants_of_closed
    intro edge hedge hsource
    rw [mem_descendants] at hsource ⊢
    exact hsource.tail ⟨edge, hedge, rfl, rfl⟩

/-! ## The events -/

/-- The event that `retry_task` appends for a task. -/
def Task.retryEvent (now : Time) (task : Task) : Event where
  runId := task.runId
  nodeId := task.nodeId
  attemptId := none
  correlationId := task.runId
  eventType := "task.retry-requested"
  source := "workflow-engine"
  executionClass := task.operation.executionClass
  targetHandle := none
  stage := none
  state := some "pending"
  recordedAt := now
  durationMs := none
  details := [("completed_attempts", .number (.int task.attempt))]

@[simp] theorem Task.retryEvent_retry (now : Time) (task : Task) :
    (Task.retry.apply task).retryEvent now = task.retryEvent now := rfl

section Events

variable {db : Db} {now : Time} {runId : Uuid}

theorem appendRetryEvents_eq {tasks : List Task}
    (h : ∀ task ∈ tasks, db.task? runId task.nodeId = some task) :
    appendRetryEvents now runId (tasks.map Task.nodeId) db = .ok { db with
      executionEvents := db.executionEvents ++ tasks.map (Task.retryEvent now) } := by
  induction tasks generalizing db with
  | nil => simp [appendRetryEvents]
  | cons task rest ih =>
      have htask := h task List.mem_cons_self
      obtain ⟨rfl, -⟩ := Db.place_of_task? htask
      have happended : db.appendEvent task.runId task.nodeId none "task.retry-requested" now none
          (some "pending") none [("completed_attempts", .number (.int task.attempt))] =
          { db with executionEvents := db.executionEvents ++ [task.retryEvent now] } := by
        simp [Db.appendEvent, Task.retryEvent, htask]
      simp only [List.map_cons, appendRetryEvents, htask]
      have hrest := @ih
        { db with executionEvents := db.executionEvents ++ [task.retryEvent now] }
        fun other hother => h other (List.mem_cons_of_mem _ hother)
      rw [happended, hrest]
      simp

end Events

/-! ## The call -/

/-- The task is one of the run, for the node or one downstream of it. -/
def Task.Downstream (definition : Workflow) (runId : Uuid) (nodeId : String)
    (task : Task) : Prop :=
  task.runId = runId ∧ Relation.ReflTransGen definition.Feeds nodeId task.nodeId

/-- The database after a retry, field by field. -/
structure Db.Retried (db : Db) (now : Time) (definition : Workflow) (runId : Uuid)
    (nodeId : String) (db' : Db) : Prop where
  present : ∀ node, Relation.ReflTransGen definition.Feeds nodeId node →
    ∃ task, db.task? runId node = some task
  tasks : List.Forall₂ (fun task task' =>
      (task.Downstream definition runId nodeId → task' = { task with
        state := .pending
        outputs := Table.empty
        error := none
        finishedAt := none
        leaseToken := none
        leaseExpiresAt := none }) ∧
      (¬task.Downstream definition runId nodeId → task' = task))
    db.tasks.rows db'.tasks.rows
  runs : db'.runs.rows = db.runs.rows.map fun run =>
    if run.id = runId then
      { run with state := .queued, finishedAt := none, outputs := Table.empty }
    else run
  events : ∃ reset : List Task, (reset.map Task.nodeId).Nodup ∧
    (∀ task, task ∈ reset ↔ task ∈ db.tasks.rows ∧ task.Downstream definition runId nodeId) ∧
    db'.executionEvents = db.executionEvents ++ reset.map (Task.retryEvent now)
  taskAttempts : db'.taskAttempts = db.taskAttempts
  artifacts : db'.artifacts = db.artifacts
  inputArtifacts : db'.inputArtifacts = db.inputArtifacts
  workflowVersions : db'.workflowVersions = db.workflowVersions
  uuids : db'.uuids = db.uuids

section Call

variable {db : Db} {runId : Uuid} {nodeId : String} {definition : Workflow}

/-- Where a node of a run has a task, so have the nodes downstream of it. -/
theorem Db.Integrity.task_of_feeds (h : db.Integrity)
    (hdefinition : db.definition? runId = some definition) {task : Task}
    (htask : db.task? runId nodeId = some task) {node : String}
    (hnode : Relation.ReflTransGen definition.Feeds nodeId node) :
    ∃ found, db.task? runId node = some found := by
  obtain ⟨run, row, hrun, -, -⟩ := Db.definition?_eq_some.mp hdefinition
  have hid := Db.id_of_run? hrun
  subst hid
  induction hnode with
  | refl => exact ⟨task, htask⟩
  | tail _ hfeeds _ =>
      obtain ⟨edge, hedge, -, rfl⟩ := hfeeds
      exact h.nodes run (Table.mem_of_row? hrun) definition hdefinition _
        ((h.wellFormed hdefinition).targets edge hedge)

/-- The rows of the nodes of a set that have a task, in the order of the set. -/
def Db.nodeTasks (db : Db) (runId : Uuid) (nodes : List String) : List Task :=
  nodes.filterMap (db.task? runId)

theorem map_nodeId_nodeTasks {nodes : List String}
    (h : ∀ node ∈ nodes, ∃ task, db.task? runId node = some task) :
    (db.nodeTasks runId nodes).map Task.nodeId = nodes := by
  induction nodes with
  | nil => rfl
  | cons node rest ih =>
      obtain ⟨task, htask⟩ := h node List.mem_cons_self
      have hrest := ih fun other hother => h other (List.mem_cons_of_mem _ hother)
      have hnode := (Db.place_of_task? htask).2
      simp only [Db.nodeTasks] at hrest
      simp [Db.nodeTasks, htask, hnode, hrest]

theorem mem_nodeTasks {nodes : List String} {task : Task} :
    task ∈ db.nodeTasks runId nodes ↔
      task ∈ db.tasks.rows ∧ task.runId = runId ∧ task.nodeId ∈ nodes := by
  simp only [Db.nodeTasks, List.mem_filterMap]
  constructor
  · rintro ⟨node, hnode, htask⟩
    obtain ⟨hrun, rfl⟩ := Db.place_of_task? htask
    exact ⟨Table.mem_of_row? htask, hrun, hnode⟩
  · rintro ⟨hmem, rfl, hnode⟩
    exact ⟨task.nodeId, hnode, Table.row?_of_mem hmem⟩

/-- What a retry of a node with a task leaves. -/
theorem retryTask_retried (now : Time) (h : db.Integrity)
    (hdefinition : db.definition? runId = some definition) {task : Task}
    (htask : db.task? runId nodeId = some task) :
    ∃ db', retryTask db now runId nodeId = .ok db' ∧
      db.Retried now definition runId nodeId db' := by
  obtain ⟨run, -, hrun, -, -⟩ := Db.definition?_eq_some.mp hdefinition
  have hpresent : ∀ node, Relation.ReflTransGen definition.Feeds nodeId node →
      ∃ found, db.task? runId node = some found :=
    fun node hnode => h.task_of_feeds hdefinition htask hnode
  let nodes := descendants definition nodeId
  let reset := db.nodeTasks runId (sortedStrings nodes)
  have hnodes : reset.map Task.nodeId = sortedStrings nodes :=
    map_nodeId_nodeTasks fun node hnode =>
      hpresent node (mem_descendants.mp ((sortedStrings_perm _).mem_iff.mp hnode))
  have hreset : ∀ row, row ∈ reset ↔
      row ∈ db.tasks.rows ∧ row.Downstream definition runId nodeId := by
    intro row
    rw [mem_nodeTasks, (sortedStrings_perm _).mem_iff, mem_descendants]
    rfl
  let stored := db.updateTasksWhere (fun row => row.runId = runId && row.nodeId ∈ nodes) Task.retry
  have hstored : ∀ row ∈ reset.map Task.retry.apply,
      stored.task? runId row.nodeId = some row := by
    intro row hrow
    obtain ⟨old, hold, rfl⟩ := List.mem_map.mp hrow
    obtain ⟨hmem, rfl, hnode⟩ := mem_nodeTasks.mp hold
    have hfound : db.task? old.runId old.nodeId = some old := Table.row?_of_mem hmem
    have hselected := (sortedStrings_perm _).mem_iff.mp hnode
    simp only [stored, Db.task?, Db.updateTasksWhere, Table.row?_updateWhere,
      Task.apply_nodeId]
    simp only [Db.task?] at hfound
    simp [hfound, hselected]
  have hmapped : (reset.map Task.retry.apply).map Task.nodeId = sortedStrings nodes := by
    rw [← hnodes, List.map_map]
    rfl
  have hevents := @appendRetryEvents_eq stored now runId _ hstored
  rw [hmapped] at hevents
  let appended : Db := { stored with executionEvents :=
    stored.executionEvents ++ (reset.map Task.retry.apply).map (Task.retryEvent now) }
  refine ⟨appended.updateRun runId Run.requeue, ?_, hpresent, ?_, ?_, ⟨reset, ?_, hreset, ?_⟩,
    rfl, rfl, rfl, rfl, rfl⟩
  · simp only [retryTask, hrun, hdefinition, bind, Except.bind]
    rw [hevents]
    rfl
  · simp only [Db.updateRun, appended, stored, Db.updateTasksWhere, Table.rows_updateWhere]
    rw [List.forall₂_map_right_iff, List.forall₂_same]
    intro row _
    rw [RowUpdate.onlyIf_apply]
    have hselected : (row.runId = runId && row.nodeId ∈ nodes) = true ↔
        row.Downstream definition runId nodeId := by
      simp only [Bool.and_eq_true, decide_eq_true_eq, nodes, mem_descendants, Task.Downstream]
    constructor
    · intro hdown
      rw [if_pos (hselected.mpr hdown)]
      rfl
    · intro hother
      rw [if_neg fun hdown => hother (hselected.mp hdown)]
  · simp only [Db.updateRun, appended, stored, Db.updateTasksWhere, Table.rows_update]
    refine List.map_congr_left fun other _ => ?_
    rw [RowUpdate.forKey_apply]
    rfl
  · rw [hnodes]
    exact (sortedStrings_perm _).nodup_iff.mpr (descendants_nodup definition nodeId)
  · simp only [Db.updateRun, appended, stored, Db.updateTasksWhere, List.map_map]
    rfl

end Call

/-- Retry of any node in any state of the engine: the loop ends whatever the
edges are, a node without a task changes nothing, and a node with one resets
exactly what it reaches. -/
theorem retryTask_resets_closure {db : Db} (h : engine.Reachable TransitionSystem.anyStep db)
    (now : Time) (runId : Uuid) (nodeId : String) :
    (∀ workflow : Workflow, ∃ passes,
      descendants workflow nodeId = (addDescendants workflow.edges)^[passes] [nodeId] ∧
      addDescendants workflow.edges (descendants workflow nodeId) =
        descendants workflow nodeId) ∧
    (db.task? runId nodeId = none →
      (∃ error, retryTask db now runId nodeId = .error error) ∧
      (Operation.retryTask runId nodeId).after now db = db) ∧
    (∀ task, db.task? runId nodeId = some task →
      ∃ definition db', db.definition? runId = some definition ∧
        retryTask db now runId nodeId = .ok db' ∧
        (Operation.retryTask runId nodeId).after now db = db' ∧
        db.Retried now definition runId nodeId db') := by
  have hintegrity := engine_integrity h
  refine ⟨fun workflow => ?_, fun hnone => ?_, fun task htask => ?_⟩
  · obtain ⟨⟨passes, hpasses⟩, hsettled⟩ := descendants_settled workflow nodeId
    exact ⟨passes, hpasses, hsettled⟩
  · cases hresult : retryTask db now runId nodeId with
    | error error =>
        refine ⟨⟨error, rfl⟩, ?_⟩
        simp [Operation.after, perform, hresult, Except.map]
    | ok db' =>
        obtain ⟨_, definition, -, -, hnodes, -⟩ := retryTask_ok hresult
        obtain ⟨task, htask⟩ := hnodes nodeId (mem_descendants.mpr .refl)
        rw [hnone] at htask
        cases htask
  · obtain ⟨hrunId, -⟩ := Db.place_of_task? htask
    obtain ⟨run, hrun⟩ := hintegrity.taskRun task (Table.mem_of_row? htask)
    rw [hrunId] at hrun
    obtain ⟨definition, hdefinition⟩ := hintegrity.definition?_isSome hrun
    obtain ⟨db', hok, hretried⟩ := retryTask_retried now hintegrity hdefinition htask
    refine ⟨definition, db', hdefinition, hok, ?_, hretried⟩
    simp [Operation.after, perform, hok, Except.map]

/-- The chain after the first attempt at node "a" has failed. -/
def failedChain : Db :=
  engine.after (fun _ _ => true) {} (chainSubmission ++
    [(sampleClaim "w1", 1),
     (.failTask (sampleLease 2 1 1 "w1" 300000001 .leased none) (runtimeError "boom"), 2)])

theorem retryTask_resets_closure_chain :
    (failedChain.tasks.rows.map fun task => (task.nodeId, task.state)) =
      [("a", .failed), ("b", .pending)] ∧
    (∃ definition db', retryTask failedChain 3 0 "a" = .ok db' ∧
      failedChain.Retried 3 definition 0 "a" db') ∧
    (∃ error, retryTask failedChain 3 0 "c" = .error error) := by
  have hempty : engine.Reachable (fun _ _ => true = true) {} := .initial rfl
  have hreach : engine.Reachable TransitionSystem.anyStep failedChain :=
    (hempty.after _).unguarded
  have htask : (failedChain.task? 0 "a").isSome = true := by decide
  obtain ⟨task, htask⟩ := Option.isSome_iff_exists.mp htask
  obtain ⟨-, -, hretried⟩ := retryTask_resets_closure hreach 3 0 "a"
  obtain ⟨-, hraises, -⟩ := retryTask_resets_closure hreach 3 0 "c"
  obtain ⟨definition, db', -, hok, -, hretried⟩ := hretried task htask
  have hnone : (failedChain.task? 0 "c").isNone = true := by decide
  exact ⟨by decide, ⟨definition, db', hok, hretried⟩,
    (hraises (Option.isNone_iff_eq_none.mp hnone)).1⟩

end QhpcEcosystem
