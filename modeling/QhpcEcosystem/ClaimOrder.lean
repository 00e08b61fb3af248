/-
The order in which claims take up attempts.  `claim_task` prefers attempts to recover
over pending tasks and goes through them in one fixed order.  Neither the lease of an
attempt nor its release moves the attempt in that order.
-/
import QhpcEcosystem.EngineInvariants
import Mathlib.Data.List.Find

namespace QhpcEcosystem

variable {db db' : Db} {now : Time} {admission : Admission}

/-! ## Claims without expired leases -/

/-- No lease has expired at the instant. -/
structure Db.Unexpired (db : Db) (now : Time) : Prop where
  tasks : ∀ task ∈ db.tasks.rows, lapsed now task.leaseExpiresAt = false
  attempts : ∀ attempt ∈ db.taskAttempts.rows, lapsed now attempt.leaseExpiresAt = false

theorem Db.Unexpired.sweep (h : db.Unexpired now) : resetExpiredLeases db now = db := by
  have hnone : db.tasks.rows.filterMap (db.expiredLease? now) = [] := by
    rw [List.filterMap_eq_nil_iff]
    intro task htask
    have hattempt : (db.numberedAttempt? task.runId task.nodeId task.attempt).any
        (fun row => lapsed now row.leaseExpiresAt) = false := by
      cases hfound : db.numberedAttempt? task.runId task.nodeId task.attempt with
      | none => rfl
      | some attempt => exact h.attempts attempt (numberedAttempt?_spec hfound).1
    unfold Db.expiredLease?
    cases db.run? task.runId with
    | none => rfl
    | some run => simp [h.tasks task htask, hattempt]
  simp [resetExpiredLeases, hnone]

/-- The attempts that a worker may recover, in the order of its claims. -/
def Db.recoverables (db : Db) (admission : Admission) : List JoinedAttempt :=
  db.recoverableAttempts.filter fun row => admission.admits row.task row.run

/-- The attempt that the next claim of a worker recovers. -/
def Db.headOfLine? (db : Db) (admission : Admission) : Option JoinedAttempt :=
  db.recoverableAttempts.find? fun row => admission.admits row.task row.run

theorem Db.headOfLine?_eq : db.headOfLine? admission = (db.recoverables admission).head? :=
  (List.head?_filter).symm

theorem Db.nodup_recoverables (db : Db) (admission : Admission) :
    ((db.recoverables admission).map fun row => row.attempt.id).Nodup := by
  have hdrawn := Table.sublist_map_filterMap (db.taskAttempts.rows.filter Attempt.recoverable)
    db.join? (fun row => row.attempt.id) fun attempt _ row hrow =>
      congrArg Attempt.id (join?_spec hrow).1
  have hjoined := (hdrawn.trans (List.filter_sublist.map _)).nodup db.taskAttempts.nodup
  have hsorted : (db.recoverableAttempts.map fun row => row.attempt.id).Nodup :=
    ((List.perm_insertionSort _ _).map _).nodup_iff.mpr hjoined
  exact (List.filter_sublist.map _).nodup hsorted

/-- The test of `claim_task` on a pending task. -/
def Db.isReady (db : Db) (admission : Admission) (task : Task) : Bool :=
  match db.candidate? task, db.definition? task.runId with
  | some (_, run), some definition =>
      admission.admits task run && (parents definition task.nodeId).all fun parent =>
        (db.task? task.runId parent).any fun row => row.state = .succeeded
  | _, _ => false

/-- The pending tasks that a worker may start. -/
def Db.readyTasks (db : Db) (admission : Admission) : List Task :=
  db.tasks.rows.filter (db.isReady admission)

theorem candidate?_eq_some {task : Task} {row : Task × Run} :
    db.candidate? task = some row ↔ ∃ run, row = (task, run) ∧
      db.run? task.runId = some run ∧ task.state = .pending ∧ run.state.live = true := by
  unfold Db.candidate?
  cases hrun : db.run? task.runId with
  | none => simp
  | some run =>
      simp only
      by_cases hready : task.state = .pending ∧ run.state.live = true
      · rw [if_pos hready]
        constructor
        · intro h
          exact ⟨run, (Option.some.inj h).symm, rfl, hready⟩
        · rintro ⟨other, rfl, hother, -⟩
          rw [Option.some.inj hother]
      · rw [if_neg hready]
        constructor
        · intro h
          cases h
        · rintro ⟨other, -, hother, hpending⟩
          rw [Option.some.inj hother] at hready
          exact absurd hpending hready

theorem Db.isReady_iff {task : Task} (htask : task ∈ db.tasks.rows) :
    db.isReady admission task = true ↔ db.Ready admission task := by
  constructor
  · intro h
    unfold Db.isReady at h
    split at h
    · next found run definition hcandidate hdefinition =>
        obtain ⟨other, heq, hrun, hpending, hlive⟩ := candidate?_eq_some.mp hcandidate
        obtain ⟨rfl, rfl⟩ := Prod.mk.inj heq
        simp only [Bool.and_eq_true, List.all_eq_true, Option.any_eq_true,
          decide_eq_true_eq] at h
        exact ⟨htask, hpending, ⟨run, hrun, hlive, h.1⟩, ⟨definition, hdefinition, h.2⟩⟩
    · cases h
  · rintro ⟨-, hpending, ⟨run, hrun, hlive, hadmits⟩, definition, hdefinition, hparents⟩
    have hcandidate : db.candidate? task = some (task, run) :=
      candidate?_eq_some.mpr ⟨run, rfl, hrun, hpending, hlive⟩
    simp only [Db.isReady, hcandidate, hdefinition, hadmits, Bool.true_and, List.all_eq_true,
      Option.any_eq_true, decide_eq_true_eq]
    exact hparents

theorem Db.nodup_readyTasks (db : Db) (admission : Admission) :
    (db.readyTasks admission).Nodup :=
  List.filter_sublist.nodup db.tasks.nodup.of_map

theorem mem_readyTasks {task : Task} :
    task ∈ db.readyTasks admission ↔ db.Ready admission task := by
  constructor
  · intro h
    obtain ⟨hmem, hready⟩ := List.mem_filter.mp h
    exact (Db.isReady_iff hmem).mp hready
  · intro h
    exact List.mem_filter.mpr ⟨h.mem, (Db.isReady_iff h.mem).mpr h⟩

theorem parentsSucceeded_total {runId : Uuid} {nodes : List String}
    (h : ∀ node ∈ nodes, ∃ task, db.task? runId node = some task) :
    parentsSucceeded db runId nodes =
      .ok (nodes.all fun node => (db.task? runId node).any fun row => row.state = .succeeded) := by
  induction nodes with
  | nil => rfl
  | cons node rest ih =>
      obtain ⟨task, htask⟩ := h node List.mem_cons_self
      have hrest := ih fun other hother => h other (List.mem_cons_of_mem _ hother)
      by_cases hstate : task.state = .succeeded
      · simp [parentsSucceeded, htask, hstate, hrest]
      · simp [parentsSucceeded, htask, hstate]

/-- The parents of a task in the definition of its run have tasks. -/
theorem Db.Integrity.parents_tasks (h : db.Integrity) {task : Task} (htask : task ∈ db.tasks.rows)
    {definition : Workflow} (hdefinition : db.definition? task.runId = some definition) :
    ∀ node ∈ parents definition task.nodeId, ∃ row, db.task? task.runId node = some row := by
  intro node hnode
  obtain ⟨run, hrun⟩ := h.taskRun task htask
  obtain ⟨edge, hedge, rfl⟩ := List.mem_map.mp hnode
  have hid := Db.id_of_run? hrun
  have hknown := (h.wellFormed hdefinition).sources edge (List.mem_filter.mp hedge).1
  have htasks := h.nodes run (Table.mem_of_row? hrun) definition (by rw [hid, hdefinition])
  rw [hid] at htasks
  exact htasks _ hknown

/-- The scan of the candidates ends with the first ready task. -/
theorem firstReady_eq (h : db.Integrity) {rows : List (Task × Run)}
    (hrows : ∀ row ∈ rows, row ∈ db.candidates) :
    firstReady db admission rows =
      .ok ((rows.find? fun row => db.isReady admission row.1).map Prod.fst) := by
  induction rows with
  | nil => rfl
  | cons row rest ih =>
      obtain ⟨task, run⟩ := row
      have hrest := ih fun other hother => hrows other (List.mem_cons_of_mem _ hother)
      obtain ⟨htask, hrun, hpending, hlive⟩ := mem_candidates.mp (hrows _ List.mem_cons_self)
      have hcandidate : db.candidate? task = some (task, run) :=
        candidate?_eq_some.mpr ⟨run, rfl, hrun, hpending, hlive⟩
      obtain ⟨definition, hdefinition⟩ := h.definition?_isSome hrun
      have hparents := parentsSucceeded_total (h.parents_tasks htask hdefinition)
      by_cases hadmits : admission.admits task run = true
      · by_cases hready : ((parents definition task.nodeId).all fun node =>
            (db.task? task.runId node).any fun row => row.state = .succeeded) = true
        · have hisReady : db.isReady admission task = true := by
            simp [Db.isReady, hcandidate, hdefinition, hadmits, hready]
          simp [firstReady, hadmits, hdefinition, hparents, hready, hisReady, bind, Except.bind,
            pure, Except.pure]
        · have hisReady : db.isReady admission task = false := by
            simp [Db.isReady, hcandidate, hdefinition, hadmits, hready]
          simp [firstReady, hadmits, hdefinition, hparents, hready, hisReady, bind, Except.bind,
            hrest]
      · have hisReady : db.isReady admission task = false := by
          simp [Db.isReady, hcandidate, hdefinition, hadmits]
        simp [firstReady, hadmits, hisReady, hrest]

theorem insertAttempt?_ne_none (db : Db) {row : Attempt}
    (hnumber : db.numberedAttempt? row.runId row.nodeId row.number = none)
    (hid : db.attempt? row.id = none) : db.insertAttempt? row ≠ none := by
  obtain ⟨attempts, hattempts⟩ := Table.insert?_isSome hid
  simp [Db.insertAttempt?, hnumber, hattempts]

/-- A task can be leased: its next number and the drawn identifier are free. -/
theorem leaseTask_total (h : db.Integrity) (htokens : db.Tokens) {task : Task}
    (htask : task ∈ db.tasks.rows) (workerId : String) (leaseSeconds : Int) :
    ∃ lease db', leaseTask db now workerId leaseSeconds task = .ok (lease, db') := by
  have hnumber : db.numberedAttempt? task.runId task.nodeId (task.attempt + 1) = none := by
    cases hfound : db.numberedAttempt? task.runId task.nodeId (task.attempt + 1) with
    | none => rfl
    | some attempt =>
        obtain ⟨hmem, hrun, hnode, hcounter⟩ := numberedAttempt?_spec hfound
        obtain ⟨found, hplace, hle⟩ := h.attemptTask attempt hmem
        rw [hrun, hnode] at hplace
        have hsame : found = task := Option.some.inj (hplace.symm.trans (Table.row?_of_mem htask))
        rw [hsame] at hle
        omega
  have hid : db.attempt? (db.uuids + 1) = none := by
    rw [Db.attempt?, Table.row?_eq_none_iff]
    intro attempt hattempt hid
    have hbelow := htokens.ids attempt hattempt
    have hid : attempt.id = db.uuids + 1 := hid
    grind
  simp only [leaseTask]
  split
  · next hrefused => exact absurd hrefused (insertAttempt?_ne_none _ hnumber hid)
  · exact ⟨_, _, rfl⟩

section Claims

variable (h : db.Unexpired now) (workerId : String) {leaseSeconds : Int}
  (hpositive : 0 < leaseSeconds)

include h hpositive

/-- A claim recovers the attempt at the head of the line. -/
theorem claimTask_recovers {row : JoinedAttempt} (hrow : db.headOfLine? admission = some row) :
    claimTask db now workerId leaseSeconds admission =
      .ok (some (recoverAttempt db now workerId leaseSeconds row.attempt).1,
        (recoverAttempt db now workerId leaseSeconds row.attempt).2) := by
  have hduration : ¬ leaseSeconds ≤ 0 := not_le.mpr hpositive
  rw [Db.headOfLine?] at hrow
  simp [claimTask, hduration, h.sweep, hrow]

/-- Without an attempt to recover, a claim starts a ready task, if there is one. -/
theorem claimTask_starts (hintegrity : db.Integrity) (htokens : db.Tokens)
    (hnone : db.headOfLine? admission = none) (hready : db.readyTasks admission ≠ []) :
    ∃ task lease db', db.Ready admission task ∧ lease.recovered = false ∧
      leaseTask db now workerId leaseSeconds task = .ok (lease, db') ∧
      claimTask db now workerId leaseSeconds admission = .ok (some lease, db') := by
  have hduration : ¬ leaseSeconds ≤ 0 := not_le.mpr hpositive
  obtain ⟨ready, hmem⟩ := List.exists_mem_of_ne_nil _ hready
  have hready := mem_readyTasks.mp hmem
  obtain ⟨run, hrun, hlive, -⟩ := hready.run
  have hcandidate : (ready, run) ∈ db.candidates :=
    mem_candidates.mpr ⟨hready.mem, hrun, hready.pending, hlive⟩
  have hscan : firstReady db admission db.candidates =
      .ok ((db.candidates.find? fun row => db.isReady admission row.1).map Prod.fst) :=
    firstReady_eq hintegrity fun row hrow => hrow
  cases hfound : db.candidates.find? fun row => db.isReady admission row.1 with
  | none =>
      have hrefused := List.find?_eq_none.mp hfound _ hcandidate
      exact absurd ((Db.isReady_iff hready.mem).mpr hready) hrefused
  | some row =>
      obtain ⟨task, owner⟩ := row
      obtain ⟨htask, -⟩ := mem_candidates.mp (List.mem_of_find?_eq_some hfound)
      have hfirst : db.isReady admission task = true := by simpa using List.find?_some hfound
      have htaskReady := (Db.isReady_iff htask).mp hfirst
      obtain ⟨lease, db', hlease⟩ :=
        leaseTask_total hintegrity htokens htask workerId leaseSeconds
      have hfresh : lease.recovered = false := by
        simp only [leaseTask] at hlease
        split at hlease <;> cases hlease
        rfl
      refine ⟨task, lease, db', htaskReady, hfresh, hlease, ?_⟩
      rw [Db.headOfLine?] at hnone
      rw [hfound, Option.map_some] at hscan
      simp [claimTask, hduration, h.sweep, hnone, hscan, hlease, bind, Except.bind, pure,
        Except.pure]

end Claims

/-! ## The order of claims -/

/-- What admits tasks to workers and orders them is kept, whatever happens to their
states and leases. -/
structure Db.KeepsQueues (db db' : Db) : Prop where
  tasks : ∃ g : RowUpdate Task, db'.tasks.rows = db.tasks.rows.map g.apply ∧
    ∀ task, (g.apply task).sequence = task.sequence ∧ (g.apply task).operation = task.operation
  runs : ∃ h : RowUpdate Run, db'.runs.rows = db.runs.rows.map h.apply ∧
    ∀ run, (h.apply run).executionTarget = run.executionTarget

/-- The rewriting of an attempt keeps its place in the order of claims. -/
structure Attempt.KeepsPlace (f : RowUpdate Attempt) (row : Attempt) : Prop where
  runId : (f.apply row).runId = row.runId
  nodeId : (f.apply row).nodeId = row.nodeId
  startedAt : (f.apply row).startedAt = row.startedAt
  state : (f.apply row).state = .cancelRequested ↔ row.state = .cancelRequested

/-- One attempt is attended to: nothing else happens but to the leases of tasks, and the
attempt keeps its place. -/
structure Db.Attends (db : Db) (attemptId : Uuid) (db' : Db) : Prop extends
    db.KeepsQueues db' where
  attempts : ∃ f : RowUpdate Attempt, db'.taskAttempts.rows =
      db.taskAttempts.rows.map f.apply ∧
    ∀ row ∈ db.taskAttempts.rows, Attempt.KeepsPlace f row ∧
      (row.id ≠ attemptId → f.apply row = row)

namespace Db.KeepsQueues

theorem trans {next : Db} (hfirst : db.KeepsQueues next) (hsecond : next.KeepsQueues db') :
    db.KeepsQueues db' := by
  obtain ⟨⟨g, hg, hkept⟩, ⟨h, hh, htarget⟩⟩ := hfirst
  obtain ⟨⟨g', hg', hkept'⟩, ⟨h', hh', htarget'⟩⟩ := hsecond
  refine ⟨⟨g.andThen g', ?_, fun task => ?_⟩, ⟨h.andThen h', ?_, fun run => ?_⟩⟩
  · rw [hg', hg, List.map_map]
    rfl
  · exact ⟨(hkept' _).1.trans (hkept task).1, (hkept' _).2.trans (hkept task).2⟩
  · rw [hh', hh, List.map_map]
    rfl
  · exact (htarget' _).trans (htarget run)

/-- Attempts of the same place are joined with the same task and run, up to what is not
kept. -/
theorem join? (h : db.KeepsQueues db') (admission : Admission) :
    ∃ (g : RowUpdate Task) (k : RowUpdate Run),
    (∀ task run, (g.apply task).sequence = task.sequence ∧
      admission.admits (g.apply task) (k.apply run) = admission.admits task run) ∧
    ∀ row row' : Attempt, row'.runId = row.runId → row'.nodeId = row.nodeId →
      db'.join? row' = (db.join? row).map fun joined =>
        ⟨row', g.apply joined.task, k.apply joined.run⟩ := by
  obtain ⟨⟨g, hg, hkept⟩, ⟨k, hk, htarget⟩⟩ := h
  refine ⟨g, k, fun task run => ⟨(hkept task).1, ?_⟩, fun row row' hrun hnode => ?_⟩
  · simp [Admission.admits, Task.executionTarget, Task.executionClass, (hkept task).2,
      htarget run]
  · have htask : db'.task? row'.runId row'.nodeId =
        (db.task? row.runId row.nodeId).map g.apply := by
      rw [hrun, hnode, Db.task?, Table.row?_of_rows (hg.trans (List.append_nil _).symm)]
      simp [Db.task?]
    have hruns : ∀ runId, db'.run? runId = (db.run? runId).map k.apply := by
      intro runId
      rw [Db.run?, Table.row?_of_rows (hk.trans (List.append_nil _).symm)]
      simp [Db.run?]
    unfold Db.join?
    rw [htask]
    cases db.task? row.runId row.nodeId with
    | none => rfl
    | some task => simp [hruns, Task.apply_runId, Option.map_map, Function.comp_def]

end Db.KeepsQueues

theorem Db.Changes.keepsQueues {e : Effect} (h : db.Changes e db') (htasks : e.newTasks = [])
    (hruns : e.newRuns = []) (htask : ∀ task, (e.task.apply task).sequence = task.sequence ∧
      (e.task.apply task).operation = task.operation)
    (hrun : ∀ run, (e.run.apply run).executionTarget = run.executionTarget) :
    db.KeepsQueues db' where
  tasks := ⟨e.task, by rw [h.tasks, htasks, List.append_nil], htask⟩
  runs := ⟨e.run, by rw [h.runs, hruns, List.append_nil], hrun⟩

namespace Attempt.KeepsPlace

theorem trans {f g : RowUpdate Attempt} {row : Attempt} (hfirst : KeepsPlace f row)
    (hsecond : KeepsPlace g (f.apply row)) : KeepsPlace (f.andThen g) row where
  runId := hsecond.runId.trans hfirst.runId
  nodeId := hsecond.nodeId.trans hfirst.nodeId
  startedAt := hsecond.startedAt.trans hfirst.startedAt
  state := hsecond.state.trans hfirst.state

theorem forKey {f : RowUpdate Attempt} {attemptId : Uuid} {row : Attempt}
    (h : row.id = attemptId → KeepsPlace f row) :
    KeepsPlace (.forKey attemptId f) row := by
  by_cases hid : row.id = attemptId
  · obtain ⟨hrun, hnode, hstarted, hstate⟩ := h hid
    constructor <;> simpa [RowUpdate.forKey_apply, hid]
  · constructor <;> simp [RowUpdate.forKey_apply, hid]

end Attempt.KeepsPlace

namespace Db.Attends

variable {attemptId : Uuid}

/-- Nothing happens to tasks, runs and attempts. -/
theorem unchanged (hattempts : db'.taskAttempts = db.taskAttempts)
    (htasks : db'.tasks = db.tasks) (hruns : db'.runs = db.runs) (attemptId : Uuid) :
    db.Attends attemptId db' where
  tasks := ⟨.keep, by simp [RowUpdate.keep, htasks], fun _ => ⟨rfl, rfl⟩⟩
  runs := ⟨.keep, by simp [RowUpdate.keep, hruns], fun _ => rfl⟩
  attempts := ⟨.keep, by simp [RowUpdate.keep, hattempts],
    fun _ _ => ⟨⟨rfl, rfl, rfl, Iff.rfl⟩, fun _ => rfl⟩⟩

theorem trans {next : Db} (hfirst : db.Attends attemptId next)
    (hsecond : next.Attends attemptId db') : db.Attends attemptId db' := by
  obtain ⟨hqueues, f, hf, hplace⟩ := hfirst
  obtain ⟨hqueues', f', hf', hplace'⟩ := hsecond
  refine ⟨hqueues.trans hqueues', f.andThen f', by rw [hf', hf, List.map_map]; rfl, ?_⟩
  intro row hrow
  have hmem : f.apply row ∈ next.taskAttempts.rows := by
    rw [hf]
    exact List.mem_map_of_mem hrow
  obtain ⟨hkept, hother⟩ := hplace row hrow
  obtain ⟨hkept', hother'⟩ := hplace' (f.apply row) hmem
  refine ⟨hkept.trans hkept', fun hid => ?_⟩
  have hsame := hother hid
  rw [RowUpdate.andThen_apply, hsame]
  rw [hsame] at hother'
  exact hother' hid

/-- An effect on the row of the attempt that keeps its place. -/
theorem ofChanges {e : Effect} {f : RowUpdate Attempt} (h : db.Changes e db')
    (hattempt : e.attempt = .forKey attemptId f) (hattempts : e.newAttempts = [])
    (htasks : e.newTasks = []) (hruns : e.newRuns = []) (hrun : e.run = .keep)
    (htask : ∀ task, (e.task.apply task).sequence = task.sequence ∧
      (e.task.apply task).operation = task.operation)
    (hplace : ∀ row, db.attempt? attemptId = some row → Attempt.KeepsPlace f row) :
    db.Attends attemptId db' where
  toKeepsQueues := h.keepsQueues htasks hruns htask (by simp [hrun])
  attempts := by
    refine ⟨e.attempt, by rw [h.attempts, hattempts, List.append_nil], fun row hrow => ?_⟩
    rw [hattempt]
    refine ⟨.forKey fun hid => hplace row ?_, fun hid => ?_⟩
    · rw [← hid]
      exact Table.row?_of_mem hrow
    · rw [RowUpdate.forKey_apply]
      exact if_neg hid

/-- The lease of an attempt. -/
theorem recoverAttempt (db : Db) (now : Time) (workerId : String) (leaseSeconds : Int)
    (attempt : Attempt) :
    db.Attends attempt.id (recoverAttempt db now workerId leaseSeconds attempt).2 := by
  refine .ofChanges (recoverAttempt_changes db now workerId leaseSeconds attempt) rfl rfl rfl rfl
    rfl (fun task => ?_) fun _ _ => ⟨rfl, rfl, rfl, Iff.rfl⟩
  simp only [Effect.recover, RowUpdate.forKey_apply]
  split <;> exact ⟨rfl, rfl⟩

/-- The attempts to recover are the same, in the same order, when the attempt that is
attended to is one of them before and after. -/
theorem recoverableAttempts (h : db.Attends attemptId db')
    (hbefore : ∀ row ∈ db.taskAttempts.rows, row.id = attemptId → row.recoverable = true)
    (hafter : ∀ row ∈ db'.taskAttempts.rows, row.id = attemptId → row.recoverable = true)
    (admission : Admission) :
    ∃ k : JoinedAttempt → JoinedAttempt,
      db'.recoverableAttempts = db.recoverableAttempts.map k ∧
      ∀ row ∈ db.recoverableAttempts, (k row).attempt.id = row.attempt.id ∧
        admission.admits (k row).task (k row).run = admission.admits row.task row.run := by
  obtain ⟨f, hf, hplace⟩ := h.attempts
  obtain ⟨g, r, hkept, hjoin⟩ := h.toKeepsQueues.join? admission
  let k : JoinedAttempt → JoinedAttempt := fun row =>
    ⟨f.apply row.attempt, g.apply row.task, r.apply row.run⟩
  have hrecoverable : ∀ row ∈ db.taskAttempts.rows,
      (f.apply row).recoverable = row.recoverable := by
    intro row hrow
    by_cases hid : row.id = attemptId
    · rw [hbefore row hrow hid]
      refine hafter _ ?_ (by rw [Attempt.apply_id, hid])
      rw [hf]
      exact List.mem_map_of_mem hrow
    · rw [(hplace row hrow).2 hid]
  have hfilter : db'.taskAttempts.rows.filter Attempt.recoverable =
      (db.taskAttempts.rows.filter Attempt.recoverable).map f.apply := by
    rw [hf, List.filter_map]
    congr 1
    exact List.filter_congr fun row hrow => hrecoverable row hrow
  have hjoined : (db'.taskAttempts.rows.filter Attempt.recoverable).filterMap db'.join? =
      ((db.taskAttempts.rows.filter Attempt.recoverable).filterMap db.join?).map k := by
    rw [hfilter, List.filterMap_map, List.map_filterMap]
    refine List.filterMap_congr fun row hrow => ?_
    obtain ⟨hmem, -⟩ := List.mem_filter.mp hrow
    obtain ⟨hplaceRow, -⟩ := hplace row hmem
    rw [Function.comp_apply, hjoin row _ hplaceRow.runId hplaceRow.nodeId]
    cases hsome : db.join? row with
    | none => rfl
    | some joined => simp [k, (join?_spec hsome).1]
  refine ⟨k, ?_, fun row _ => ⟨f.key_apply row.attempt, (hkept row.task row.run).2⟩⟩
  rw [Db.recoverableAttempts, hjoined, Db.recoverableAttempts,
    List.map_insertionSort JoinedAttempt.before JoinedAttempt.before k]
  have horder : ∀ x ∈ (db.taskAttempts.rows.filter Attempt.recoverable).filterMap db.join?,
      (k x).rank = x.rank ∧ (k x).attempt.startedAt = x.attempt.startedAt ∧
        (k x).task.sequence = x.task.sequence := by
    intro x hx
    obtain ⟨row, hrow, hjoined⟩ := List.mem_filterMap.mp hx
    obtain ⟨hmem, -⟩ := List.mem_filter.mp hrow
    rw [← (join?_spec hjoined).1] at hmem
    obtain ⟨hplaceRow, -⟩ := hplace x.attempt hmem
    exact ⟨by simp [JoinedAttempt.rank, k, hplaceRow.state], hplaceRow.startedAt,
      (hkept x.task x.run).1⟩
  intro x hx y hy
  obtain ⟨hrank, hstarted, hsequence⟩ := horder x hx
  obtain ⟨hrank', hstarted', hsequence'⟩ := horder y hy
  simp only [JoinedAttempt.before, hrank, hstarted, hsequence, hrank', hstarted', hsequence']

/-- When no attempt was waiting, a task is leased and only its attempt is attended to, that
attempt is the only one that can be at the head of the line. -/
theorem headOfLine?_start {next : Db} {task : Task} {workerId : String} {token : Uuid}
    {expires : Time} (hchanges : db.Changes (.start task workerId attemptId token now expires) next)
    (h : next.Attends attemptId db') (hready : db.Ready admission task)
    (hnone : db.headOfLine? admission = none) {row : Attempt}
    (hrow : db'.attempt? attemptId = some row) (hrecoverable : row.recoverable = true)
    (hrun : row.runId = task.runId) (hnode : row.nodeId = task.nodeId) :
    (db'.headOfLine? admission).map (fun joined => joined.attempt.id) = some attemptId := by
  have hqueues : db.KeepsQueues next := by
    refine hchanges.keepsQueues rfl rfl (fun task => ?_) fun run => ?_
    · simp only [Effect.start, RowUpdate.forKey_apply]
      split <;> exact ⟨rfl, rfl⟩
    · simp only [Effect.start, RowUpdate.forKey_apply]
      split <;> rfl
  obtain ⟨g, k, hkept, hjoin⟩ := (hqueues.trans h.toKeepsQueues).join? admission
  obtain ⟨f, hf, hplace⟩ := h.attempts
  have hunique : ∀ joined ∈ db'.recoverableAttempts,
      admission.admits joined.task joined.run = true → joined.attempt.id = attemptId := by
    intro joined hjoined hadmits
    obtain ⟨hmem, hwaits, hsome⟩ := mem_recoverableAttempts.mp hjoined
    by_contra hother
    rw [hf] at hmem
    obtain ⟨old, hold, heq⟩ := List.mem_map.mp hmem
    have hid : old.id ≠ attemptId := by
      rw [← heq, Attempt.apply_id] at hother
      exact hother
    rw [(hplace old hold).2 hid] at heq
    subst heq
    obtain ⟨source, hsource, hsame⟩ | hadded := hchanges.mem_attempts.mp hold
    · simp only [Effect.start, RowUpdate.keep_apply] at hsame
      subst hsame
      rw [hjoin joined.attempt joined.attempt rfl rfl] at hsome
      obtain ⟨before, hbefore, heq⟩ := Option.map_eq_some_iff.mp hsome
      have hwaiting : before ∈ db.recoverableAttempts := by
        rw [mem_recoverableAttempts]
        have hattempt := (join?_spec hbefore).1
        rw [hattempt]
        exact ⟨hsource, hwaits, hbefore⟩
      have hrefused := List.find?_eq_none.mp hnone before hwaiting
      rw [← heq] at hadmits
      rw [(hkept _ _).2] at hadmits
      exact hrefused hadmits
    · simp only [Effect.start, List.mem_singleton] at hadded
      rw [hadded] at hid
      exact hid rfl
  obtain ⟨run, hfound, -, hadmits⟩ := hready.run
  have htask : db.task? row.runId row.nodeId = some task := by
    rw [hrun, hnode]
    exact Table.row?_of_mem hready.mem
  have hbefore : db.join? row = some ⟨row, task, run⟩ := by
    simp [Db.join?, htask, hfound]
  have hafter : db'.join? row = some ⟨row, g.apply task, k.apply run⟩ := by
    rw [hjoin row row rfl rfl, hbefore]
    rfl
  have hwaiting : ⟨row, g.apply task, k.apply run⟩ ∈ db'.recoverableAttempts :=
    mem_recoverableAttempts.mpr ⟨Table.mem_of_row? hrow, hrecoverable, hafter⟩
  cases hhead : db'.headOfLine? admission with
  | none =>
      have hrefused := List.find?_eq_none.mp hhead _ hwaiting
      rw [(hkept task run).2] at hrefused
      exact absurd hadmits hrefused
  | some joined =>
      have hadmitted : admission.admits joined.task joined.run = true := by
        simpa using List.find?_some hhead
      rw [Option.map_some, hunique joined (List.mem_of_find?_eq_some hhead) hadmitted]

/-- Attending to the attempt at the head of the line leaves it there. -/
theorem headOfLine? (h : db.Attends attemptId db')
    (hbefore : ∀ row ∈ db.taskAttempts.rows, row.id = attemptId → row.recoverable = true)
    (hafter : ∀ row ∈ db'.taskAttempts.rows, row.id = attemptId → row.recoverable = true) :
    (db'.headOfLine? admission).map (fun row => row.attempt.id) =
      (db.headOfLine? admission).map fun row => row.attempt.id := by
  obtain ⟨k, hk, hkept⟩ := h.recoverableAttempts hbefore hafter admission
  rw [Db.headOfLine?, hk, List.find?_map, Db.headOfLine?]
  have hsame : db.recoverableAttempts.find? ((fun row => admission.admits row.task row.run) ∘ k) =
      db.recoverableAttempts.find? fun row => admission.admits row.task row.run :=
    List.find?_congr fun row hrow => (hkept row hrow).2
  rw [hsame, Option.map_map]
  cases hfound : db.recoverableAttempts.find? fun row => admission.admits row.task row.run with
  | none => rfl
  | some row =>
      have hid := (hkept row (List.mem_of_find?_eq_some hfound)).1
      simp [hid]

end Db.Attends

end QhpcEcosystem
