/-
The lineage of results.  An attempt is given the outputs that its parents have
recorded when it is leased.  A retry takes the parents and everything downstream
back, but not the attempts that are live there; while it finds none, and no
succeeded task is stopped or reopened, the parents of a live attempt and of a
succeeded task stay as they are.
-/
import QhpcEcosystem.InputSupply

namespace QhpcEcosystem

/-! ## The steps that break the lineage -/

/-- The sweep makes the task pending again. -/
def Db.reopens (db : Db) (now : Time) (task : Task) : Bool :=
  (db.expiredLease? now task).any fun row => row.expiry = .reopen

/-- A retry finds no live attempt downstream of its node, and no succeeded task is
canceled through a lease or reopened by the sweep. -/
def keepsLineage (db : Db) : Operation × Time → Bool
  | (.retryTask runId nodeId, _) => db.downstreamSettled runId nodeId
  | (.markAttemptCanceled lease _ _, _) =>
      match assertLease db lease, db.task? lease.runId lease.nodeId with
      | .ok _, some task => task.state ≠ .succeeded
      | _, _ => true
  | (.claimTask _ _ _, now) =>
      db.tasks.rows.all fun task => task.state ≠ .succeeded || !db.reopens now task
  | _ => true

/-! ## Parents -/

section Parents

variable {db db' : Db} {now : Time} {operation : Operation}

/-- A succeeded task keeps its state and its outputs until a retry takes it back. -/
theorem Db.TaskChange.succeeded_stays {task task' : Task}
    (hchange : db.TaskChange now operation task task') (htask : task ∈ db.tasks.rows)
    (hguard : keepsLineage db (operation, now) = true) (hsucceeded : task.state = .succeeded) :
    (task'.state = .succeeded ∧ task'.outputs = task.outputs) ∨
    ∃ nodeId definition, operation = .retryTask task.runId nodeId ∧
      db.definition? task.runId = some definition ∧
      task.nodeId ∈ descendants definition nodeId ∧ task'.state = .pending := by
  have hopen : task.state ≠ .running := by simp [hsucceeded]
  have hsweep : ∀ {workerId : String} {leaseSeconds : Int} {admission : Admission},
      keepsLineage db (.claimTask workerId leaseSeconds admission, now) = true →
      ((db.sweepTask now).apply task).state = .succeeded := by
    intro workerId leaseSeconds admission hguard
    simp only [keepsLineage, List.all_eq_true] at hguard
    have hkept := hguard task htask
    simp only [Db.sweepTask]
    split
    · next expired hexpired =>
        simp only [hsucceeded, Db.reopens, hexpired, ne_eq, not_true_eq_false, decide_false,
          Option.any_some, Bool.false_or, Bool.not_eq_true', decide_eq_false_iff_not] at hkept
        cases hexpiry : expired.expiry
        · exact hsucceeded
        · exact hsucceeded
        · exact absurd hexpiry hkept
    · exact hsucceeded
  cases hchange with
  | kept => exact .inl ⟨hsucceeded, rfl⟩
  | renewed _ => exact .inl ⟨hsucceeded, rfl⟩
  | released _ => exact .inl ⟨hsucceeded, rfl⟩
  | attemptCanceled hholds hfound =>
      simp only [keepsLineage, assertLease_eq_ok.mpr hholds, hfound] at hguard
      simp [hsucceeded] at hguard
  | completed _ hrunning _ _ _ _ => exact absurd hrunning hopen
  | failed _ hrunning _ _ => exact absurd hrunning hopen
  | expired hexpired =>
      have hswept := hsweep hguard
      have houtputs := (Task.outputs_sweep db now task).1
      simp only [Db.sweepTask, hexpired] at hswept houtputs
      exact .inl ⟨hswept, houtputs⟩
  | recovered => exact .inl ⟨hsweep hguard, (Task.outputs_sweep db now task).1⟩
  | started hready =>
      have hpending := hready.pending
      rw [hsweep hguard] at hpending
      cases hpending
  | canceled hunfinished =>
      simp [Task.unfinishedIn, hsucceeded] at hunfinished
  | retried hdefinition hnode => exact .inr ⟨_, _, rfl, hdefinition, hnode, rfl⟩

/-- A retry takes back every task downstream of its node, if it does anything. -/
theorem Db.Transition.takesBack {runId : Uuid} {nodeId : String} {definition : Workflow}
    (hstep : db.Transition now (.retryTask runId nodeId) db')
    (hdefinition : db.definition? runId = some definition) :
    db'.tasks.rows = db.tasks.rows ∨ ∀ task ∈ db'.tasks.rows, task.runId = runId →
      task.nodeId ∈ descendants definition nodeId → task.state = .pending := by
  cases hstep with
  | quiet hchanges => exact .inl (by simp [hchanges.tasks, Effect.quiet])
  | retried _ hfound _ hchanges =>
      obtain rfl := Option.some.inj (hdefinition.symm.trans hfound)
      refine .inr fun task htask hrun hnode => ?_
      obtain ⟨old, -, rfl⟩ | hadded := hchanges.mem_tasks.mp htask
      · rw [Task.apply_runId] at hrun
        rw [Task.apply_nodeId] at hnode
        simp [Effect.retry, RowUpdate.onlyIf_apply, hrun, hnode, Task.retry]
      · cases hadded

/-- Something stands on the parents of the node: a live attempt before the step, or
a succeeded task after it. -/
def Db.StandsOn (db db' : Db) (runId : Uuid) (nodeId : String) : Prop :=
  (∃ row ∈ db.taskAttempts.rows, row.runId = runId ∧ row.nodeId = nodeId ∧
    row.state.live = true) ∨
  ∃ task ∈ db'.tasks.rows, task.runId = runId ∧ task.nodeId = nodeId ∧ task.state = .succeeded

/-- A succeeded parent that something stands on keeps its outputs. -/
theorem Db.Transition.parent_kept (hstep : db.Transition now operation db')
    (hintegrity : db.Integrity) (hguard : keepsLineage db (operation, now) = true)
    {runId : Uuid} {definition : Workflow} (hdefinition : db.definition? runId = some definition)
    {edge : Edge} (hedge : edge ∈ definition.edges)
    (hstands : db.StandsOn db' runId edge.target.node) {parent : Task}
    (hparent : db.task? runId edge.source.node = some parent)
    (hsucceeded : parent.state = .succeeded) :
    ∃ parent', db'.task? runId edge.source.node = some parent' ∧ parent'.state = .succeeded ∧
      parent'.outputs = parent.outputs := by
  obtain ⟨hparentRun, hparentNode⟩ := Db.place_of_task? hparent
  obtain ⟨parent', hfound, hchange⟩ := hstep.taskChanges.task? hparent
  rcases hchange.succeeded_stays (Table.mem_of_row? hparent) hguard hsucceeded with
    ⟨hstate, houtputs⟩ | ⟨nodeId, found, rfl, hsame, hnode, hpending⟩
  · exact ⟨parent', hfound, hstate, houtputs⟩
  rw [hparentRun] at hsame hstep hguard
  obtain rfl := Option.some.inj (hdefinition.symm.trans hsame)
  rw [hparentNode] at hnode
  have hbelow : edge.target.node ∈ descendants definition nodeId := by
    rw [mem_descendants] at hnode ⊢
    exact hnode.tail ⟨edge, hedge, rfl, rfl⟩
  exfalso
  rcases hstands with ⟨row, hrow, hrun, hrowNode, hlive⟩ | ⟨task, htask, hrun, htaskNode, hstate⟩
  · have hdead := Db.live_eq_false_of_settled hintegrity hguard hdefinition hedge hnode hrow
      hrun hrowNode
    exact absurd (hlive.symm.trans hdead) Bool.noConfusion
  · rcases hstep.takesBack hdefinition with hsameRows | htaken
    · -- the parent was not taken back either
      have hold := Table.mem_of_row? hfound
      rw [hsameRows] at hold
      have hkept := Table.row?_of_mem hold
      rw [Task.key_eq, (Db.place_of_task? hfound).1, (Db.place_of_task? hfound).2] at hkept
      obtain rfl := Option.some.inj (hkept.symm.trans hparent)
      rw [hsucceeded] at hpending
      cases hpending
    · rw [htaken task htask hrun (by rw [htaskNode]; exact hbelow)] at hstate
      cases hstate

end Parents

/-- Live attempts and succeeded tasks have succeeded parents. -/
structure Db.Grounded (db : Db) : Prop where
  attempts : ∀ row ∈ db.taskAttempts.rows, row.state.live = true →
    db.ParentsSucceeded row.runId row.nodeId
  tasks : ∀ task ∈ db.tasks.rows, task.state = .succeeded →
    db.ParentsSucceeded task.runId task.nodeId

theorem Db.grounded_empty : ({} : Db).Grounded :=
  ⟨fun _ hrow => (by cases hrow), fun _ htask => (by cases htask)⟩

section Step

variable {db db' : Db} {now : Time} {operation : Operation}

theorem Db.ParentsSucceeded.step {runId : Uuid} {nodeId : String}
    (h : db.ParentsSucceeded runId nodeId) (hintegrity : db.Integrity) {run : Run}
    (hrun : db.run? runId = some run) (hguard : keepsLineage db (operation, now) = true)
    (hstep : db.Transition now operation db') (hstands : db.StandsOn db' runId nodeId) :
    db'.ParentsSucceeded runId nodeId := by
  rintro definition hdefinition edge hedge rfl
  rw [hstep.definition?_eq hintegrity hrun] at hdefinition
  obtain ⟨parent, hparent, hsucceeded⟩ := h definition hdefinition edge hedge rfl
  obtain ⟨parent', hparent', hstate, -⟩ :=
    hstep.parent_kept hintegrity hguard hdefinition hedge hstands hparent hsucceeded
  exact ⟨parent', hparent', hstate⟩

theorem Db.Grounded.step (h : db.Grounded) (hintegrity : db.Integrity) (htokens : db.Tokens)
    (hguard : keepsLineage db (operation, now) = true)
    (hstep : db.Transition now operation db') : db'.Grounded where
  attempts row' hrow' hlive := by
    obtain ⟨row, hrow, -, hchange⟩ | hadded := hstep.attemptChanges.new row' hrow'
    · obtain ⟨-, hrun, hnode, -⟩ := hchange.keeps
      have hwaslive := hchange.live htokens hlive
      obtain ⟨owner, howner⟩ := hintegrity.attemptRun hrow
      rw [hrun, hnode]
      exact (h.attempts row hrow hwaslive).step hintegrity howner hguard hstep
        (.inl ⟨row, hrow, rfl, rfl, hwaslive⟩)
    · cases hadded with
      | @started workerId leaseSeconds admission task hready =>
          change db'.ParentsSucceeded task.runId task.nodeId
          obtain ⟨owner, howner⟩ := hready.run_of_sweep
          intro definition hdefinition edge hedge htarget
          rw [hstep.definition?_eq hintegrity howner] at hdefinition
          obtain ⟨parent, hparent, hsucceeded⟩ :=
            hready.parentsSucceeded hintegrity definition hdefinition edge hedge htarget
          obtain ⟨parent', hparent', hchange⟩ := hstep.taskChanges.task? hparent
          rcases hchange.succeeded_stays (Table.mem_of_row? hparent) hguard hsucceeded with
            ⟨hstate, -⟩ | ⟨_, _, hother, -⟩
          · exact ⟨parent', hparent', hstate⟩
          · cases hother
  tasks task' htask' hsucceeded := by
    obtain ⟨task, htask, hrun, hnode, hchange⟩ | ⟨run, tasks, hadds, hadded⟩ :=
      hstep.taskChanges.new task' htask'
    · obtain ⟨owner, howner⟩ := hintegrity.taskRun task htask
      rw [hrun, hnode]
      rcases hchange.outputs with ⟨-, hstate⟩ |
        ⟨lease, result, row, stored, rfl, hplace, -, -, hleased, -⟩ | ⟨_, _, -, -, -, hpending⟩
      · exact (h.tasks task htask (hstate hsucceeded)).step hintegrity howner hguard hstep
          (.inr ⟨task', htask', hrun, hnode, hsucceeded⟩)
      · -- the attempt that completes the task was live
        obtain ⟨hplaceRun, hplaceNode⟩ := Db.place_of_task? hplace
        have hrow := Table.mem_of_row? hleased.found
        have hlive := htokens.held_live hleased
        have hparents := h.attempts row hrow hlive
        rw [hleased.runId, hleased.nodeId, ← hplaceRun, ← hplaceNode] at hparents
        exact hparents.step hintegrity howner hguard hstep (.inl ⟨row, hrow,
          hleased.runId.trans hplaceRun.symm, hleased.nodeId.trans hplaceNode.symm, hlive⟩)
      · rw [hpending] at hsucceeded
        cases hsucceeded
    · obtain ⟨row, -, -, -, hsubmits, -⟩ := hadds.submits
      rw [(hsubmits.pending task' hadded).2] at hsucceeded
      cases hsucceeded

end Step

theorem engine_grounded {db : Db}
    (hreach : engine.Reachable (fun db label => keepsLineage db label = true) db) :
    db.Grounded :=
  engine_invariant Db.grounded_empty
    (fun _ _ _ _ hreach h hguard hstep =>
      h.step (engine_integrity hreach) (engine_tokens hreach) hguard hstep) hreach

/-! ## Inputs -/

/-- The edge is the only one into its port. -/
def Workflow.SoleEdge (definition : Workflow) (edge : Edge) : Prop :=
  (definition.edges.filter fun other =>
    other.target.node = edge.target.node && other.target.port = edge.target.port) = [edge]

theorem Workflow.SoleEdge.mem {definition : Workflow} {edge : Edge}
    (h : definition.SoleEdge edge) : edge ∈ definition.edges := by
  have hmem : edge ∈ definition.edges.filter fun other =>
      other.target.node = edge.target.node && other.target.port = edge.target.port := by
    rw [h]
    exact List.mem_singleton_self edge
  exact (List.mem_filter.mp hmem).1

/-- On every port that one edge feeds, the input is the artifact that the parent,
which has succeeded, has recorded. -/
def Db.Reflects (db : Db) (runId : Uuid) (nodeId : String)
    (inputs : Dict String ArtifactRecord) : Prop :=
  ∀ definition, db.definition? runId = some definition → ∀ edge, definition.SoleEdge edge →
    edge.target.node = nodeId → ∃ parent record,
      db.task? runId edge.source.node = some parent ∧ parent.state = .succeeded ∧
      parent.outputs.row? edge.source.port = some (edge.source.port, record.id) ∧
      inputs.row? edge.target.port = some (edge.target.port, record)

section Inputs

variable {db db' : Db} {now : Time} {operation : Operation} {runId : Uuid} {nodeId : String}

theorem Db.Reflects.step {inputs : Dict String ArtifactRecord}
    (h : db.Reflects runId nodeId inputs) (hintegrity : db.Integrity) {run : Run}
    (hrun : db.run? runId = some run) (hguard : keepsLineage db (operation, now) = true)
    (hstep : db.Transition now operation db') (hstands : db.StandsOn db' runId nodeId) :
    db'.Reflects runId nodeId inputs := by
  rintro definition hdefinition edge hsole rfl
  rw [hstep.definition?_eq hintegrity hrun] at hdefinition
  obtain ⟨parent, record, hparent, hsucceeded, houtput, hinput⟩ :=
    h definition hdefinition edge hsole rfl
  obtain ⟨parent', hparent', hstate, houtputs⟩ :=
    hstep.parent_kept hintegrity hguard hdefinition hsole.mem hstands hparent hsucceeded
  exact ⟨parent', record, hparent', hstate, by rw [houtputs, houtput], hinput⟩

/-- The loop over the edges leaves a port alone that none of them feeds. -/
theorem edgeArtifacts_other {edges : List Edge} {inputs inputs' : Dict String ArtifactRecord}
    {port : String} (h : edgeArtifacts db runId nodeId edges inputs = .ok inputs')
    (hnone : (edges.filter fun other =>
      other.target.node = nodeId && other.target.port = port) = []) :
    inputs'.row? port = inputs.row? port := by
  induction edges generalizing inputs with
  | nil =>
      cases h
      rfl
  | cons edge rest ih =>
      rw [List.filter_eq_nil_iff] at hnone
      have hhead := hnone edge List.mem_cons_self
      have hrest := List.filter_eq_nil_iff.mpr fun other hother =>
        hnone other (List.mem_cons_of_mem _ hother)
      simp only [edgeArtifacts] at h
      split at h
      · next hnode =>
          split at h
          · cases h
          · split at h
            · cases h
            · split at h
              · cases h
              · next artifact _ =>
                  rw [ih h hrest, Table.row?_set]
                  have hne : ¬ edge.target.port = port := by simpa [hnode] using hhead
                  simp [Keyed.key, hne]
      · exact ih h hrest

/-- On a port that one edge feeds it leaves the recorded output of the parent. -/
theorem edgeArtifacts_sole {edges : List Edge} {inputs inputs' : Dict String ArtifactRecord}
    {edge : Edge} (h : edgeArtifacts db runId nodeId edges inputs = .ok inputs')
    (hsole : (edges.filter fun other =>
      other.target.node = nodeId && other.target.port = edge.target.port) = [edge]) :
    ∃ parent record, db.task? runId edge.source.node = some parent ∧
      parent.outputs.row? edge.source.port = some (edge.source.port, record.id) ∧
      inputs'.row? edge.target.port = some (edge.target.port, record) := by
  induction edges generalizing inputs with
  | nil => cases hsole
  | cons head rest ih =>
      rw [List.filter_cons] at hsole
      simp only [edgeArtifacts] at h
      by_cases hinto : (decide (head.target.node = nodeId) &&
          decide (head.target.port = edge.target.port)) = true
      · rw [if_pos hinto, List.cons.injEq] at hsole
        obtain ⟨rfl, hrest⟩ := hsole
        simp only [decide_true, Bool.and_true, decide_eq_true_eq] at hinto
        rw [if_pos hinto] at h
        split at h
        · cases h
        · next parent hparent =>
            split at h
            · cases h
            · next name artifactId hport =>
                split at h
                · cases h
                · next artifact hartifact =>
                    have hname : name = head.source.port := Table.key_of_row? hport
                    have hid : artifact.record.id = artifactId := Table.key_of_row? hartifact
                    refine ⟨parent, artifact.record, hparent, by rw [hport, hname, hid], ?_⟩
                    rw [edgeArtifacts_other h hrest, Table.row?_set]
                    simp [Keyed.key]
      · rw [if_neg hinto] at hsole
        split at h
        · split at h
          · cases h
          · split at h
            · cases h
            · split at h
              · cases h
              · exact ih h hsole
        · exact ih h hsole

/-- A request passes on what the parents have recorded. -/
theorem Db.Grounded.request (h : db.Grounded) {lease : TaskLease} {row : Attempt}
    {request : TaskRequest} (hholds : db.Holds lease row) (hlive : row.state.live = true)
    (hrequest : taskRequest db lease = .ok request) :
    db.Reflects row.runId row.nodeId request.inputs := by
  have hparents := h.attempts row (Table.mem_of_row? hholds.found) hlive
  simp only [taskRequest, assertLease_eq_ok.mpr hholds, bind, Except.bind] at hrequest
  rw [hholds.runId, hholds.nodeId] at hparents ⊢
  obtain ⟨_, found, _, _, _, -, hfound, -, -, hinputs, rfl⟩ := taskRequestFor_eq_ok hrequest
  intro definition hdefinition edge hsole hnode
  obtain rfl := Option.some.inj (hfound.symm.trans hdefinition)
  have hfilter := hsole
  rw [Workflow.SoleEdge, hnode] at hfilter
  obtain ⟨parent, record, hparent, houtput, hinput⟩ := edgeArtifacts_sole hinputs hfilter
  obtain ⟨same, hsame, hsucceeded⟩ := hparents found hdefinition edge hsole.mem hnode
  obtain rfl := Option.some.inj (hparent.symm.trans hsame)
  exact ⟨parent, record, hparent, hsucceeded, houtput, hinput⟩

end Inputs

end QhpcEcosystem
