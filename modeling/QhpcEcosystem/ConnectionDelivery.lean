/-
The connections of a workflow and the artifacts that reach a task.  The edge
loop of `resolve_workflow` counts and checks the connections of a port, the
input loop only counts them, and `_task_request` has one slot for each port.
-/
import QhpcEcosystem.EngineInvariants
import QhpcEcosystem.GraphChecks

namespace QhpcEcosystem

/-! ## Slots -/

section Slots

variable {κ ρ : Type*} [DecidableEq κ] [Keyed ρ κ] {rows : List ρ} {T : Table ρ} {row : ρ}

/-- A key whose rows are all the same row keeps this row. -/
theorem Table.row?_foldl_set_same
    (hsame : ∀ other ∈ rows, (Keyed.key other : κ) = Keyed.key row → other = row)
    (hstart : T.row? (Keyed.key row : κ) = some row ∨ row ∈ rows) :
    (rows.foldl Table.set T).row? (Keyed.key row : κ) = some row := by
  induction rows generalizing T with
  | nil => simpa using hstart
  | cons head rest ih =>
      rw [List.foldl_cons]
      apply ih fun other hother => hsame other (List.mem_cons_of_mem _ hother)
      rw [Table.row?_set]
      by_cases hkey : (Keyed.key head : κ) = Keyed.key row
      · rw [if_pos hkey, hsame head List.mem_cons_self hkey]
        exact .inl rfl
      · rw [if_neg hkey]
        rcases hstart with hfound | hmem
        · exact .inl hfound
        · rcases List.mem_cons.mp hmem with rfl | hmem
          · exact absurd rfl hkey
          · exact .inr hmem

/-- Rows stored one after the other are all found again exactly when no two of
them differ under one key. -/
theorem Table.foldl_set_keeps (rows : List ρ) (T : Table ρ) :
    (∀ row ∈ rows, (rows.foldl Table.set T).row? (Keyed.key row : κ) = some row) ↔
      ∀ row ∈ rows, ∀ other ∈ rows, (Keyed.key row : κ) = Keyed.key other → row = other := by
  constructor
  · intro h row hrow other hother hkey
    have hfound := h row hrow
    rw [hkey, h other hother] at hfound
    exact (Option.some.inj hfound).symm
  · intro h row hrow
    exact Table.row?_foldl_set_same
      (fun other hother hkey => h other hother row hrow hkey) (.inr hrow)

end Slots

/-! ## Connections -/

/-- The ports that the edges feed. -/
def Workflow.edgeTargets (workflow : Workflow) : List (String × String) :=
  workflow.edges.map Edge.targetPort

/-- The ports that the workflow inputs feed. -/
def Workflow.inputTargets (workflow : Workflow) : List (String × String) :=
  workflow.inputs.rows.map inputPort

/-- The node has a port of this name that accepts one artifact. -/
def ResolvedWorkflow.SinglePort (resolved : ResolvedWorkflow) (node port : String) : Prop :=
  ∃ operation input, resolved.operations.row? node = some (node, operation) ∧
    operation.operation.inputs.row? port = some (port, input) ∧ input.isMultiple = false

/-- A port that accepts one artifact has at most one connection. -/
def ResolvedWorkflow.OneConnection (resolved : ResolvedWorkflow) : Prop :=
  ∀ node port, resolved.SinglePort node port →
    (resolved.definition.edgeTargets ++ resolved.definition.inputTargets).count (node, port) ≤ 1

/-- A workflow input of a port that accepts one artifact is alone there. -/
def ResolvedWorkflow.InputsAlone (resolved : ResolvedWorkflow) : Prop :=
  ∀ node port, resolved.SinglePort node port →
    (node, port) ∈ resolved.definition.inputTargets →
    (node, port) ∉ resolved.definition.edgeTargets ∧
      resolved.definition.inputTargets.count (node, port) = 1

section Edges

variable {resolved : Dict String ResolvedOperation} {node port : String}

/-- The edge loop reports a second edge into a port that accepts one artifact. -/
theorem resolveEdges_count {operation : ResolvedOperation} {input : PortDefinition}
    (hnode : resolved.row? node = some (node, operation))
    (hport : operation.operation.inputs.row? port = some (port, input))
    (hsingle : input.isMultiple = false) (edges : List (Edge × Nat))
    (incoming : List (String × String)) (h : (resolveEdges resolved edges incoming).1 = [])
    (hmem : (node, port) ∈ edges.map fun item => (item.1.target.node, item.1.target.port)) :
    incoming.count (node, port) +
      (edges.map fun item => (item.1.target.node, item.1.target.port)).count (node, port) ≤ 1 := by
  induction edges generalizing incoming with
  | nil => cases hmem
  | cons head rest ih =>
      obtain ⟨edge, index⟩ := head
      simp only [resolveEdges, List.append_eq_nil_iff] at h
      obtain ⟨⟨-, hmultiple⟩, hrest⟩ := h
      by_cases hhead : (edge.target.node, edge.target.port) = (node, port)
      · obtain ⟨rfl, rfl⟩ := Prod.mk.inj hhead
        have hcount : countIncoming resolved incoming edge.target.node edge.target.port =
            incoming ++ [(edge.target.node, edge.target.port)] := by
          simp [countIncoming, hnode]
        rw [hcount] at hmultiple hrest
        simp only [multipleIssues, hnode, hport, hsingle, true_and] at hmultiple
        simp only [List.map_cons, List.count_cons_self]
        by_cases hlater : (edge.target.node, edge.target.port) ∈
            rest.map fun item => (item.1.target.node, item.1.target.port)
        · have := ih _ hrest hlater
          simp only [List.count_append, List.count_singleton_self] at this
          omega
        · rw [List.count_eq_zero_of_not_mem hlater]
          split at hmultiple
          · cases hmultiple
          · next hle =>
              simp only [List.count_append, List.count_singleton_self] at hle
              omega
      · have hother : (node, port) ∈
            rest.map fun item => (item.1.target.node, item.1.target.port) := by
          rcases List.mem_cons.mp hmem with heq | hmem
          · exact absurd heq.symm hhead
          · exact hmem
        have hcounted := ih _ hrest hother
        have hkept : incoming.count (node, port) ≤
            (countIncoming resolved incoming edge.target.node edge.target.port).count
              (node, port) := by
          unfold countIncoming
          split
          · simp
          · exact le_rfl
        simp only [List.map_cons, List.count_cons_of_ne hhead]
        omega

end Edges

/-- An accepted workflow has one edge at most into a port that accepts one
artifact. -/
theorem edgeTargets_count {workflow : Workflow} {registry : Registry}
    {resolved : ResolvedWorkflow} (h : resolveWorkflow workflow registry = .ok resolved)
    {node port : String} (hsingle : resolved.SinglePort node port) :
    resolved.definition.edgeTargets.count (node, port) ≤ 1 := by
  obtain ⟨rfl, -, -, hedges, -⟩ := resolveWorkflow_ok h
  obtain ⟨operation, input, hnode, hport, hsingle⟩ := hsingle
  have htargets : resolved.definition.edges.zipIdx.map (fun item =>
      (item.1.target.node, item.1.target.port)) = resolved.definition.edgeTargets := by
    conv_rhs => rw [Workflow.edgeTargets, ← List.zipIdx_map_fst 0 resolved.definition.edges]
    rw [List.map_map]
    rfl
  by_cases hmem : (node, port) ∈ resolved.definition.edgeTargets
  · have hcount := resolveEdges_count hnode hport hsingle _ [] hedges (htargets ▸ hmem)
    rw [htargets] at hcount
    simpa using hcount
  · rw [List.count_eq_zero_of_not_mem hmem]
    omega

theorem oneConnection_iff {workflow : Workflow} {registry : Registry}
    {resolved : ResolvedWorkflow} (h : resolveWorkflow workflow registry = .ok resolved) :
    resolved.OneConnection ↔ resolved.InputsAlone := by
  constructor
  · intro hone node port hsingle hinput
    have hcount := hone node port hsingle
    rw [List.count_append] at hcount
    have hpos := List.count_pos_iff.mpr hinput
    refine ⟨fun hedge => ?_, by omega⟩
    have := List.count_pos_iff.mpr hedge
    omega
  · intro halone node port hsingle
    rw [List.count_append]
    by_cases hinput : (node, port) ∈ resolved.definition.inputTargets
    · obtain ⟨hedge, hcount⟩ := halone node port hsingle hinput
      rw [List.count_eq_zero_of_not_mem hedge, hcount]
    · rw [List.count_eq_zero_of_not_mem hinput]
      exact edgeTargets_count h hsingle

/-! ## Artifacts -/

/-- The artifact that a workflow input delivers to the node, with its port. -/
def Db.suppliedArtifact? (db : Db) (run : Run) (nodeId : String)
    (item : String × WorkflowInput) : Option (String × ArtifactRecord) :=
  if item.2.target.node = nodeId then
    (run.inputs.row? item.1).bind fun supplied =>
      (getArtifact db supplied.2).toOption.map fun record => (item.2.target.port, record)
  else none

/-- The artifact that an edge delivers to the node, with its port. -/
def Db.parentArtifact? (db : Db) (runId : Uuid) (nodeId : String) (edge : Edge) :
    Option (String × ArtifactRecord) :=
  if edge.target.node = nodeId then
    (db.task? runId edge.source.node).bind fun parent =>
      (parent.outputs.row? edge.source.port).bind fun output =>
        (db.artifacts.row? output.2).map fun artifact => (edge.target.port, artifact.record)
  else none

/-- The artifacts that the connections of a node deliver, with their ports. -/
def Db.connectedArtifacts (db : Db) (run : Run) (definition : Workflow) (nodeId : String) :
    List (String × ArtifactRecord) :=
  definition.inputs.rows.filterMap (db.suppliedArtifact? run nodeId) ++
    definition.edges.filterMap (db.parentArtifact? run.id nodeId)

section Artifacts

variable {db : Db} {nodeId : String}

theorem runInputArtifacts_eq {run : Run} {declared : List (String × WorkflowInput)}
    {inputs inputs' : Dict String ArtifactRecord}
    (h : runInputArtifacts db run nodeId declared inputs = .ok inputs') :
    inputs' = (declared.filterMap (db.suppliedArtifact? run nodeId)).foldl Table.set inputs := by
  induction declared generalizing inputs with
  | nil =>
      cases h
      rfl
  | cons item rest ih =>
      obtain ⟨name, input⟩ := item
      simp only [runInputArtifacts] at h
      split at h
      · next hnode =>
          split at h
          · next habsent =>
              rw [ih h]
              simp [Db.suppliedArtifact?, habsent]
          · next found artifactId hfound =>
              simp only [bind, Except.bind] at h
              split at h
              · cases h
              · next record hrecord =>
                  rw [ih h]
                  simp [Db.suppliedArtifact?, hnode, hfound, hrecord, Except.toOption]
      · next hnode =>
          rw [ih h]
          simp [Db.suppliedArtifact?, hnode]

theorem edgeArtifacts_eq {runId : Uuid} {edges : List Edge}
    {inputs inputs' : Dict String ArtifactRecord}
    (h : edgeArtifacts db runId nodeId edges inputs = .ok inputs') :
    inputs' = (edges.filterMap (db.parentArtifact? runId nodeId)).foldl Table.set inputs := by
  induction edges generalizing inputs with
  | nil =>
      cases h
      rfl
  | cons edge rest ih =>
      simp only [edgeArtifacts] at h
      split at h
      · next hnode =>
          split at h
          · cases h
          · next parent hparent =>
              split at h
              · cases h
              · next hport =>
                  split at h
                  · cases h
                  · next artifact hartifact =>
                      rw [ih h]
                      simp [Db.parentArtifact?, hnode, hparent, hport, hartifact]
      · next hnode =>
          rw [ih h]
          simp [Db.parentArtifact?, hnode]

/-- The inputs of a request are the delivered artifacts, stored in their order. -/
theorem taskRequestFor_inputs {runId attemptId : Uuid} {run : Run} {definition : Workflow}
    {request : TaskRequest} (hrun : db.run? runId = some run)
    (hdefinition : db.definition? runId = some definition)
    (h : taskRequestFor db runId nodeId attemptId = .ok request) :
    request.inputs =
      (db.connectedArtifacts run definition nodeId).foldl Table.set Table.empty := by
  have hid := Db.id_of_run? hrun
  subst hid
  obtain ⟨found, stored, task, given, inputs, hfound, hstored, -, hgiven, hinputs, rfl⟩ :=
    taskRequestFor_eq_ok h
  obtain rfl := Option.some.inj (hfound.symm.trans hrun)
  obtain rfl := Option.some.inj (hstored.symm.trans hdefinition)
  rw [edgeArtifacts_eq hinputs, runInputArtifacts_eq hgiven, Db.connectedArtifacts,
    List.foldl_append]

end Artifacts

/-- The connections of an accepted workflow keep to the ports, and a request
holds what every connection delivers, exactly when no workflow input shares a
port that accepts one artifact and no two connections of the node bring
different artifacts to one port. -/
theorem connections_delivered_exactly {db : Db} {workflow : Workflow} {registry : Registry}
    {resolved : ResolvedWorkflow} {runId attemptId : Uuid} {nodeId : String} {run : Run}
    {request : TaskRequest} (hresolved : resolveWorkflow workflow registry = .ok resolved)
    (hrun : db.run? runId = some run) (hdefinition : db.definition? runId = some workflow)
    (hrequest : taskRequestFor db runId nodeId attemptId = .ok request) :
    (resolved.OneConnection ∧
      ∀ item ∈ db.connectedArtifacts run workflow nodeId,
        request.inputs.row? item.1 = some item) ↔
    resolved.InputsAlone ∧
      ∀ item ∈ db.connectedArtifacts run workflow nodeId,
        ∀ other ∈ db.connectedArtifacts run workflow nodeId,
          item.1 = other.1 → item.2 = other.2 := by
  rw [oneConnection_iff hresolved, taskRequestFor_inputs hrun hdefinition hrequest]
  refine and_congr_right fun _ => ?_
  have hkept := Table.foldl_set_keeps (db.connectedArtifacts run workflow nodeId) Table.empty
  simp only [Keyed.key] at hkept
  rw [hkept]
  constructor
  · intro hsame item hitem other hother hport
    rw [hsame item hitem other hother hport]
  · intro hsame item hitem other hother hport
    exact Prod.ext hport (hsame item hitem other hother hport)

/-- The second node of the chain alone, with as many workflow inputs as names, all
of them connected to its port. -/
def sharedPortWorkflow (inputs : Dict String WorkflowInput) : Workflow where
  id := "shared"
  version := "1.0.0"
  nodes := [{ sampleNode "b" with operation := ⟨"sample", "1.0.0", "pass"⟩ }]
  nonempty := by simp
  edges := []
  inputs := inputs
  outputs := Table.empty

def portInput : WorkflowInput := ⟨"data@1", none, ⟨"b", "in"⟩⟩

def soleInput : Dict String WorkflowInput := Table.empty.set ("x", portInput)

def sharedInputs : Dict String WorkflowInput := soleInput.set ("y", portInput)

/-- Two artifacts and a run of the workflow that is given both. -/
def sharedPortRun (inputs : Dict String WorkflowInput) : Db :=
  engine.after (fun _ _ => true) {}
    [(.registerWorkflow (sharedPortWorkflow inputs) chainRegistry "digest", 0),
     (.registerInputArtifact "data@1" "x" "file:///x" "sha256:01" 1, 0),
     (.registerInputArtifact "data@1" "y" "file:///y" "sha256:02" 1, 0),
     (.submitRun "shared" "1.0.0" none
       ((inputs.rows.map Prod.fst).zip [0, 1] |>.foldl Table.set Table.empty) "cluster" none, 0)]

theorem exists_ok {ε α : Type*} {result : Except ε α} (h : result.toOption.isSome = true) :
    ∃ value, result = .ok value := by
  cases result with
  | ok value => exact ⟨value, rfl⟩
  | error error => cases h

/-- With one workflow input the condition holds and so does the delivery. -/
theorem connections_delivered_soleInput :
    ∃ resolved run request,
      resolveWorkflow (sharedPortWorkflow soleInput) chainRegistry = .ok resolved ∧
      taskRequestFor (sharedPortRun soleInput) 2 "b" 0 = .ok request ∧
      resolved.OneConnection ∧
      ∀ item ∈ (sharedPortRun soleInput).connectedArtifacts run (sharedPortWorkflow soleInput) "b",
        request.inputs.row? item.1 = some item := by
  have hdefinition : (sharedPortRun soleInput).definition? 2 =
    some (sharedPortWorkflow soleInput) := rfl
  obtain ⟨run, -, hrun, -, -⟩ := Db.definition?_eq_some.mp hdefinition
  obtain ⟨resolved, hresolved⟩ : ∃ resolved,
    resolveWorkflow (sharedPortWorkflow soleInput) chainRegistry = .ok resolved :=
    exists_ok (by decide)
  obtain ⟨request, hrequest⟩ : ∃ request,
    taskRequestFor (sharedPortRun soleInput) 2 "b" 0 = .ok request := exists_ok (by decide)
  refine ⟨resolved, run, request, hresolved, hrequest, ?_⟩
  apply (connections_delivered_exactly hresolved hrun hdefinition hrequest).mpr
  obtain ⟨hsame, -⟩ := resolveWorkflow_ok hresolved
  constructor
  · rintro node port - hinput
    rw [hsame] at hinput ⊢
    have htargets : (sharedPortWorkflow soleInput).inputTargets = [("b", "in")] := by decide
    rw [htargets, List.mem_singleton] at hinput
    obtain ⟨rfl, rfl⟩ := Prod.mk.inj hinput
    exact ⟨by decide, by decide⟩
  · have hartifacts : (((sharedPortRun soleInput).run? 2).map fun run =>
        ((sharedPortRun soleInput).connectedArtifacts run (sharedPortWorkflow soleInput) "b")) =
        some [("in", ⟨0, "data@1", "file:///x", "sha256:01", 1⟩)] := by decide
    rw [hrun, Option.map_some, Option.some.injEq] at hartifacts
    rw [hartifacts]
    intro item hitem other hother _
    rw [List.mem_singleton.mp hitem, List.mem_singleton.mp hother]

/-- Two workflow inputs may share a port that accepts one artifact, and then the
request holds the artifact of the second only. -/
theorem connection_dropped :
    ∃ resolved run request,
      resolveWorkflow (sharedPortWorkflow sharedInputs) chainRegistry = .ok resolved ∧
      ¬resolved.OneConnection ∧
      engine.Reachable TransitionSystem.anyStep (sharedPortRun sharedInputs) ∧
      (sharedPortRun sharedInputs).run? 2 = some run ∧
      (sharedPortRun sharedInputs).definition? 2 = some (sharedPortWorkflow sharedInputs) ∧
      taskRequestFor (sharedPortRun sharedInputs) 2 "b" 0 = .ok request ∧
      ¬ ∀ item ∈ (sharedPortRun sharedInputs).connectedArtifacts run
          (sharedPortWorkflow sharedInputs) "b",
        request.inputs.row? item.1 = some item := by
  have hdefinition : (sharedPortRun sharedInputs).definition? 2 =
    some (sharedPortWorkflow sharedInputs) := rfl
  obtain ⟨run, -, hrun, -, -⟩ := Db.definition?_eq_some.mp hdefinition
  obtain ⟨resolved, hresolved⟩ : ∃ resolved,
    resolveWorkflow (sharedPortWorkflow sharedInputs) chainRegistry = .ok resolved :=
    exists_ok (by decide)
  obtain ⟨request, hrequest⟩ : ∃ request,
    taskRequestFor (sharedPortRun sharedInputs) 2 "b" 0 = .ok request := exists_ok (by decide)
  have hempty : engine.Reachable (fun _ _ => true = true) {} := .initial rfl
  refine ⟨resolved, run, request, hresolved, ?_, (hempty.after _).unguarded, hrun, hdefinition,
    hrequest, ?_⟩
  · intro hone
    obtain ⟨hsame, -⟩ := resolveWorkflow_ok hresolved
    have hport : ((resolveWorkflow (sharedPortWorkflow sharedInputs) chainRegistry).toOption.bind
        fun resolved => (resolved.operations.row? "b").bind fun item =>
          (item.2.operation.inputs.row? "in").map fun port => (item.1, port)) =
        some ("b", "in", { artifactType := "data@1" }) := by decide
    rw [hresolved] at hport
    simp only [Except.toOption, Option.bind_some, Option.bind_eq_some_iff,
      Option.map_eq_some_iff, Prod.mk.injEq] at hport
    obtain ⟨⟨name, operation⟩, hoperation, ⟨port, input⟩, hinput, rfl, rfl, rfl⟩ := hport
    have hcount := hone _ _ ⟨operation, _, hoperation, hinput, rfl⟩
    rw [hsame] at hcount
    exact absurd hcount (by decide)
  · intro hdelivered
    have hartifacts : (((sharedPortRun sharedInputs).run? 2).map fun run =>
        ((sharedPortRun sharedInputs).connectedArtifacts run
          (sharedPortWorkflow sharedInputs) "b")) =
        some [("in", ⟨0, "data@1", "file:///x", "sha256:01", 1⟩),
          ("in", ⟨1, "data@1", "file:///y", "sha256:02", 1⟩)] := by decide
    rw [hrun, Option.map_some, Option.some.injEq] at hartifacts
    rw [hartifacts] at hdelivered
    have hfirst := hdelivered _ List.mem_cons_self
    have hsecond := hdelivered _ (List.mem_cons_of_mem _ List.mem_cons_self)
    rw [hfirst] at hsecond
    exact absurd hsecond (by decide)

end QhpcEcosystem
