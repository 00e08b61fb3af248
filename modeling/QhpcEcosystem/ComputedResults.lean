/-
Results that are taken.  While the tasks are completed with their values, the
request of a lease in force succeeds and a completion that presents the value goes
through: nothing is missing, unknown or of another type, and no artifact stands in
the way.
-/
import QhpcEcosystem.TaskComputation

namespace QhpcEcosystem

universe u

variable {γ : Type u}

/-! ## Owners of artifacts -/

/-- An artifact belongs to an attempt that has ended. -/
structure Db.ArtifactsEnded (db : Db) : Prop where
  below : ∀ artifact ∈ db.artifacts.rows, artifact.attemptId < db.uuids
  ended : ∀ artifact ∈ db.artifacts.rows, ∀ row ∈ db.taskAttempts.rows,
    row.id = artifact.attemptId → row.state.live = false

section Artifacts

variable {db db' : Db} {now : Time} {operation : Operation}

theorem Db.artifactsEnded_empty : ({} : Db).ArtifactsEnded :=
  ⟨fun _ hartifact => (by cases hartifact), fun _ hartifact => (by cases hartifact)⟩

/-- Artifacts are added by completions, which end the attempt. -/
theorem Db.Transition.new_artifact (hstep : db.Transition now operation db')
    {artifact : Artifact} (hartifact : artifact ∈ db'.artifacts.rows) :
    artifact ∈ db.artifacts.rows ∨ ∃ row ∈ db.taskAttempts.rows, artifact.attemptId = row.id ∧
      ∀ row' ∈ db'.taskAttempts.rows, row'.id = row.id → row'.state.live = false := by
  have hsame : ∀ {base : Db} {e : Effect}, base.Changes e db' →
      base.artifacts.rows = db.artifacts.rows → e.newArtifacts = [] →
      artifact ∈ db.artifacts.rows := by
    intro base e hchanges hbase hnone
    rwa [hchanges.artifacts, hnone, List.append_nil, hbase] at hartifact
  cases hstep with
  | claimed hclaims =>
      have hswept : (resetExpiredLeases db now).artifacts.rows = db.artifacts.rows := by
        rw [(resetExpiredLeases_changes db now).artifacts]
        exact List.append_nil _
      cases hclaims with
      | idle _ _ => exact .inl (hswept ▸ hartifact)
      | recovered _ => exact .inl (hsame (recoverAttempt_changes _ _ _ _ _) hswept rfl)
      | started _ _ hlease => exact .inl (hsame (leaseTask_ok hlease).2.2.2.2.2.2.2.2 hswept rfl)
  | @completed _ _ _ row _ _ _ _ added _ _ _ hleased _ _ _ _ _ howner hchanges =>
      rw [hchanges.artifacts, List.mem_append] at hartifact
      refine hartifact.imp id fun hadded => ⟨row, Table.mem_of_row? hleased.found,
        howner artifact hadded, fun row' hrow' hid => ?_⟩
      have hfound := Table.row?_of_mem hrow'
      rw [Attempt.key_eq, hid, Db.id_of_attempt? hleased.found] at hfound
      obtain rfl := Option.some.inj (hfound.symm.trans (hchanges.attempt?_some hleased.found))
      simp [Effect.complete, Effect.finish, RowUpdate.forKey_apply,
        Db.id_of_attempt? hleased.found, Attempt.succeed, AttemptState.live]
  | quiet hchanges => exact .inl (hsame hchanges rfl rfl)
  | submitted _ _ hchanges => exact .inl (hsame hchanges rfl rfl)
  | renewed _ hchanges => exact .inl (hsame hchanges rfl rfl)
  | marked _ _ hchanges => exact .inl (hsame hchanges rfl rfl)
  | recorded _ _ hchanges => exact .inl (hsame hchanges rfl rfl)
  | observed _ _ hchanges => exact .inl (hsame hchanges rfl rfl)
  | released _ hchanges => exact .inl (hsame hchanges rfl rfl)
  | markedCanceled _ hchanges => exact .inl (hsame hchanges rfl rfl)
  | failed _ _ _ _ hchanges => exact .inl (hsame hchanges rfl rfl)
  | runCanceled _ _ hchanges => exact .inl (hsame hchanges rfl rfl)
  | retried _ _ _ hchanges => exact .inl (hsame hchanges rfl rfl)

theorem Db.ArtifactsEnded.step (h : db.ArtifactsEnded) (htokens : db.Tokens)
    (hstep : db.Transition now operation db') : db'.ArtifactsEnded where
  below artifact hartifact := by
    refine lt_of_lt_of_le ?_ hstep.grows.uuids
    rcases hstep.new_artifact hartifact with hold | ⟨row, hrow, howner, -⟩
    · exact h.below artifact hold
    · rw [howner]
      exact htokens.ids row hrow
  ended artifact hartifact row' hrow' hid := by
    rcases hstep.new_artifact hartifact with hold | ⟨row, -, howner, hended⟩
    · obtain ⟨row, hrow, hsame, hchange⟩ | hadded := hstep.attemptChanges.new row' hrow'
      · by_contra hlive
        have hbefore := hchange.live htokens (by simpa using hlive)
        rw [h.ended artifact hold row hrow (hsame.symm.trans hid)] at hbefore
        cases hbefore
      · have hbelow := h.below artifact hold
        cases hadded with
        | started _ =>
            have hid : db.uuids + 1 = artifact.attemptId := hid
            grind
    · exact hended row' hrow' (hid.trans howner)

theorem engine_artifactsEnded {guard : Db → Operation × Time → Prop}
    (hreach : engine.Reachable guard db) : db.ArtifactsEnded :=
  engine_invariant Db.artifactsEnded_empty
    (fun _ _ _ _ hreach h _ hstep => h.step (engine_tokens hreach) hstep) hreach

/-- The output loop goes through when every output is declared with its type and no
artifact of the attempt is there yet. -/
theorem insertOutputs_total {attempt : Attempt} {declared : Dict String PortDefinition}
    (outputs : List (String × ArtifactResult)) (hnodup : (outputs.map Prod.fst).Nodup)
    (htypes : ∀ item ∈ outputs, ∃ definition, declared.row? item.1 = some (item.1, definition) ∧
      item.2.artifactType = definition.artifactType) {db : Db}
    (hdrawn : ∀ artifact ∈ db.artifacts.rows, artifact.record.id < db.uuids)
    (hfree : ∀ artifact ∈ db.artifacts.rows, artifact.attemptId = attempt.id →
      artifact.port ∉ outputs.map Prod.fst) (outputIds : ArtifactIds) :
    ∃ stored, insertOutputs now attempt declared outputs db outputIds = .ok stored := by
  induction outputs generalizing db outputIds with
  | nil => exact ⟨_, rfl⟩
  | cons output rest ih =>
      obtain ⟨port, artifact⟩ := output
      obtain ⟨hfresh, hrest⟩ := List.nodup_cons.mp hnodup
      obtain ⟨definition, hdeclared, htype⟩ := htypes _ List.mem_cons_self
      dsimp only at hdeclared htype
      have hunused : (db.artifacts.rows.any fun old =>
          old.attemptId = (newArtifact now attempt db.uuids port artifact).attemptId ∧
            old.port = (newArtifact now attempt db.uuids port artifact).port) = false := by
        rw [List.any_eq_false]
        intro old hold hsame
        obtain ⟨howner, hport⟩ := of_decide_eq_true hsame
        exact hfree old hold howner (hport ▸ List.mem_cons_self)
      have hnone : db.artifacts.row?
          (Keyed.key (newArtifact now attempt db.uuids port artifact)) = none := by
        rw [Table.row?_eq_none_iff]
        intro old hold hkey
        have hkey : old.record.id = db.uuids := hkey
        exact absurd hkey (hdrawn old hold).ne
      obtain ⟨artifacts, hartifacts⟩ := Table.insert?_isSome hnone
      have hrows := Table.insert?_rows hartifacts
      simp only [insertOutputs, hdeclared, htype, ne_eq, not_true_eq_false, ↓reduceIte,
        Db.insertArtifact?, hunused, Bool.false_eq_true, hartifacts, Option.map_some]
      refine ih hrest (fun item hitem => htypes item (List.mem_cons_of_mem _ hitem))
        (fun old hold => ?_) (fun old hold howner => ?_) _
      · simp only [hrows, List.mem_append, List.mem_singleton] at hold
        rcases hold with hold | rfl
        · exact (hdrawn old hold).trans (Nat.lt_succ_self _)
        · exact Nat.lt_succ_self _
      · simp only [hrows, List.mem_append, List.mem_singleton] at hold
        rcases hold with hold | rfl
        · exact fun hport => hfree old hold howner (List.mem_cons_of_mem _ hport)
        · exact hfresh

end Artifacts

/-! ## Calls that go through -/

section Total

variable {db : Db} {now : Time} {compute : TaskFunction γ} {read : ArtifactResult → γ}
  {lease : TaskLease} {task : Task} {row : Attempt}

/-- A task that records its value has an output on every declared port. -/
theorem Db.Computes.recordsReads (h : db.Computes compute read) (hintegrity : db.Integrity)
    (htyped : db.Typed) : ∀ task ∈ db.tasks.rows, task.state = .succeeded →
      db.RecordsReads task := by
  intro task htask hsucceeded definition hdefinition port hreads
  obtain ⟨output, houtput⟩ := htyped.declares hintegrity htask hdefinition hreads
  obtain ⟨call, contents, -, -, hcontents⟩ := h.succeeded task htask hsucceeded
  have hfound := Table.row?_of_mem htask
  rw [Task.key_eq] at hfound
  have hport := congrFun hcontents port
  rw [Db.outputContents, show db.task? task.runId task.nodeId = some task from hfound,
    declaredContents, houtput] at hport
  cases hrow : task.outputs.row? port with
  | none => simp [hrow] at hport
  | some item => rfl

/-- The request of a lease in force succeeds. -/
theorem Db.Computes.request (h : db.Computes compute read) (hgrounded : db.Grounded)
    (hintegrity : db.Integrity) (htyped : db.Typed) (htokens : db.Tokens)
    (hholds : db.Holds lease row) : ∃ request, taskRequest db lease = .ok request := by
  have hparents := hgrounded.attempts row (Table.mem_of_row? hholds.found)
    (htokens.held_live hholds.toLeased)
  rw [hholds.runId, hholds.nodeId] at hparents
  have hfed : db.Fed lease.runId lease.nodeId := by
    intro definition hdefinition edge hedge hnode
    obtain ⟨parent, hparent, hsucceeded⟩ := hparents definition hdefinition edge hedge hnode
    obtain ⟨hrun, hsource⟩ := Db.place_of_task? hparent
    refine ⟨parent, hparent, h.recordsReads hintegrity htyped parent (Table.mem_of_row? hparent)
      hsucceeded definition (by rwa [hrun]) _ ?_⟩
    exact Workflow.reads_eq_true.mpr (.inl ⟨edge, hedge, hsource.symm, rfl⟩)
  obtain ⟨request, _, _, _, hrequest, -⟩ := hfed.request hintegrity htyped hholds
  exact ⟨request, hrequest⟩

/-- The lookup by the token of a lease in force finds its attempt. -/
theorem Db.Bears.leasedAttempt? (h : db.Bears lease task row) (htokens : db.Tokens) :
    db.leasedAttempt? lease.runId lease.nodeId lease.token = some row := by
  have hrow := Table.mem_of_row? h.leased.found
  refine find?_eq_some_of_unique hrow
    (by simp [h.leased.runId, h.leased.nodeId, h.leased.token]) fun other hother hsame => ?_
  obtain ⟨-, -, htoken⟩ := of_decide_eq_true hsame
  exact htokens.inj other hother row hrow _ htoken h.leased.token

/-- A result that presents contents omits nothing and adds nothing. -/
theorem TaskResult.Presents.checks {result : TaskResult} {declared : Dict String PortDefinition}
    {contents : String → γ} (h : result.Presents read (outputTypes declared) contents) :
    missingOutputs declared result = [] ∧ unknownOutputs declared result = [] ∧
      (∀ item ∈ declared.rows, (result.outputs.row? item.1).isSome = true) ∧
      ∀ item ∈ result.outputs.rows, ∃ definition,
        declared.row? item.1 = some (item.1, definition) ∧
          item.2.artifactType = definition.artifactType := by
  have hgiven : ∀ item ∈ declared.rows, ∃ artifact,
      result.outputs.row? item.1 = some (item.1, artifact) ∧
        artifact.artifactType = item.2.artifactType := by
    intro item hitem
    have htype : (item.1, item.2.artifactType) ∈ (outputTypes declared).rows := by
      refine Table.mem_of_row? (k := item.1) ?_
      rw [row?_outputTypes, show declared.row? item.1 = some item from Table.row?_of_mem hitem]
      rfl
    obtain ⟨artifact, hartifact, heq, -⟩ := h.declared _ htype
    exact ⟨artifact, hartifact, heq⟩
  have hknown : ∀ item ∈ result.outputs.rows, ∃ definition,
      declared.row? item.1 = some (item.1, definition) := by
    intro item hitem
    have hsome := h.known item hitem
    rw [row?_outputTypes, Option.isSome_map] at hsome
    obtain ⟨⟨name, definition⟩, hfound⟩ := Option.isSome_iff_exists.mp hsome
    obtain rfl : name = item.1 := Table.key_of_row? hfound
    exact ⟨definition, hfound⟩
  have hsome : ∀ item ∈ declared.rows, (result.outputs.row? item.1).isSome = true := by
    intro item hitem
    obtain ⟨artifact, hartifact, -⟩ := hgiven item hitem
    rw [hartifact]
    rfl
  refine ⟨?_, ?_, hsome, fun item hitem => ?_⟩
  · refine List.eq_nil_iff_forall_not_mem.mpr fun name hname => ?_
    obtain ⟨item, hitem, -⟩ := List.mem_map.mp ((sortedStrings_perm _).mem_iff.mp hname)
    obtain ⟨hmem, hmissing⟩ := List.mem_filter.mp hitem
    simp [Option.isSome_iff_ne_none.mp (hsome item hmem)] at hmissing
  · refine List.eq_nil_iff_forall_not_mem.mpr fun name hname => ?_
    obtain ⟨hmem, hunknown⟩ := List.mem_filter.mp ((sortedStrings_perm _).mem_iff.mp hname)
    obtain ⟨item, hitem, rfl⟩ := List.mem_map.mp hmem
    obtain ⟨definition, hfound⟩ := hknown item hitem
    simp [hfound] at hunknown
  · obtain ⟨definition, hfound⟩ := hknown item hitem
    obtain ⟨artifact, hartifact, htype⟩ := hgiven _ (Table.mem_of_row? hfound)
    rw [show result.outputs.row? item.1 = some item from Table.row?_of_mem hitem] at hartifact
    have hsame : item.2 = artifact := congrArg Prod.snd (Option.some.inj hartifact)
    exact ⟨definition, hfound, by rw [hsame]; exact htype⟩

/-- A completion under a lease in force that presents contents goes through. -/
theorem Db.Computes.completes (h : db.Computes compute read) (hintegrity : db.Integrity)
    (htyped : db.Typed) (htokens : db.Tokens) (hartifacts : db.ArtifactsEnded)
    (hbears : db.Bears lease task row) {result : TaskResult} {contents : String → γ}
    (hpresents : result.Presents read (outputTypes task.operation.definition.outputs) contents) :
    ∃ db', completeTask db now lease result = .ok db' := by
  obtain ⟨hmissing, hunknown, hgiven, htypes⟩ := hpresents.checks
  have hrow := Table.mem_of_row? hbears.leased.found
  have hlive := htokens.held_live hbears.leased
  have hfree : ∀ artifact ∈ db.artifacts.rows, artifact.attemptId = row.id →
      artifact.port ∉ result.outputs.rows.map Prod.fst := by
    intro artifact hartifact howner
    have hended := hartifacts.ended artifact hartifact row hrow howner.symm
    rw [hlive] at hended
    cases hended
  have hinserted : ∃ stored, insertOutputs now row task.operation.definition.outputs
      result.outputs.rows db Table.empty = .ok stored :=
    insertOutputs_total _ result.outputs.nodup htypes htyped.drawn hfree _
  obtain ⟨⟨stored, outputIds⟩, hinsert⟩ := hinserted
  have hsupplies : db.resultSupplies lease result = true := by
    unfold Db.resultSupplies
    split
    · next found _ hfound _ =>
        obtain rfl := Option.some.inj (hbears.found.symm.trans hfound)
        simp only [Bool.or_eq_true, List.all_eq_true]
        exact .inr fun item hitem => .inr (hgiven item hitem)
    · rfl
  obtain ⟨db', hfinished⟩ := htyped.finishes hintegrity (h.recordsReads hintegrity htyped)
    hsupplies hbears.found hbears.running hbears.token hinsert hmissing
  refine ⟨db', ?_⟩
  have hid := Db.id_of_attempt? hbears.leased.found
  simp only [completeTask, hbears.found, hbears.running, hbears.token,
    hbears.leasedAttempt? htokens, hid, hmissing, hunknown, hinsert, ne_eq, not_true_eq_false,
    or_self, ↓reduceIte, reduceCtorEq, bind, Except.bind]
  rw [hid] at hfinished
  exact hfinished

end Total

end QhpcEcosystem
