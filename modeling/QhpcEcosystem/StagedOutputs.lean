/-
What the job of a task finds at its inputs.  A call of `_stage_inputs` that returns has checked
every port, so where the ports are kept apart the file of a port holds the bytes of the output
that the record of its artifact describes, whatever has happened to the work directories.
-/
import QhpcEcosystem.CollectedOutputs

namespace QhpcEcosystem

/-! ## Calls that raise -/

section Raising

variable {ε α β : Type}

theorem ok_of_bind {result : Except ε α} {next : α → Except ε β} {b : β}
    (h : result.bind next = .ok b) : ∃ a, result = .ok a ∧ next a = .ok b := by
  cases result with
  | error message => cases h
  | ok a => exact ⟨a, rfl, h⟩

theorem ok_of_map {result : Except ε α} {f : α → β} {b : β} (h : result.map f = .ok b) :
    ∃ a, result = .ok a ∧ f a = b := by
  cases result with
  | error message => cases h
  | ok a => exact ⟨a, rfl, Except.ok.inj h⟩

theorem ok_of_guard {refused : Prop} [Decidable refused] {message : ε} {result : Except ε α}
    {a : α} (h : (if refused then .error message else result) = .ok a) :
    ¬ refused ∧ result = .ok a := by
  by_cases hrefused : refused
  · rw [if_pos hrefused] at h
    cases h
  · rw [if_neg hrefused] at h
    exact ⟨hrefused, h⟩

end Raising

/-! ## The checks of a call -/

/-- The first ports have passed their checks with these inputs. -/
structure InputStaging.Passed (staging : InputStaging) (count : Nat) (inputs : List PortInput)
    (total : Nat) : Prop where
  supplied : List.Forall₂ staging.Supplies (staging.ports.rows.take count) inputs
  total_eq : total = (inputs.map (·.contents.length)).sum
  limit : total ≤ staging.maxTaskInputBytes

/-- What a call has checked; one that returns has checked all. -/
def InputStaging.HasChecked (staging : InputStaging) : StagingPhase → Prop
  | .idle | .raised _ => True
  | .checking index total => ∃ inputs, staging.Passed index inputs total
  | .making index total _ _ | .comparing index total _ | .copying index total _ _ =>
      ∃ inputs, staging.Passed (index + 1) inputs total
  | .returned => ∃ inputs, staging.Intact inputs

section Checks

variable {staging : InputStaging} {s s' : StagingState}

theorem checkInput_eq_ok {port containerPath : String} {total total' : Nat} {input : PortInput}
    (h : staging.checkInput port containerPath total = .ok (input, total')) :
    staging.Supplies (port, containerPath) input ∧ total' = total + input.contents.length ∧
      total' ≤ staging.maxTaskInputBytes := by
  simp only [InputStaging.checkInput] at h
  cases hrow : staging.inputs.row? port with
  | none =>
      rw [hrow] at h
      cases h
  | some row =>
      obtain ⟨name, artifact⟩ := row
      obtain rfl : name = port := Table.key_of_row? hrow
      simp only [hrow] at h
      obtain ⟨contents, hfile, h⟩ := ok_of_bind h
      obtain ⟨hlimit, h⟩ := ok_of_guard h
      obtain ⟨hchecksum, h⟩ := ok_of_guard h
      obtain ⟨hsize, h⟩ := ok_of_guard h
      obtain ⟨path, hpath, h⟩ := ok_of_map h
      cases h
      refine ⟨⟨rfl, hpath, artifact, hrow, hfile, ?_, ?_⟩, rfl, ?_⟩
      · exact (not_not.mp hchecksum).symm
      · exact (not_not.mp hsize).symm
      · omega

theorem InputStaging.Passed.next {index total total' : Nat} {inputs : List PortInput}
    {item : String × String} {input : PortInput} (h : staging.Passed index inputs total)
    (hitem : staging.ports.rows[index]? = some item) (hsupplied : staging.Supplies item input)
    (htotal : total' = total + input.contents.length)
    (hlimit : total' ≤ staging.maxTaskInputBytes) :
    staging.Passed (index + 1) (inputs ++ [input]) total' where
  supplied := by
    rw [List.take_add_one, hitem]
    exact List.rel_append h.supplied (.cons hsupplied .nil)
  total_eq := by
    rw [htotal, h.total_eq, List.map_append, List.sum_append_nat]
    simp
  limit := hlimit

theorem hasChecked_step (hstep : staging.Step s s') (h : staging.HasChecked s.phase) :
    staging.HasChecked s'.phase := by
  cases hstep with
  | done hnone =>
      obtain ⟨inputs, hpassed⟩ := h
      have hall := hpassed.supplied
      rw [List.take_of_length_le (List.getElem?_eq_none_iff.mp hnone)] at hall
      exact ⟨inputs, hall, hpassed.total_eq ▸ hpassed.limit⟩
  | refused _ _ | blocked _ _ | conflicted _ _ | occupied _ | unopened _ _ | unreplaced _ =>
      exact trivial
  | checked hitem hcheck =>
      obtain ⟨inputs, hpassed⟩ := h
      obtain ⟨hsupplied, htotal, hlimit⟩ := checkInput_eq_ok hcheck
      exact ⟨_, hpassed.next hitem hsupplied htotal hlimit⟩
  | made _ _ | allMade _ | kept _ _ | opened _ _ | copied _ | replaced _ => exact h

/-- All inputs of a call that returns are intact. -/
theorem intact_of_returned (hreach : staging.calls.Reachable TransitionSystem.anyStep s)
    (hreturned : s.phase = .returned) : ∃ inputs, staging.Intact inputs := by
  have hchecked : staging.HasChecked s.phase := by
    refine hreach.invariant (fun s => staging.HasChecked s.phase) ?_ ?_
    · rintro s rfl
      exact trivial
    · intro s event s' _ h _ hstep
      rcases InputStaging.step_cases hstep with ⟨-, hgoes⟩ | ⟨-, -, hphase⟩
      · exact hasChecked_step hgoes h
      · rcases hphase with hphase | hphase <;> rw [hphase]
        · exact ⟨[], .nil, rfl, Nat.zero_le _⟩
        · exact trivial
  rw [hreturned] at hchecked
  exact hchecked

end Checks

/-! ## Records of outputs -/

section Records

variable {collection : OutputCollection} {files files' : FileTree}

/-- The record describes an output of the job. -/
def OutputCollection.Describes (collection : OutputCollection) (item : String × String)
    (artifact : ArtifactResult) : Prop :=
  ∃ path bytes artifactType,
    relativePort item.2 collection.mount s!"output port {item.1}" = .ok path ∧
      collection.outputs.Holds (collection.source path) bytes ∧
      artifact = collection.fromPath artifactType
        (OutputCollection.destination item.1 (collection.source path)) bytes

theorem describes_of_collectPort {port containerPath : String} {artifact : ArtifactResult}
    (h : collection.collectPort files port containerPath = .ok (files', artifact)) :
    collection.Describes (port, containerPath) artifact := by
  simp only [OutputCollection.collectPort] at h
  obtain ⟨path, hpath, h⟩ := ok_of_bind h
  obtain ⟨-, h⟩ := ok_of_guard h
  split at h
  · next bytes executable hfile =>
      split at h
      · cases h
      · split at h
        · cases h
        · next artifactType _ =>
            cases h
            exact ⟨path, bytes, artifactType, hpath, ⟨executable, hfile⟩, rfl⟩
  · cases h

theorem describes_of_collectPorts {items : List (String × String)}
    {artifacts : List (String × ArtifactResult)}
    (h : collection.collectPorts files items = .ok (files', artifacts)) :
    ∀ entry ∈ artifacts, ∃ item ∈ items, entry.1 = item.1 ∧
      collection.Describes item entry.2 := by
  induction items generalizing files files' artifacts with
  | nil =>
      cases h
      intro entry hentry
      cases hentry
  | cons item items ih =>
      obtain ⟨port, containerPath⟩ := item
      simp only [OutputCollection.collectPorts] at h
      obtain ⟨⟨between, artifact⟩, hport, h⟩ := ok_of_bind h
      obtain ⟨rest, hrest, h⟩ := ok_of_map h
      cases h
      intro entry hentry
      rcases List.mem_cons.mp hentry with rfl | hentry
      · exact ⟨_, List.mem_cons_self, rfl, describes_of_collectPort hport⟩
      · obtain ⟨item, hitem, hitem'⟩ := ih hrest entry hentry
        exact ⟨item, List.mem_cons_of_mem _ hitem, hitem'⟩

end Records

/-! ## From outputs to inputs -/

/-- When a call has returned, every input whose record has the checksum of a collected output
holds the bytes of that output. -/
theorem inputs_are_outputs (staging : InputStaging) (paths : List PathComponents)
    (hpaths : PortPaths staging.mount staging.ports.rows paths)
    (hkept : paths.Pairwise KeptApart) (hdigest : Function.Injective staging.digest)
    (s : StagingState) (hreach : staging.calls.Reachable TransitionSystem.anyStep s)
    (hreturned : s.phase = .returned) (collection : OutputCollection)
    (hsame : collection.digest = staging.digest) (before after : FileTree)
    (artifacts : List (String × ArtifactResult))
    (hcollect : collection.collect before = .ok (after, artifacts)) :
    ∀ (index : Nat) (item : String × String) (path : PathComponents) (record : ArtifactRecord)
      (output : String) (artifact : ArtifactResult),
      staging.ports.rows[index]? = some item → paths[index]? = some path →
      staging.inputs.row? item.1 = some (item.1, record) → (output, artifact) ∈ artifacts →
      record.checksum = artifact.checksum →
      ∃ containerPath source bytes, (output, containerPath) ∈ collection.ports.rows ∧
        relativePort containerPath collection.mount s!"output port {output}" = .ok source ∧
        collection.outputs.Holds (collection.source source) bytes ∧
        s.files.Holds path bytes := by
  intro index item path record output artifact hitem hpath hrecord hentry hchecksum
  obtain ⟨inputs, hintact⟩ := intact_of_returned hreach hreturned
  have hmap := paths_of_supplied staging rfl hpaths hintact.supplied
  have hworks := hintact.works (by rw [hmap]; exact hkept)
  rcases getElem?_forall₂ hintact.supplied index with ⟨hnone, -⟩ | ⟨item', input, hitem', hinput,
    hport, -, record', hrecord', -, hrecorded, -⟩
  · cases hnone.symm.trans hitem
  obtain rfl := Option.some.inj (hitem'.symm.trans hitem)
  obtain rfl : record' = record := by
    have hpair := Option.some.inj (hrecord'.symm.trans hrecord)
    exact congrArg Prod.snd hpair
  have hsamePath : input.path = path := by
    rw [← hmap, List.getElem?_map, hinput] at hpath
    exact Option.some.inj hpath
  obtain ⟨⟨output', containerPath⟩, hmem, hname, source, bytes, artifactType, hsource, hheld,
    hartifact⟩ := describes_of_collectPorts hcollect _ hentry
  obtain rfl : output = output' := hname
  have hfields : artifact.checksum = collection.digest bytes :=
    congrArg ArtifactResult.checksum hartifact
  have hbytes : input.contents = bytes := by
    apply hdigest
    rw [← hrecorded, hchecksum, hfields, hsame]
  refine ⟨containerPath, source, bytes, hmem, hsource, hheld, ?_⟩
  rw [← hbytes, ← hsamePath]
  exact hworks.staged s hreach hreturned input (List.mem_of_getElem? hinput)

/-! ## A circuit that is passed on -/

theorem plainDigest_injective : Function.Injective plainDigest := by
  intro first second h
  have hchars : first.map (fun byte => Char.ofNat byte.toNat) =
      second.map (fun byte => Char.ofNat byte.toNat) := String.ofList_injective h
  refine List.map_injective_iff.mpr (fun byte other hsame => ?_) hchars
  have hvalid : ∀ byte : UInt8, (Char.ofNat byte.toNat).toNat = byte.toNat := by
    intro byte
    have hsmall : byte.toNat.isValidChar := .inl (by have := byte.toNat_lt; omega)
    have hchar : Char.ofNat byte.toNat = Char.ofNatAux byte.toNat hsmall := dif_pos hsmall
    rw [hchar]
    rfl
  exact UInt8.toNat_inj.mp (by rw [← hvalid byte, ← hvalid other, hsame])

/-- A task whose only output is a circuit. -/
def circuitOutputs : OutputCollection :=
  twoFiles ⟨[("circuit", "/outputs/circuit.qasm")], by decide⟩ "" "circuit.qasm" "notes"

/-- A task that reads the circuit. -/
def circuitStaging : InputStaging where
  ports := ⟨[("program", "/inputs/main.qasm")], by decide⟩
  mount := "/inputs"
  maxTaskInputBytes := 1
  inputs := ⟨[("program", ⟨0, "openqasm", "circuit.qasm", plainDigest [1], 1⟩)], by decide⟩
  localFile _ := .ok [1]
  digest := plainDigest

/-- A call that is stopped inside the copy, and one that returns. -/
def stagedCircuit : StagingState :=
  circuitStaging.calls.after (fun _ _ => true) ⟨emptyDirectory, .idle⟩
    [.start, .proceed, .proceed, .proceed, .stop, .start, .proceed, .proceed, .proceed, .copy 8,
      .proceed, .proceed]

theorem stagedCircuit_reachable :
    circuitStaging.calls.Reachable TransitionSystem.anyStep stagedCircuit :=
  (TransitionSystem.Reachable.after (.initial rfl) _).unguarded

theorem inputs_are_outputs_circuit : ∃ containerPath source bytes,
    ("circuit", containerPath) ∈ circuitOutputs.ports.rows ∧
      relativePort containerPath circuitOutputs.mount "output port circuit" = .ok source ∧
      circuitOutputs.outputs.Holds (circuitOutputs.source source) bytes ∧
      stagedCircuit.files.Holds ["main.qasm"] bytes := by
  have hleft : List.Forall₂ circuitOutputs.LeadsTo circuitOutputs.ports.rows
      [["staging", "outputs", "circuit.qasm"]] :=
    .cons ⟨["circuit.qasm"], by decide, by decide, by decide, [1], false, by decide⟩ .nil
  have hnames : ∀ item ∈ circuitOutputs.ports.rows, isIdentifier item.1 = true :=
    List.forall_mem_singleton.mpr (by decide)
  obtain ⟨after, artifacts, hcollect, -, hdelivered⟩ :=
    OutputCollection.collectPorts_ok hleft hnames
      (fun item hitem => ⟨item.2, Table.row?_of_mem hitem⟩) emptyDirectory_noDirectories
  obtain ⟨-, artifactType, hentry⟩ :=
    hdelivered (OutputCollection.namesAgree_of_nodup (by decide)) 0
      ("circuit", "/outputs/circuit.qasm") ["staging", "outputs", "circuit.qasm"] [1] rfl rfl
      ⟨false, by decide⟩
  exact inputs_are_outputs circuitStaging [["main.qasm"]] (.cons (by decide) .nil) (by decide)
    plainDigest_injective stagedCircuit stagedCircuit_reachable (by decide) circuitOutputs rfl
    emptyDirectory after artifacts hcollect 0 ("program", "/inputs/main.qasm") ["main.qasm"]
    ⟨0, "openqasm", "circuit.qasm", plainDigest [1], 1⟩ "circuit" _ rfl rfl rfl
    (List.mem_of_getElem? hentry) rfl

end QhpcEcosystem
