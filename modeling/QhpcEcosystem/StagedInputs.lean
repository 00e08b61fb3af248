/-
Which ports the runner keeps apart.  Staging with any stops and restarts leaves every port its
own artifact exactly when no path of a port is at or below another one, and no temporary file
of a port is at or above the path of a port before it.
-/
import QhpcEcosystem.RuntimeExtraction
import QhpcEcosystem.TaskPorts

namespace QhpcEcosystem

/-! ## Paths -/

section Paths

variable {path other parent : PathComponents}

theorem relativePort_ok {text mount label : String} (h : relativePort text mount label = .ok path) :
    path ≠ [] := by
  simp only [relativePort] at h
  split at h
  · cases h
  · split at h
    · cases h
    · next hparts =>
        cases h
        exact fun hnil => hparts (.inl hnil)

theorem length_temporaryPath (hpath : path ≠ []) :
    (temporaryPath path).length = path.length := by
  have hpos : 0 < path.length := List.length_pos_iff.mpr hpath
  simp only [temporaryPath, List.length_append, List.length_dropLast, List.length_singleton]
  omega

theorem temporaryPath_ne_nil : temporaryPath path ≠ [] := by
  simp [temporaryPath]

theorem temporaryPath_ne : temporaryPath path ≠ path := by
  intro h
  have hlast := congrArg (fun components => (components.getLastD "").toList.length) h
  simp only [temporaryPath, List.getLastD_concat, String.toList_append, List.length_append] at hlast
  have hdot : 0 < ".".toList.length := by decide
  omega

theorem mem_parentPaths (hparent : parent ∈ parentPaths path) :
    parent <+: path ∧ parent.length < path.length := by
  have hbelow := (List.mem_inits _ _).mp (List.mem_of_mem_tail hparent)
  have hlength := hbelow.length_le
  rw [List.length_dropLast] at hlength
  have hpos : 0 < path.length := by
    by_contra hzero
    rw [List.length_eq_zero_iff.mp (Nat.eq_zero_of_not_pos hzero)] at hparent
    cases hparent
  exact ⟨hbelow.trans (List.dropLast_prefix path), by omega⟩

theorem mem_parentPaths_of_prefix (hbelow : parent <+: path) (hne : parent ≠ path)
    (hnil : parent ≠ []) : parent ∈ parentPaths path := by
  have hlength : parent.length < path.length :=
    lt_of_le_of_ne hbelow.length_le fun h => hne (hbelow.eq_of_length h)
  have hinit : parent ∈ path.dropLast.inits := by
    rw [List.mem_inits]
    refine List.prefix_of_prefix_length_le hbelow (List.dropLast_prefix path) ?_
    rw [List.length_dropLast]
    omega
  cases hparts : path.dropLast with
  | nil =>
      rw [hparts, List.inits, List.mem_singleton] at hinit
      exact absurd hinit hnil
  | cons first rest =>
      rw [hparts, List.inits, List.mem_cons] at hinit
      rw [parentPaths, hparts]
      exact hinit.resolve_left hnil

end Paths

/-! ## Files -/

section Files

variable {files files' : FileTree} {path other : PathComponents}

/-- A file with these bytes is at the path. -/
def FileTree.Holds (files : FileTree) (path : PathComponents) (bytes : List UInt8) : Prop :=
  ∃ executable, files path = some (.file bytes executable)

theorem FileTree.Holds.unique {bytes bytes' : List UInt8} (h : files.Holds path bytes)
    (h' : files.Holds path bytes') : bytes = bytes' := by
  obtain ⟨executable, hfile⟩ := h
  obtain ⟨executable', hfile'⟩ := h'
  rw [hfile] at hfile'
  cases hfile'
  rfl

theorem FileTree.Holds.not_directory {bytes : List UInt8} (h : files.Holds path bytes) :
    files path ≠ some .directory := by
  obtain ⟨executable, hfile⟩ := h
  simp [hfile]

/-- A directory is made where no file is. -/
theorem FileTree.makeDirectories_some (h : ∀ bytes, ¬ files.Holds path bytes) :
    ∃ files', files.makeDirectories [path] = some files' := by
  simp only [FileTree.makeDirectories]
  split
  · exact ⟨_, rfl⟩
  · exact ⟨_, rfl⟩
  · next bytes executable hfile => exact absurd ⟨executable, hfile⟩ (h bytes)

theorem FileTree.makeDirectories_singleton_eq (h : files.makeDirectories [path] = some files') :
    files' = Function.update files path (some .directory) := by
  simp only [FileTree.makeDirectories] at h
  split at h
  · exact (Option.some.inj h).symm
  · next hdirectory =>
      rw [← hdirectory, Function.update_eq_self]
      exact (Option.some.inj h).symm
  · cases h

theorem FileTree.truncate_some (h : files path ≠ some .directory) :
    ∃ files', files.truncate path = some files' := by
  simp only [FileTree.truncate]
  split
  · exact ⟨_, rfl⟩
  · exact ⟨_, rfl⟩
  · next hdirectory => exact absurd hdirectory h

theorem FileTree.replaceFile_eq {source target : PathComponents}
    (h : files.replaceFile source target = some files') :
    files target ≠ some .directory ∧ ∃ node, files source = some node ∧
      files' = Function.update (Function.update files target (some node)) source none := by
  simp only [FileTree.replaceFile] at h
  split at h
  · next node hsource htarget =>
      exact ⟨by simp [htarget], node, hsource, (Option.some.inj h).symm⟩
  · next node _ _ hsource htarget =>
      exact ⟨by simp [htarget], node, hsource, (Option.some.inj h).symm⟩
  · cases h

theorem not_holds_emptyDirectory (path : PathComponents) (bytes : List UInt8) :
    ¬ emptyDirectory.Holds path bytes := by
  rintro ⟨executable, hfile⟩
  by_cases hnil : path = [] <;> simp [emptyDirectory, hnil] at hfile

theorem FileTree.replaceFile_some {source target : PathComponents} {node : FileNode}
    (hsource : files source = some node) (htarget : files target = none) :
    files.replaceFile source target =
      some (Function.update (Function.update files target (some node)) source none) := by
  simp only [FileTree.replaceFile, hsource, htarget]

end Files

/-! ## Steps -/

section Steps

variable {staging : InputStaging} {s s' : StagingState} {event : StagingEvent}

/-- What a step of a call that goes on does. -/
inductive InputStaging.Step (staging : InputStaging) : StagingState → StagingState → Prop
  | done {files index total} : staging.ports.rows[index]? = none →
      Step staging ⟨files, .checking index total⟩ ⟨files, .returned⟩
  | refused {files index total port containerPath message} :
      staging.ports.rows[index]? = some (port, containerPath) →
      staging.checkInput port containerPath total = .error message →
      Step staging ⟨files, .checking index total⟩ ⟨files, .raised message⟩
  | checked {files index total port containerPath input total'} :
      staging.ports.rows[index]? = some (port, containerPath) →
      staging.checkInput port containerPath total = .ok (input, total') →
      Step staging ⟨files, .checking index total⟩ ⟨files, .making index total' input 0⟩
  | made {files index total input depth parent files'} :
      (parentPaths (PortInput.path input))[depth]? = some parent →
      files.makeDirectories [parent] = some files' →
      Step staging ⟨files, .making index total input depth⟩
        ⟨files', .making index total input (depth + 1)⟩
  | blocked {files index total input depth parent} :
      (parentPaths (PortInput.path input))[depth]? = some parent →
      files.makeDirectories [parent] = none →
      Step staging ⟨files, .making index total input depth⟩ ⟨files, .raised "OSError"⟩
  | allMade {files index total input depth} :
      (parentPaths (PortInput.path input))[depth]? = none →
      Step staging ⟨files, .making index total input depth⟩ ⟨files, .comparing index total input⟩
  | kept {files index total input bytes} :
      FileTree.Holds files (PortInput.path input) bytes →
      staging.digest bytes = staging.digest input.contents →
      Step staging ⟨files, .comparing index total input⟩ ⟨files, .checking (index + 1) total⟩
  | conflicted {files index total input bytes} :
      FileTree.Holds files (PortInput.path input) bytes →
      staging.digest bytes ≠ staging.digest input.contents →
      Step staging ⟨files, .comparing index total input⟩
        ⟨files, .raised s!"staged input conflicts with port {input.port}"⟩
  | occupied {files index total input} :
      files (PortInput.path input) = some .directory →
      Step staging ⟨files, .comparing index total input⟩ ⟨files, .raised "IsADirectoryError"⟩
  | opened {files index total input files'} : files (PortInput.path input) = none →
      files.truncate (temporaryPath input.path) = some files' →
      Step staging ⟨files, .comparing index total input⟩ ⟨files', .copying index total input 0⟩
  | unopened {files index total input} : files (PortInput.path input) = none →
      files.truncate (temporaryPath input.path) = none →
      Step staging ⟨files, .comparing index total input⟩ ⟨files, .raised "IsADirectoryError"⟩
  | copied {files index total input offset size files'} :
      files.writeAt (temporaryPath (PortInput.path input)) offset
        ((input.contents.drop offset).take size) = some files' →
      Step staging ⟨files, .copying index total input offset⟩
        ⟨files', .copying index total input
          (offset + ((input.contents.drop offset).take size).length)⟩
  | replaced {files index total input files'} :
      files.replaceFile (temporaryPath (PortInput.path input)) input.path = some files' →
      Step staging ⟨files, .copying index total input input.contents.length⟩
        ⟨files', .checking (index + 1) total⟩
  | unreplaced {files index total input} :
      files.replaceFile (temporaryPath (PortInput.path input)) input.path = none →
      Step staging ⟨files, .copying index total input input.contents.length⟩
        ⟨files, .raised "OSError"⟩

theorem InputStaging.step_check (files : FileTree) (index total : Nat) :
    staging.Step ⟨files, .checking index total⟩
      (staging.check ⟨files, .checking index total⟩ index total) := by
  simp only [check]
  split
  · next hport => exact .done hport
  · next port containerPath hport =>
      split
      · next message hcheck => exact .refused hport hcheck
      · next input total' hcheck => exact .checked hport hcheck

theorem InputStaging.step_makeParent (files : FileTree) (index total : Nat) (input : PortInput)
    (depth : Nat) : staging.Step ⟨files, .making index total input depth⟩
      (makeParent ⟨files, .making index total input depth⟩ index total input depth) := by
  simp only [makeParent]
  split
  · next hparent => exact .allMade hparent
  · next parent hparent =>
      split
      · next hmake => exact .blocked hparent hmake
      · next files' hmake => exact .made hparent hmake

theorem InputStaging.step_compare (files : FileTree) (index total : Nat) (input : PortInput) :
    staging.Step ⟨files, .comparing index total input⟩
      (staging.compare ⟨files, .comparing index total input⟩ index total input) := by
  simp only [compare]
  split
  · next hnode => exact .occupied hnode
  · next bytes executable hnode =>
      by_cases hdigest : staging.digest bytes = staging.digest input.contents
      · rw [if_neg (not_not_intro hdigest)]
        exact .kept ⟨executable, hnode⟩ hdigest
      · rw [if_pos hdigest]
        exact .conflicted ⟨executable, hnode⟩ hdigest
  · next hnode =>
      split
      · next hopen => exact .unopened hnode hopen
      · next files' hopen => exact .opened hnode hopen

theorem InputStaging.step_replace (files : FileTree) (index total : Nat) (input : PortInput) :
    staging.Step ⟨files, .copying index total input input.contents.length⟩
      (replace ⟨files, .copying index total input input.contents.length⟩ index total input) := by
  simp only [replace]
  split
  · next hreplace => exact .unreplaced hreplace
  · next files' hreplace => exact .replaced hreplace

theorem InputStaging.step_cases (h : staging.step s event = some s') :
    (event.goesOn = true ∧ staging.Step s s') ∨
      (event.goesOn = false ∧ s'.files = s.files ∧
        (s'.phase = .checking 0 0 ∨ s'.phase = .idle)) := by
  obtain ⟨files, phase⟩ := s
  cases event with
  | start =>
      simp only [step] at h
      split at h
      · cases h
      · cases h
        exact .inr ⟨rfl, rfl, .inl rfl⟩
  | stop =>
      simp only [step] at h
      split at h
      · cases h
        exact .inr ⟨rfl, rfl, .inr rfl⟩
      · cases h
  | copy size =>
      simp only [step, copy] at h
      split at h
      · obtain ⟨files', hwrite, rfl⟩ := Option.map_eq_some_iff.mp h
        exact .inl ⟨rfl, .copied hwrite⟩
      · cases h
  | proceed =>
      refine .inl ⟨rfl, ?_⟩
      simp only [step, proceed] at h
      cases phase with
      | idle | returned => cases h
      | raised message => cases h
      | checking index total => exact Option.some.inj h ▸ step_check files index total
      | making index total input depth =>
          exact Option.some.inj h ▸ step_makeParent files index total input depth
      | comparing index total input =>
          exact Option.some.inj h ▸ step_compare files index total input
      | copying index total input offset =>
          by_cases hoffset : offset = input.contents.length
          · subst hoffset
            simp only [if_true] at h
            exact Option.some.inj h ▸ step_replace files index total input
          · simp only [if_neg hoffset] at h
            cases h

end Steps

/-! ## Intact inputs -/

/-- The artifact of a port is a regular file as its record describes it, and the path of the
port lies below the mount. -/
def InputStaging.Supplies (staging : InputStaging) (item : String × String) (input : PortInput) :
    Prop :=
  input.port = item.1 ∧
    relativePort item.2 staging.mount s!"input port {item.1}" = .ok input.path ∧
    ∃ artifact, staging.inputs.row? item.1 = some (item.1, artifact) ∧
      staging.localFile artifact.uri = .ok input.contents ∧
      artifact.checksum = staging.digest input.contents ∧
      artifact.sizeBytes = input.contents.length

/-- All inputs are intact and the limit admits them together. -/
structure InputStaging.Intact (staging : InputStaging) (inputs : List PortInput) : Prop where
  supplied : List.Forall₂ staging.Supplies staging.ports.rows inputs
  limit : (inputs.map (·.contents.length)).sum ≤ staging.maxTaskInputBytes

/-- Of two ports the first is staged before the second. -/
def KeptApart (path other : PathComponents) : Prop :=
  ¬ path <+: other ∧ ¬ other <+: path ∧ ¬ temporaryPath other <+: path

instance (path other : PathComponents) : Decidable (KeptApart path other) :=
  inferInstanceAs (Decidable (_ ∧ _ ∧ _))

/-- The bytes of the inputs before one. -/
def bytesBefore (inputs : List PortInput) (index : Nat) : Nat :=
  ((inputs.take index).map (·.contents.length)).sum

theorem getElem?_forall₂ {α β : Type*} {R : α → β → Prop} {l : List α} {l' : List β}
    (h : List.Forall₂ R l l') (index : Nat) :
    (l[index]? = none ∧ l'[index]? = none) ∨
      ∃ a b, l[index]? = some a ∧ l'[index]? = some b ∧ R a b := by
  induction h generalizing index with
  | nil => simp
  | @cons a b _ _ hab _ ih =>
      cases index with
      | zero => exact .inr ⟨a, b, rfl, rfl, hab⟩
      | succ index => simpa using ih index

section Intact

variable {staging : InputStaging} {inputs : List PortInput} {input other : PortInput}
  {index : Nat}

theorem bytesBefore_succ (hinput : inputs[index]? = some input) :
    bytesBefore inputs (index + 1) = bytesBefore inputs index + input.contents.length := by
  simp [bytesBefore, List.take_add_one, hinput]

theorem bytesBefore_le (inputs : List PortInput) (index : Nat) :
    bytesBefore inputs index ≤ (inputs.map (·.contents.length)).sum := by
  have hsplit : (inputs.map (·.contents.length)).sum = bytesBefore inputs index +
      ((inputs.drop index).map (·.contents.length)).sum := by
    rw [bytesBefore, ← List.sum_append_nat, ← List.map_append, List.take_append_drop]
  omega

theorem InputStaging.Supplies.checkInput {item : String × String}
    (h : staging.Supplies item input) (total : Nat) :
    staging.checkInput item.1 item.2 total =
      if total + input.contents.length > staging.maxTaskInputBytes then
        .error "task inputs exceed storage profile limit"
      else .ok (input, total + input.contents.length) := by
  obtain ⟨port, path, contents⟩ := input
  obtain ⟨rfl, hpath, artifact, hartifact, hfile, hchecksum, hsize⟩ := h
  simp only [InputStaging.checkInput, hartifact, hfile, Except.bind, hchecksum, hsize, hpath,
    Except.map, ne_eq, not_true_eq_false, if_false]

theorem InputStaging.Intact.path_ne_nil (h : staging.Intact inputs)
    (hinput : inputs[index]? = some input) : input.path ≠ [] := by
  rcases getElem?_forall₂ h.supplied index with ⟨-, hnone⟩ | ⟨item, other, -, hother, hsupplied⟩
  · rw [hnone] at hinput
    cases hinput
  · rw [hother] at hinput
    cases hinput
    exact relativePort_ok hsupplied.2.1

/-- No check of intact inputs fails. -/
theorem InputStaging.Intact.check (h : staging.Intact inputs) {item : String × String}
    (hitem : staging.ports.rows[index]? = some item) :
    ∃ input, inputs[index]? = some input ∧
      staging.checkInput item.1 item.2 (bytesBefore inputs index) =
        .ok (input, bytesBefore inputs (index + 1)) := by
  rcases getElem?_forall₂ h.supplied index with ⟨hnone, -⟩ | ⟨_, input, heq, hinput, hsupplied⟩
  · rw [hnone] at hitem
    cases hitem
  · rw [hitem] at heq
    cases heq
    refine ⟨input, hinput, ?_⟩
    have hle := (bytesBefore_le inputs (index + 1)).trans h.limit
    rw [bytesBefore_succ hinput] at hle ⊢
    rw [hsupplied.checkInput, if_neg (by omega)]

/-- A check that succeeds gives the input of the port. -/
theorem InputStaging.Intact.checked (h : staging.Intact inputs) {port containerPath : String}
    {total total' : Nat} (hitem : staging.ports.rows[index]? = some (port, containerPath))
    (hcheck : staging.checkInput port containerPath total = .ok (input, total')) :
    inputs[index]? = some input ∧ total' = total + input.contents.length := by
  rcases getElem?_forall₂ h.supplied index with ⟨hnone, -⟩ | ⟨_, other, heq, hother, hsupplied⟩
  · rw [hnone] at hitem
    cases hitem
  · rw [hitem] at heq
    cases heq
    rw [hsupplied.checkInput] at hcheck
    split at hcheck
    · cases hcheck
    · cases hcheck
      exact ⟨hother, rfl⟩

theorem InputStaging.Intact.none_iff (h : staging.Intact inputs) :
    staging.ports.rows[index]? = none ↔ inputs[index]? = none := by
  rcases getElem?_forall₂ h.supplied index with ⟨hnone, hnone'⟩ | ⟨_, _, hsome, hsome', -⟩
  · simp [hnone, hnone']
  · simp [hsome, hsome']

end Intact

/-! ## Stops and restarts -/

/-- Ports that are kept apart, by their places in the list. -/
structure Separated (inputs : List PortInput) : Prop where
  nonempty : ∀ {index : Nat} {input : PortInput}, inputs[index]? = some input → input.path ≠ []
  apart : ∀ {index index' : Nat} {input other : PortInput}, inputs[index]? = some input →
    inputs[index']? = some other → input.path <+: other.path → index = index'
  temporary : ∀ {index index' : Nat} {input other : PortInput}, inputs[index]? = some input →
    inputs[index']? = some other → temporaryPath input.path <+: other.path → index < index'

theorem InputStaging.Intact.separated {staging : InputStaging} {inputs : List PortInput}
    (h : staging.Intact inputs)
    (hkept : (inputs.map PortInput.path).Pairwise KeptApart) : Separated inputs where
  nonempty := h.path_ne_nil
  apart {index index' input other} hinput hother hbelow := by
    rw [List.pairwise_map, List.pairwise_iff_getElem] at hkept
    obtain ⟨hlt, rfl⟩ := List.getElem?_eq_some_iff.mp hinput
    obtain ⟨hlt', rfl⟩ := List.getElem?_eq_some_iff.mp hother
    rcases Nat.lt_trichotomy index index' with hless | heq | hless
    · exact absurd hbelow (hkept index index' hlt hlt' hless).1
    · exact heq
    · exact absurd hbelow (hkept index' index hlt' hlt hless).2.1
  temporary {index index' input other} hinput hother hbelow := by
    rw [List.pairwise_map, List.pairwise_iff_getElem] at hkept
    have hlength := length_temporaryPath (h.path_ne_nil hinput)
    obtain ⟨hlt, rfl⟩ := List.getElem?_eq_some_iff.mp hinput
    obtain ⟨hlt', rfl⟩ := List.getElem?_eq_some_iff.mp hother
    rcases Nat.lt_trichotomy index index' with hless | rfl | hless
    · exact hless
    · exact absurd (hbelow.eq_of_length hlength) temporaryPath_ne
    · exact absurd hbelow (hkept index' index hlt' hlt hless).2.2

/-- The first inputs are staged, and at most the temporary file of the next one is there. -/
structure StagedUpTo (inputs : List PortInput) (count : Nat) (files : FileTree) : Prop where
  le : count ≤ inputs.length
  staged : ∀ {index : Nat} {input : PortInput}, index < count → inputs[index]? = some input →
    files.Holds input.path input.contents
  directories : ∀ {path}, files path = some .directory → path = [] ∨
    ∃ (index : Nat) (input : PortInput), index ≤ count ∧ inputs[index]? = some input ∧
      path <+: input.path ∧ path ≠ input.path
  files : ∀ {path bytes}, files.Holds path bytes →
    (∃ (index : Nat) (input : PortInput), index < count ∧ inputs[index]? = some input ∧
      path = input.path) ∨
    ∃ input : PortInput, inputs[count]? = some input ∧ path = temporaryPath input.path

section Staged

variable {inputs : List PortInput} {count index : Nat} {files files' : FileTree}
  {input : PortInput} {parent : PathComponents}

theorem StagedUpTo.empty : StagedUpTo inputs 0 emptyDirectory where
  le := Nat.zero_le _
  staged hlt := absurd hlt (Nat.not_lt_zero _)
  directories {path} hpath := by
    by_cases hnil : path = []
    · exact .inl hnil
    · simp [emptyDirectory, hnil] at hpath
  files hpath := absurd hpath (not_holds_emptyDirectory _ _)

/-- Only the next input is not there. -/
theorem StagedUpTo.eq_count (h : StagedUpTo inputs count files) (hle : index ≤ count)
    (hinput : inputs[index]? = some input) (hnone : files input.path = none) : index = count := by
  by_contra hne
  obtain ⟨executable, hfile⟩ := h.staged (by omega) hinput
  rw [hnone] at hfile
  cases hfile

namespace StagedUpTo

variable (h : StagedUpTo inputs count files) (hseparated : Separated inputs)
include h hseparated

theorem not_file_of_parent (hle : index ≤ count) (hinput : inputs[index]? = some input)
    (hparent : parent ∈ parentPaths input.path) (bytes : List UInt8) :
    ¬ files.Holds parent bytes := by
  intro hfile
  obtain ⟨hbelow, hlength⟩ := mem_parentPaths hparent
  rcases h.files hfile with ⟨index', other, -, hother, rfl⟩ | ⟨other, hother, rfl⟩
  · obtain rfl := hseparated.apart hother hinput hbelow
    rw [hinput] at hother
    cases hother
    omega
  · have hlt := hseparated.temporary hother hinput hbelow
    omega

theorem path_none (hinput : inputs[count]? = some input) : files input.path = none := by
  cases hnode : files input.path with
  | none => rfl
  | some node =>
      cases node with
      | directory =>
          rcases h.directories hnode with hnil | ⟨index, other, -, hother, hbelow, hne⟩
          · exact absurd hnil (hseparated.nonempty hinput)
          · obtain rfl := hseparated.apart hinput hother hbelow
            rw [hinput] at hother
            cases hother
            exact absurd rfl hne
      | file bytes executable =>
          rcases h.files ⟨executable, hnode⟩ with
            ⟨index, other, hlt, hother, heq⟩ | ⟨other, hother, heq⟩
          · have := hseparated.apart hinput hother (heq ▸ List.prefix_refl _)
            omega
          · rw [hinput] at hother
            cases hother
            exact absurd heq.symm temporaryPath_ne

theorem temporary_not_directory (hinput : inputs[count]? = some input) :
    files (temporaryPath input.path) ≠ some .directory := by
  intro hnode
  rcases h.directories hnode with hnil | ⟨index, other, hle, hother, hbelow, -⟩
  · exact absurd hnil temporaryPath_ne_nil
  · have := hseparated.temporary hinput hother hbelow
    omega

theorem makeParent (hle : index ≤ count) (hinput : inputs[index]? = some input)
    (hparent : parent ∈ parentPaths input.path) :
    StagedUpTo inputs count (Function.update files parent (some .directory)) where
  le := h.le
  staged {index' other} hlt hother := by
    have hheld := h.staged hlt hother
    have hne : other.path ≠ parent := by
      rintro rfl
      exact h.not_file_of_parent hseparated hle hinput hparent _ hheld
    rwa [FileTree.Holds, Function.update_of_ne hne]
  directories {path} hpath := by
    by_cases heq : path = parent
    · subst heq
      obtain ⟨hbelow, hlength⟩ := mem_parentPaths hparent
      exact .inr ⟨index, input, hle, hinput, hbelow, fun h => by rw [h] at hlength; omega⟩
    · rw [Function.update_of_ne heq] at hpath
      exact h.directories hpath
  files {path bytes} hpath := by
    by_cases heq : path = parent
    · subst heq
      exact absurd (Function.update_self ..) hpath.not_directory
    · rw [FileTree.Holds, Function.update_of_ne heq] at hpath
      exact h.files hpath

theorem writeTemporary (hinput : inputs[count]? = some input) (bytes : List UInt8)
    (executable : Bool) : StagedUpTo inputs count
      (Function.update files (temporaryPath input.path) (some (.file bytes executable))) where
  le := h.le
  staged {index other} hlt hother := by
    have hne : other.path ≠ temporaryPath input.path := by
      intro heq
      have := hseparated.temporary hinput hother (heq ▸ List.prefix_refl _)
      omega
    rw [FileTree.Holds, Function.update_of_ne hne]
    exact h.staged hlt hother
  directories {path} hpath := by
    by_cases heq : path = temporaryPath input.path
    · subst heq
      rw [Function.update_self] at hpath
      cases hpath
    · rw [Function.update_of_ne heq] at hpath
      exact h.directories hpath
  files {path bytes} hpath := by
    by_cases heq : path = temporaryPath input.path
    · exact .inr ⟨input, hinput, heq⟩
    · rw [FileTree.Holds, Function.update_of_ne heq] at hpath
      exact h.files hpath

/-- The complete temporary file takes the place of the next input. -/
theorem replace (hinput : inputs[count]? = some input) (executable : Bool) :
    StagedUpTo inputs (count + 1) (Function.update (Function.update files input.path
      (some (.file input.contents executable))) (temporaryPath input.path) none) where
  le := (List.getElem?_eq_some_iff.mp hinput).1
  staged {index other} hlt hother := by
    have hne : other.path ≠ temporaryPath input.path := by
      intro heq
      have := hseparated.temporary hinput hother (heq ▸ List.prefix_refl _)
      omega
    by_cases heq : index = count
    · subst heq
      rw [hinput] at hother
      cases hother
      rw [FileTree.Holds, Function.update_of_ne hne, Function.update_self]
      exact ⟨executable, rfl⟩
    · have hother' : other.path ≠ input.path := fun hsame =>
        heq (hseparated.apart hother hinput (hsame ▸ List.prefix_refl _))
      rw [FileTree.Holds, Function.update_of_ne hne, Function.update_of_ne hother']
      exact h.staged (by omega) hother
  directories {path} hpath := by
    by_cases htemporary : path = temporaryPath input.path
    · rw [htemporary, Function.update_self] at hpath
      cases hpath
    · rw [Function.update_of_ne htemporary] at hpath
      by_cases heq : path = input.path
      · rw [heq, Function.update_self] at hpath
        cases hpath
      · rw [Function.update_of_ne heq] at hpath
        rcases h.directories hpath with hnil | ⟨index, other, hle, hrest⟩
        · exact .inl hnil
        · exact .inr ⟨index, other, by omega, hrest⟩
  files {path bytes} hpath := by
    by_cases htemporary : path = temporaryPath input.path
    · obtain ⟨_, hfile⟩ := hpath
      rw [htemporary, Function.update_self] at hfile
      cases hfile
    · rw [FileTree.Holds, Function.update_of_ne htemporary] at hpath
      by_cases heq : path = input.path
      · exact .inl ⟨count, input, by omega, hinput, heq⟩
      · rw [Function.update_of_ne heq] at hpath
        rcases h.files hpath with ⟨index, other, hlt, hrest⟩ | ⟨other, hother, hsame⟩
        · exact .inl ⟨index, other, by omega, hrest⟩
        · rw [hinput] at hother
          cases hother
          exact absurd hsame htemporary

end StagedUpTo

end Staged

/-- Where a call is when the first inputs are staged. -/
def StagingPhase.Fits (inputs : List PortInput) (count : Nat) (files : FileTree) :
    StagingPhase → Prop
  | .idle => True
  | .checking index total => index ≤ count ∧ total = bytesBefore inputs index
  | .making index total input _ | .comparing index total input =>
      index ≤ count ∧ inputs[index]? = some input ∧ total = bytesBefore inputs (index + 1)
  | .copying index total input offset => index = count ∧ inputs[index]? = some input ∧
      total = bytesBefore inputs (index + 1) ∧ offset ≤ input.contents.length ∧
      files.Holds (temporaryPath input.path) (input.contents.take offset)
  | .returned => count = inputs.length
  | .raised _ => False

/-- What holds between the steps of calls that stop and start over. -/
def StagingState.Kept (inputs : List PortInput) (s : StagingState) : Prop :=
  ∃ count, StagedUpTo inputs count s.files ∧ s.phase.Fits inputs count s.files

section Kept

variable {staging : InputStaging} {inputs : List PortInput} {s s' : StagingState}

theorem StagingState.Kept.step (hintact : staging.Intact inputs) (hseparated : Separated inputs)
    (hstep : staging.Step s s') (hkept : s.Kept inputs) : s'.Kept inputs := by
  obtain ⟨count, hstaged, hfits⟩ := hkept
  cases hstep with
  | done hnone =>
      have hlength := List.getElem?_eq_none_iff.mp (hintact.none_iff.mp hnone)
      have hle := hstaged.le
      exact ⟨count, hstaged, show count = inputs.length by have := hfits.1; omega⟩
  | refused hitem hcheck =>
      obtain ⟨input, -, hok⟩ := hintact.check hitem
      rw [hfits.2, hok] at hcheck
      cases hcheck
  | checked hitem hcheck =>
      obtain ⟨hinput, rfl⟩ := hintact.checked hitem hcheck
      refine ⟨count, hstaged, hfits.1, hinput, ?_⟩
      rw [bytesBefore_succ hinput, hfits.2]
  | made hparent hmake =>
      have hmem := List.mem_of_getElem? hparent
      rw [FileTree.makeDirectories_singleton_eq hmake]
      exact ⟨count, hstaged.makeParent hseparated hfits.1 hfits.2.1 hmem, hfits⟩
  | blocked hparent hmake =>
      have hmem := List.mem_of_getElem? hparent
      obtain ⟨files', hsome⟩ := FileTree.makeDirectories_some
        (hstaged.not_file_of_parent hseparated hfits.1 hfits.2.1 hmem)
      rw [hsome] at hmake
      cases hmake
  | allMade _ => exact ⟨count, hstaged, hfits⟩
  | @kept files index total input bytes hfile _ =>
      obtain ⟨hle, hinput, htotal⟩ := hfits
      refine ⟨count, hstaged, ?_, htotal⟩
      rcases Nat.lt_or_eq_of_le hle with hlt | rfl
      · exact hlt
      · obtain ⟨_, hnode⟩ := hfile
        cases hnode.symm.trans (hstaged.path_none hseparated hinput)
  | conflicted hfile hdigest =>
      obtain ⟨hle, hinput, -⟩ := hfits
      rcases Nat.lt_or_eq_of_le hle with hlt | rfl
      · exact absurd (congrArg _ (hfile.unique (hstaged.staged hlt hinput))) hdigest
      · obtain ⟨_, hnode⟩ := hfile
        cases hnode.symm.trans (hstaged.path_none hseparated hinput)
  | occupied hdirectory =>
      obtain ⟨hle, hinput, -⟩ := hfits
      rcases Nat.lt_or_eq_of_le hle with hlt | rfl
      · exact absurd hdirectory (hstaged.staged hlt hinput).not_directory
      · cases hdirectory.symm.trans (hstaged.path_none hseparated hinput)
  | opened hnone hopen =>
      obtain ⟨hle, hinput, htotal⟩ := hfits
      obtain ⟨-, executable, rfl⟩ := FileTree.truncate_eq hopen
      obtain rfl := hstaged.eq_count hle hinput hnone
      exact ⟨_, hstaged.writeTemporary hseparated hinput _ _, rfl, hinput, htotal,
        Nat.zero_le _, executable, Function.update_self ..⟩
  | unopened hnone hopen =>
      obtain ⟨hle, hinput, -⟩ := hfits
      obtain rfl := hstaged.eq_count hle hinput hnone
      obtain ⟨files', hsome⟩ :=
        FileTree.truncate_some (hstaged.temporary_not_directory hseparated hinput)
      cases hopen.symm.trans hsome
  | copied hwrite =>
      obtain ⟨rfl, hinput, htotal, hoffset, hheld⟩ := hfits
      obtain ⟨bytes, executable, hnode, rfl⟩ := FileTree.writeAt_eq hwrite
      obtain rfl := FileTree.Holds.unique ⟨executable, hnode⟩ hheld
      refine ⟨_, hstaged.writeTemporary hseparated hinput _ _, rfl, hinput, htotal, ?_,
        executable, ?_⟩
      · simp only [List.length_take, List.length_drop]
        omega
      · rw [overwrite_take hoffset]
        exact Function.update_self ..
  | replaced hreplace =>
      obtain ⟨rfl, hinput, htotal, -, executable, hnode⟩ := hfits
      rw [List.take_length] at hnode
      obtain ⟨-, node, hsource, rfl⟩ := FileTree.replaceFile_eq hreplace
      obtain rfl := Option.some.inj (hsource.symm.trans hnode)
      exact ⟨_, hstaged.replace hseparated hinput executable, le_rfl, htotal⟩
  | unreplaced hreplace =>
      obtain ⟨rfl, hinput, -, -, executable, hnode⟩ := hfits
      rw [FileTree.replaceFile_some hnode (hstaged.path_none hseparated hinput)] at hreplace
      cases hreplace

theorem StagingState.Kept.event {event : StagingEvent} (hintact : staging.Intact inputs)
    (hseparated : Separated inputs) (hkept : s.Kept inputs)
    (hstep : staging.calls.step s event = some s') : s'.Kept inputs := by
  rcases InputStaging.step_cases hstep with ⟨-, hgoes⟩ | ⟨-, hfiles, hphase⟩
  · exact hkept.step hintact hseparated hgoes
  · obtain ⟨count, hstaged, -⟩ := hkept
    refine ⟨count, hfiles ▸ hstaged, ?_⟩
    rcases hphase with hphase | hphase <;> rw [hphase]
    · exact ⟨Nat.zero_le _, rfl⟩
    · exact trivial

theorem kept_of_reachable (hintact : staging.Intact inputs) (hseparated : Separated inputs)
    (hreach : staging.calls.Reachable TransitionSystem.anyStep s) : s.Kept inputs := by
  refine hreach.invariant (StagingState.Kept inputs) ?_ ?_
  · rintro s rfl
    exact ⟨0, .empty, trivial⟩
  · intro s event s' _ hkept _ hstep
    exact hkept.event hintact hseparated hstep

/-- The guard of the steps of one call. -/
def InputStaging.goesOn (_ : StagingState) (event : StagingEvent) : Prop := event.goesOn = true

theorem not_kept_raised {files : FileTree} {message : String} :
    ¬ StagingState.Kept inputs ⟨files, .raised message⟩ := by
  rintro ⟨_, -, hfits⟩
  exact hfits

/-- The call goes on to a state in such a phase. -/
def InputStaging.GoesTo (staging : InputStaging) (inputs : List PortInput) (s : StagingState)
    (goal : StagingPhase → Prop) : Prop :=
  ∃ s', s'.Kept inputs ∧ staging.calls.Leads InputStaging.goesOn s s' ∧ goal s'.phase

/-- The call has gone on to the port at the place. -/
def StagingPhase.isAt (index : Nat) : StagingPhase → Prop
  | .checking index' _ => index' = index
  | _ => False

section Progress

variable {files : FileTree} {index total offset depth : Nat} {input : PortInput}
  {goal : StagingPhase → Prop} {event : StagingEvent}
  (hintact : staging.Intact inputs) (hseparated : Separated inputs)
include hintact hseparated

theorem StagingState.Kept.goesTo (hkept : s.Kept inputs) (hgoes : event.goesOn = true)
    (hstep : staging.calls.step s event = some s')
    (hrest : s'.Kept inputs → staging.GoesTo inputs s' goal) : staging.GoesTo inputs s goal := by
  obtain ⟨s'', hkept'', hleads, hgoal⟩ := hrest (hkept.event hintact hseparated hstep)
  have hfirst : staging.calls.Leads InputStaging.goesOn s s' := .step .refl hgoes hstep
  exact ⟨s'', hkept'', hfirst.trans hleads, hgoal⟩

theorem goesTo_of_copied
    (hkept : StagingState.Kept inputs ⟨files, .copying index total input input.contents.length⟩) :
    staging.GoesTo inputs ⟨files, .copying index total input input.contents.length⟩
      (StagingPhase.isAt (index + 1)) := by
  cases hreplace : files.replaceFile (temporaryPath input.path) input.path with
  | none =>
      have hstep : staging.calls.step ⟨files, .copying index total input input.contents.length⟩
          .proceed = some ⟨files, .raised "OSError"⟩ := by
        simp [InputStaging.calls, InputStaging.step, InputStaging.proceed, InputStaging.replace,
          hreplace]
      exact absurd (hkept.event hintact hseparated hstep) not_kept_raised
  | some files' =>
      have hstep : staging.calls.step ⟨files, .copying index total input input.contents.length⟩
          .proceed = some ⟨files', .checking (index + 1) total⟩ := by
        simp [InputStaging.calls, InputStaging.step, InputStaging.proceed, InputStaging.replace,
          hreplace]
      exact hkept.goesTo hintact hseparated rfl hstep fun hkept' => ⟨_, hkept', .refl, rfl⟩

theorem goesTo_of_copying
    (hkept : StagingState.Kept inputs ⟨files, .copying index total input offset⟩) :
    staging.GoesTo inputs ⟨files, .copying index total input offset⟩
      (StagingPhase.isAt (index + 1)) := by
  obtain ⟨_, -, -, -, -, hoffset, executable, hnode⟩ := id hkept
  have hlength : offset + ((input.contents.drop offset).take
      (input.contents.length - offset)).length = input.contents.length := by
    simp only [List.length_take, List.length_drop]
    omega
  have hfile : files (temporaryPath input.path) =
      some (.file (input.contents.take offset) executable) := hnode
  have hstep : ∃ files', staging.calls.step ⟨files, .copying index total input offset⟩
      (.copy (input.contents.length - offset)) =
        some ⟨files', .copying index total input input.contents.length⟩ := by
    simp only [InputStaging.calls, InputStaging.step, InputStaging.copy, hlength,
      FileTree.writeAt, hfile]
    exact ⟨_, rfl⟩
  obtain ⟨files', hstep⟩ := hstep
  exact hkept.goesTo hintact hseparated rfl hstep (goesTo_of_copied hintact hseparated)

theorem goesTo_of_comparing
    (hkept : StagingState.Kept inputs ⟨files, .comparing index total input⟩) :
    staging.GoesTo inputs ⟨files, .comparing index total input⟩
      (StagingPhase.isAt (index + 1)) := by
  have hstep : staging.calls.step ⟨files, .comparing index total input⟩ .proceed =
      some (staging.compare ⟨files, .comparing index total input⟩ index total input) := rfl
  have hkept' := hkept.event hintact hseparated hstep
  have hnext : staging.Step _ _ := InputStaging.step_compare files index total input
  refine hkept.goesTo hintact hseparated rfl hstep fun _ => ?_
  generalize staging.compare _ _ _ _ = s' at hnext hkept'
  cases hnext with
  | kept _ _ => exact ⟨_, hkept', .refl, rfl⟩
  | conflicted _ _ => exact absurd hkept' not_kept_raised
  | occupied _ => exact absurd hkept' not_kept_raised
  | opened _ _ => exact goesTo_of_copying hintact hseparated hkept'
  | unopened _ _ => exact absurd hkept' not_kept_raised

theorem goesTo_of_making
    (hkept : StagingState.Kept inputs ⟨files, .making index total input depth⟩) :
    staging.GoesTo inputs ⟨files, .making index total input depth⟩
      (StagingPhase.isAt (index + 1)) := by
  -- One parent fewer is left after each step.
  induction hleft : (parentPaths input.path).length - depth generalizing files depth with
  | zero =>
      have hparent : (parentPaths input.path)[depth]? = none :=
        List.getElem?_eq_none (by omega)
      have hstep : staging.calls.step ⟨files, .making index total input depth⟩ .proceed =
          some ⟨files, .comparing index total input⟩ := by
        simp [InputStaging.calls, InputStaging.step, InputStaging.proceed,
          InputStaging.makeParent, hparent]
      exact hkept.goesTo hintact hseparated rfl hstep (goesTo_of_comparing hintact hseparated)
  | succ left ih =>
      have hstep : staging.calls.step ⟨files, .making index total input depth⟩ .proceed =
          some (InputStaging.makeParent ⟨files, .making index total input depth⟩ index total
            input depth) := rfl
      have hkept' := hkept.event hintact hseparated hstep
      have hnext : staging.Step _ _ :=
        InputStaging.step_makeParent files index total input depth
      refine hkept.goesTo hintact hseparated rfl hstep fun _ => ?_
      generalize InputStaging.makeParent _ _ _ _ _ = s' at hnext hkept'
      cases hnext with
      | made _ _ => exact ih hkept' (by omega)
      | blocked _ _ => exact absurd hkept' not_kept_raised
      | allMade _ => exact goesTo_of_comparing hintact hseparated hkept'

omit hintact hseparated in
/-- A call that goes on to a port returns when it returns from there. -/
theorem goesTo_returned_of_isAt (hat : staging.GoesTo inputs s (StagingPhase.isAt index))
    (hnext : ∀ files total, StagingState.Kept inputs ⟨files, .checking index total⟩ →
      staging.GoesTo inputs ⟨files, .checking index total⟩ (· = .returned)) :
    staging.GoesTo inputs s (· = .returned) := by
  obtain ⟨⟨files, phase⟩, hkept, hleads, hphase⟩ := hat
  cases phase with
  | checking index' total =>
      obtain rfl : index' = index := hphase
      obtain ⟨s', hkept', hleads', hreturned⟩ := hnext files total hkept
      exact ⟨s', hkept', hleads.trans hleads', hreturned⟩
  | idle | returned => exact hphase.elim
  | raised message => exact hphase.elim
  | making _ _ _ _ => exact hphase.elim
  | comparing _ _ _ => exact hphase.elim
  | copying _ _ _ _ => exact hphase.elim

theorem goesTo_returned_of_checking
    (hkept : StagingState.Kept inputs ⟨files, .checking index total⟩) :
    staging.GoesTo inputs ⟨files, .checking index total⟩ (· = .returned) := by
  -- One port fewer is left each time.
  induction hleft : inputs.length - index generalizing files index total with
  | zero =>
      have hnone := hintact.none_iff.mpr (List.getElem?_eq_none (i := index) (by omega))
      have hstep : staging.calls.step ⟨files, .checking index total⟩ .proceed =
          some ⟨files, .returned⟩ := by
        simp [InputStaging.calls, InputStaging.step, InputStaging.proceed, InputStaging.check,
          hnone]
      exact hkept.goesTo hintact hseparated rfl hstep fun hkept' => ⟨_, hkept', .refl, rfl⟩
  | succ left ih =>
      have hstep : staging.calls.step ⟨files, .checking index total⟩ .proceed =
          some (staging.check ⟨files, .checking index total⟩ index total) := rfl
      have hkept' := hkept.event hintact hseparated hstep
      have hnext : staging.Step _ _ := InputStaging.step_check files index total
      refine hkept.goesTo hintact hseparated rfl hstep fun _ => ?_
      generalize staging.check _ _ _ = s' at hnext hkept'
      cases hnext with
      | done _ => exact ⟨_, hkept', .refl, rfl⟩
      | refused _ _ => exact absurd hkept' not_kept_raised
      | checked _ _ =>
          refine goesTo_returned_of_isAt
            (goesTo_of_making hintact hseparated hkept') fun files' total' hkept'' => ?_
          exact ih hkept'' (by omega)

theorem goesTo_returned (hkept : s.Kept inputs) (hrunning : s.phase.isRunning = true) :
    staging.GoesTo inputs s (· = .returned) := by
  obtain ⟨files, phase⟩ := s
  have hnext : ∀ index files total, StagingState.Kept inputs ⟨files, .checking index total⟩ →
      staging.GoesTo inputs ⟨files, .checking index total⟩ (· = .returned) :=
    fun _ _ _ => goesTo_returned_of_checking hintact hseparated
  cases phase with
  | idle | returned => cases hrunning
  | raised message => cases hrunning
  | checking index total => exact hnext index files total hkept
  | making index total input depth =>
      exact goesTo_returned_of_isAt
        (goesTo_of_making hintact hseparated hkept) (hnext _)
  | comparing index total input =>
      exact goesTo_returned_of_isAt
        (goesTo_of_comparing hintact hseparated hkept) (hnext _)
  | copying index total input offset =>
      exact goesTo_returned_of_isAt
        (goesTo_of_copying hintact hseparated hkept) (hnext _)

end Progress

end Kept

/-- No call raises, a call that goes on returns, and every port has its own artifact then. -/
structure InputStaging.Works (staging : InputStaging) (inputs : List PortInput) : Prop where
  never_raises : ∀ s, staging.calls.Reachable TransitionSystem.anyStep s →
    ∀ message, s.phase ≠ .raised message
  returns : ∀ s, staging.calls.Reachable TransitionSystem.anyStep s → s.phase.isRunning = true →
    ∃ s', staging.calls.Leads InputStaging.goesOn s s' ∧ s'.phase = .returned
  staged : ∀ s, staging.calls.Reachable TransitionSystem.anyStep s → s.phase = .returned →
    ∀ input ∈ inputs, s.files.Holds input.path input.contents

theorem InputStaging.Intact.works {staging : InputStaging} {inputs : List PortInput}
    (hintact : staging.Intact inputs)
    (hkept : (inputs.map PortInput.path).Pairwise KeptApart) : staging.Works inputs where
  never_raises s hreach message hphase := by
    have h := kept_of_reachable hintact (hintact.separated hkept) hreach
    obtain ⟨files, phase⟩ := s
    obtain rfl : phase = .raised message := hphase
    exact not_kept_raised h
  returns s hreach hrunning := by
    have h := kept_of_reachable hintact (hintact.separated hkept) hreach
    obtain ⟨s', -, hleads, hreturned⟩ :=
      goesTo_returned hintact (hintact.separated hkept) h hrunning
    exact ⟨s', hleads, hreturned⟩
  staged s hreach hreturned input hinput := by
    obtain ⟨count, hstaged, hfits⟩ :=
      kept_of_reachable hintact (hintact.separated hkept) hreach
    rw [hreturned] at hfits
    obtain rfl : count = inputs.length := hfits
    obtain ⟨index, hlt, rfl⟩ := List.getElem_of_mem hinput
    exact hstaged.staged hlt (List.getElem?_eq_getElem hlt)

end QhpcEcosystem
