/-
Ports that are not kept apart collide.  A call that goes on from the empty directory has made
the parents of the ports before it a directory, and has lost every earlier port that lies at the
temporary file of a later one.  So staging works for all artifacts exactly when the paths of
the ports are kept apart.
-/
import QhpcEcosystem.StagedInputs

namespace QhpcEcosystem

/-! ## Directories stay -/

section Directories

variable {files files' : FileTree} {path : PathComponents}

def FileTree.KeepsDirectories (files files' : FileTree) : Prop :=
  ∀ path, files path = some .directory → files' path = some .directory

theorem FileTree.KeepsDirectories.trans {files'' : FileTree} (h : files.KeepsDirectories files')
    (h' : files'.KeepsDirectories files'') : files.KeepsDirectories files'' :=
  fun path hpath => h' path (h path hpath)

theorem FileTree.keepsDirectories_update (h : files path ≠ some .directory)
    (node : Option FileNode) : files.KeepsDirectories (Function.update files path node) := by
  intro other hother
  have hne : other ≠ path := by
    rintro rfl
    exact h hother
  rwa [Function.update_of_ne hne]

theorem FileTree.keepsDirectories_make (h : files.makeDirectories [path] = some files') :
    files.KeepsDirectories files' :=
  fun _ hother => (FileTree.makeDirectories_grows h).node hother

theorem FileTree.keepsDirectories_replace {source target : PathComponents} {bytes : List UInt8}
    (hsource : files.Holds source bytes) (h : files.replaceFile source target = some files') :
    files.KeepsDirectories files' := by
  obtain ⟨htarget, node, hnode, rfl⟩ := FileTree.replaceFile_eq h
  refine (FileTree.keepsDirectories_update htarget _).trans
    (FileTree.keepsDirectories_update ?_ _)
  obtain ⟨executable, hfile⟩ := hsource
  obtain rfl := Option.some.inj (hfile.symm.trans hnode)
  by_cases heq : source = target
  · rw [heq, Function.update_self]
    simp
  · rw [Function.update_of_ne heq, hfile]
    simp

end Directories

/-! ## One call -/

/-- The parents of the first inputs are directories. -/
def ParentsMade (inputs : List PortInput) (count : Nat) (files : FileTree) : Prop :=
  ∀ index (input : PortInput), index < count → inputs[index]? = some input →
    ∀ parent ∈ parentPaths input.path, files parent = some .directory

/-- The directories that a call has made. -/
def StagingPhase.Made (inputs : List PortInput) (files : FileTree) : StagingPhase → Prop
  | .idle | .raised _ => True
  | .checking index _ => ParentsMade inputs index files
  | .making index _ input depth => inputs[index]? = some input ∧ ParentsMade inputs index files ∧
      ∀ place parent, place < depth → (parentPaths input.path)[place]? = some parent →
        files parent = some .directory
  | .comparing index _ input =>
      inputs[index]? = some input ∧ ParentsMade inputs (index + 1) files
  | .copying index _ input _ => inputs[index]? = some input ∧
      ParentsMade inputs (index + 1) files ∧
      ∃ bytes, files.Holds (temporaryPath input.path) bytes
  | .returned => ParentsMade inputs inputs.length files

/-- No two inputs have one path. -/
def DistinctPaths (inputs : List PortInput) : Prop :=
  ∀ {index index' : Nat} {input other : PortInput}, inputs[index]? = some input →
    inputs[index']? = some other → input.path = other.path → index = index'

/-- Every file is one of the first inputs. -/
def OnlyStaged (inputs : List PortInput) (count : Nat) (files : FileTree) : Prop :=
  ∀ path bytes, files.Holds path bytes →
    ∃ (index : Nat) (input : PortInput), index < count ∧ inputs[index]? = some input ∧
      path = input.path

/-- An input at or below the temporary file of a later one is not there. -/
def Lost (inputs : List PortInput) (count : Nat) (files : FileTree) : Prop :=
  ∀ (index later : Nat) (input other : PortInput), index < later → later < count →
    inputs[index]? = some input → inputs[later]? = some other →
    temporaryPath other.path <+: input.path → ∀ bytes, ¬ files.Holds input.path bytes

/-- What a call has lost; a copy is seen without its temporary file. -/
def StagingPhase.Loses (inputs : List PortInput) (files : FileTree) : StagingPhase → Prop
  | .idle | .raised _ => True
  | .checking index _ | .making index _ _ _ | .comparing index _ _ =>
      OnlyStaged inputs index files ∧ Lost inputs index files
  | .copying index _ input _ =>
      OnlyStaged inputs index (Function.update files (temporaryPath input.path) none) ∧
        Lost inputs index (Function.update files (temporaryPath input.path) none)
  | .returned => Lost inputs inputs.length files

section OneCall

variable {staging : InputStaging} {inputs : List PortInput} {s s' : StagingState}
  {files files' : FileTree} {count index : Nat} {input : PortInput}

theorem ParentsMade.keeps (h : ParentsMade inputs count files)
    (hkeeps : files.KeepsDirectories files') : ParentsMade inputs count files' :=
  fun index input hlt hinput parent hparent =>
    hkeeps parent (h index input hlt hinput parent hparent)

theorem ParentsMade.succ (h : ParentsMade inputs index files)
    (hinput : inputs[index]? = some input)
    (hparents : ∀ parent ∈ parentPaths input.path, files parent = some .directory) :
    ParentsMade inputs (index + 1) files := by
  intro index' other hlt hother
  by_cases heq : index' = index
  · subst heq
    rw [hinput] at hother
    cases hother
    exact hparents
  · exact h index' other (by omega) hother

theorem made_step (hintact : staging.Intact inputs) (hstep : staging.Step s s')
    (hmade : s.phase.Made inputs s.files) : s'.phase.Made inputs s'.files := by
  cases hstep with
  | done hnone =>
      have hlength := List.getElem?_eq_none_iff.mp (hintact.none_iff.mp hnone)
      exact fun index input hlt => hmade index input (by omega)
  | refused _ _ | blocked _ _ | conflicted _ _ | occupied _ | unopened _ _ | unreplaced _ =>
      exact trivial
  | checked hitem hcheck =>
      exact ⟨(hintact.checked hitem hcheck).1, hmade, fun _ _ hlt => absurd hlt (Nat.not_lt_zero _)⟩
  | @made files index total input depth parent files' hparent hmake =>
      have hkeeps := FileTree.keepsDirectories_make hmake
      obtain ⟨hinput, hbefore, hplaces⟩ := hmade
      refine ⟨hinput, hbefore.keeps hkeeps, fun place other hlt hplace => ?_⟩
      by_cases hlast : place < depth
      · exact hkeeps other (hplaces place other hlast hplace)
      · obtain rfl : place = depth := by omega
        obtain rfl := Option.some.inj (hparent.symm.trans hplace)
        exact FileTree.makeDirectories_singleton hmake
  | allMade hnone =>
      obtain ⟨hinput, hbefore, hplaces⟩ := hmade
      have hlength := List.getElem?_eq_none_iff.mp hnone
      refine ⟨hinput, hbefore.succ hinput fun parent hparent => ?_⟩
      obtain ⟨place, hlt, rfl⟩ := List.getElem_of_mem hparent
      exact hplaces place _ (by omega) (List.getElem?_eq_getElem hlt)
  | kept _ _ => exact hmade.2
  | opened _ hopen =>
      obtain ⟨hnode, executable, rfl⟩ := FileTree.truncate_eq hopen
      exact ⟨hmade.1, hmade.2.keeps (FileTree.keepsDirectories_update hnode _), [], executable,
        Function.update_self ..⟩
  | copied hwrite =>
      obtain ⟨bytes, executable, hnode, rfl⟩ := FileTree.writeAt_eq hwrite
      have hkeeps := FileTree.keepsDirectories_update
        (FileTree.Holds.not_directory ⟨executable, hnode⟩)
      exact ⟨hmade.1, hmade.2.1.keeps (hkeeps _), _, executable, Function.update_self ..⟩
  | replaced hreplace =>
      obtain ⟨-, hparents, bytes, hheld⟩ := hmade
      exact hparents.keeps (FileTree.keepsDirectories_replace hheld hreplace)

/-- Files may have gone, and none is new. -/
def FileTree.NoNewFiles (files files' : FileTree) : Prop :=
  ∀ path bytes, files'.Holds path bytes → files.Holds path bytes

theorem FileTree.noNewFiles_update (path : PathComponents) {node : Option FileNode}
    (hnode : ∀ bytes executable, node ≠ some (.file bytes executable)) :
    files.NoNewFiles (Function.update files path node) := by
  rintro other bytes ⟨executable, hfile⟩
  by_cases heq : other = path
  · rw [heq, Function.update_self] at hfile
    exact absurd hfile (hnode bytes executable)
  · rw [Function.update_of_ne heq] at hfile
    exact ⟨executable, hfile⟩

theorem FileTree.noNewFiles_directory (path : PathComponents) :
    files.NoNewFiles (Function.update files path (some .directory)) :=
  FileTree.noNewFiles_update path (by simp)

theorem FileTree.noNewFiles_remove (path : PathComponents) :
    files.NoNewFiles (Function.update files path none) :=
  FileTree.noNewFiles_update path (by simp)

theorem OnlyStaged.noNewFiles (h : OnlyStaged inputs count files)
    (hnew : files.NoNewFiles files') : OnlyStaged inputs count files' :=
  fun path bytes hfile => h path bytes (hnew path bytes hfile)

theorem Lost.noNewFiles (h : Lost inputs count files)
    (hnew : files.NoNewFiles files') : Lost inputs count files' :=
  fun index later input other hlt hlater hinput hother hbelow bytes hfile =>
    h index later input other hlt hlater hinput hother hbelow bytes (hnew _ bytes hfile)

/-- The next input is put in place. -/
theorem OnlyStaged.place (h : OnlyStaged inputs index files)
    (hinput : inputs[index]? = some input) (node : Option FileNode) :
    OnlyStaged inputs (index + 1) (Function.update files input.path node) := by
  intro path bytes hfile
  by_cases heq : path = input.path
  · exact ⟨index, input, Nat.lt_succ_self index, hinput, heq⟩
  · rw [FileTree.Holds, Function.update_of_ne heq] at hfile
    obtain ⟨index', other, hlt, hrest⟩ := h path bytes hfile
    exact ⟨index', other, by omega, hrest⟩

theorem Lost.place (h : Lost inputs index files) (hinput : inputs[index]? = some input)
    (hdistinct : ∀ index' (other : PortInput), index' < index → inputs[index']? = some other →
      other.path ≠ input.path)
    (hnone : ∀ index' (other : PortInput), index' < index → inputs[index']? = some other →
      temporaryPath input.path <+: other.path → files other.path = none)
    (node : Option FileNode) : Lost inputs (index + 1) (Function.update files input.path node) := by
  intro index' later other next hlt hlater hother hnext hbelow bytes hfile
  rw [FileTree.Holds, Function.update_of_ne (hdistinct index' other (by omega) hother)] at hfile
  by_cases heq : later = index
  · subst heq
    rw [hinput] at hnext
    cases hnext
    obtain ⟨executable, hfile⟩ := hfile
    rw [hnone index' other hlt hother hbelow] at hfile
    cases hfile
  · exact h index' later other next hlt (by omega) hother hnext hbelow bytes hfile

theorem loses_step (hintact : staging.Intact inputs)
    (hdistinct : DistinctPaths inputs)
    (hstep : staging.Step s s') (hmade : s.phase.Made inputs s.files)
    (hloses : s.phase.Loses inputs s.files) : s'.phase.Loses inputs s'.files := by
  cases hstep with
  | done hnone =>
      have hlength := List.getElem?_eq_none_iff.mp (hintact.none_iff.mp hnone)
      exact fun index later input other hlt hlater =>
        hloses.2 index later input other hlt (by omega)
  | refused _ _ | blocked _ _ | conflicted _ _ | occupied _ | unopened _ _ | unreplaced _ =>
      exact trivial
  | checked _ _ | allMade _ => exact hloses
  | made _ hmake =>
      rw [FileTree.makeDirectories_singleton_eq hmake]
      exact ⟨hloses.1.noNewFiles (FileTree.noNewFiles_directory _),
        hloses.2.noNewFiles (FileTree.noNewFiles_directory _)⟩
  | kept hfile _ =>
      obtain ⟨index', other, hlt, hother, heq⟩ := hloses.1 _ _ hfile
      have := hdistinct hmade.1 hother heq
      omega
  | opened _ hopen =>
      obtain ⟨-, executable, rfl⟩ := FileTree.truncate_eq hopen
      simp only [StagingPhase.Loses, Function.update_idem]
      exact ⟨hloses.1.noNewFiles (FileTree.noNewFiles_remove _),
        hloses.2.noNewFiles (FileTree.noNewFiles_remove _)⟩
  | copied hwrite =>
      obtain ⟨bytes, executable, -, rfl⟩ := FileTree.writeAt_eq hwrite
      simp only [StagingPhase.Loses, Function.update_idem]
      exact hloses
  | @replaced files index total input files' hreplace =>
      obtain ⟨-, node, -, rfl⟩ := FileTree.replaceFile_eq hreplace
      obtain ⟨hinput, hparents, bytes, hheld⟩ := hmade
      rw [Function.update_comm temporaryPath_ne.symm]
      refine ⟨hloses.1.place hinput _, hloses.2.place hinput ?_ ?_ _⟩
      · intro index' other hlt hother heq
        have := hdistinct hother hinput heq
        omega
      · intro index' other hlt hother hbelow
        by_cases heq : temporaryPath input.path = other.path
        · rw [heq]
          exact Function.update_self ..
        · have hparent := mem_parentPaths_of_prefix hbelow heq temporaryPath_ne_nil
          have hdirectory := hparents index' other (by omega) hother _ hparent
          exact absurd hdirectory hheld.not_directory

theorem made_of_leads (hintact : staging.Intact inputs)
    (hleads : staging.calls.Leads InputStaging.goesOn s s')
    (hmade : s.phase.Made inputs s.files) : s'.phase.Made inputs s'.files := by
  induction hleads with
  | refl => exact hmade
  | step _ hgoes hnext ih =>
      rcases InputStaging.step_cases hnext with ⟨-, hstep⟩ | ⟨hnot, -⟩
      · exact made_step hintact hstep ih
      · cases hnot.symm.trans hgoes

theorem loses_of_leads (hintact : staging.Intact inputs)
    (hdistinct : DistinctPaths inputs)
    (hleads : staging.calls.Leads InputStaging.goesOn s s')
    (hmade : s.phase.Made inputs s.files) (hloses : s.phase.Loses inputs s.files) :
    s'.phase.Loses inputs s'.files := by
  induction hleads with
  | refl => exact hloses
  | step hprev hgoes hnext ih =>
      rcases InputStaging.step_cases hnext with ⟨-, hstep⟩ | ⟨hnot, -⟩
      · exact loses_step hintact hdistinct hstep (made_of_leads hintact hprev hmade) ih
      · cases hnot.symm.trans hgoes

/-- What is there when the first call has returned. -/
theorem InputStaging.Works.returned (hworks : staging.Works inputs)
    (hintact : staging.Intact inputs) : ∃ files : FileTree,
      (∀ input ∈ inputs, files.Holds input.path input.contents) ∧
      ParentsMade inputs inputs.length files ∧
      (DistinctPaths inputs → Lost inputs inputs.length files) := by
  have hstart : staging.calls.step ⟨emptyDirectory, .idle⟩ .start =
      some ⟨emptyDirectory, .checking 0 0⟩ := rfl
  have hreach : staging.calls.Reachable TransitionSystem.anyStep
      ⟨emptyDirectory, .checking 0 0⟩ := .step (.initial rfl) trivial hstart
  obtain ⟨⟨files, phase⟩, hleads, hreturned⟩ := hworks.returns _ hreach rfl
  obtain rfl : phase = .returned := hreturned
  have hnone : ParentsMade inputs 0 emptyDirectory := fun _ _ hlt => absurd hlt (Nat.not_lt_zero _)
  have hempty : OnlyStaged inputs 0 emptyDirectory ∧ Lost inputs 0 emptyDirectory :=
    ⟨fun path bytes hfile => absurd hfile (not_holds_emptyDirectory path bytes),
      fun _ _ _ _ _ hlt => absurd hlt (Nat.not_lt_zero _)⟩
  exact ⟨files, hworks.staged _ (hleads.unguarded.reachable hreach) rfl,
    made_of_leads hintact hleads hnone,
    fun hdistinct => loses_of_leads hintact hdistinct hleads hnone hempty⟩

end OneCall

/-! ## Artifacts with given contents -/

/-- The paths of the ports below the directory of the inputs. -/
def PortPaths (mount : String) (ports : List (String × String)) (paths : List PathComponents) :
    Prop :=
  List.Forall₂ (fun item path => relativePort item.2 mount s!"input port {item.1}" = .ok path)
    ports paths

/-- The record of an artifact with these contents; its URI is the name of its port. -/
def recordOf (digest : List UInt8 → String) (contents : String → List UInt8) (port : String) :
    ArtifactRecord :=
  ⟨0, "", port, digest (contents port), (contents port).length⟩

/-- Artifacts with these contents. -/
def stagingOf (ports : Dict String String) (mount : String) (digest : List UInt8 → String)
    (contents : String → List UInt8) : InputStaging where
  ports := ports
  mount := mount
  maxTaskInputBytes := (ports.rows.map fun item => (contents item.1).length).sum
  inputs :=
    { rows := ports.rows.map fun item => (item.1, recordOf digest contents item.1)
      nodup := by simpa [List.map_map, Function.comp_def, Keyed.key] using ports.nodup }
  localFile uri := .ok (contents uri)
  digest := digest

def inputsOf (ports : List (String × String)) (paths : List PathComponents)
    (contents : String → List UInt8) : List PortInput :=
  List.zipWith (fun item path => ⟨item.1, path, contents item.1⟩) ports paths

section Contents

variable {mount : String} {paths : List PathComponents} {contents : String → List UInt8}
  {digest : List UInt8 → String}

theorem map_contents_inputsOf {items : List (String × String)} (h : PortPaths mount items paths) :
    (inputsOf items paths contents).map (·.contents.length) =
      items.map fun item => (contents item.1).length := by
  induction h with
  | nil => rfl
  | cons _ _ ih => simpa [inputsOf] using ih

theorem getElem?_inputsOf (contents : String → List UInt8) {items : List (String × String)}
    {item : String × String} {path : PathComponents} {index : Nat}
    (hitem : items[index]? = some item) (hpath : paths[index]? = some path) :
    (inputsOf items paths contents)[index]? = some ⟨item.1, path, contents item.1⟩ := by
  simp [inputsOf, List.getElem?_zipWith, hitem, hpath]

theorem supplied_inputsOf {staging : InputStaging} {items : List (String × String)}
    (h : PortPaths mount items paths)
    (hsupplied : ∀ item ∈ items, ∀ path,
      relativePort item.2 mount s!"input port {item.1}" = .ok path →
      staging.Supplies item ⟨item.1, path, contents item.1⟩) :
    List.Forall₂ staging.Supplies items (inputsOf items paths contents) := by
  induction h with
  | nil => exact .nil
  | cons hpath _ ih =>
      exact .cons (hsupplied _ List.mem_cons_self _ hpath)
        (ih fun item hitem => hsupplied item (List.mem_cons_of_mem _ hitem))

theorem stagingOf_intact {ports : Dict String String} (h : PortPaths mount ports.rows paths) :
    (stagingOf ports mount digest contents).Intact (inputsOf ports.rows paths contents) where
  supplied := by
    refine supplied_inputsOf h fun item hitem path hpath =>
      ⟨rfl, hpath, recordOf digest contents item.1, ?_, rfl, rfl, rfl⟩
    have hrow : (item.1, recordOf digest contents item.1) ∈
        (stagingOf ports mount digest contents).inputs.rows :=
      List.mem_map.mpr ⟨item, hitem, rfl⟩
    exact Table.row?_of_mem hrow
  limit := le_of_eq (congrArg List.sum (map_contents_inputsOf h))

theorem paths_of_supplied (staging : InputStaging) {items : List (String × String)}
    {inputs : List PortInput} (hmount : staging.mount = mount) (h : PortPaths mount items paths)
    (hsupplied : List.Forall₂ staging.Supplies items inputs) :
    inputs.map PortInput.path = paths := by
  subst hmount
  induction h generalizing inputs with
  | nil =>
      cases hsupplied
      rfl
  | cons hpath _ ih =>
      cases hsupplied with
      | cons hinput hrest =>
          have hsame := Except.ok.inj (hinput.2.1.symm.trans hpath)
          rw [List.map_cons, ih hrest, hsame]

end Contents

/-! ## When ports are separated -/

section Separation

variable {ports : Dict String String} {mount : String} {paths : List PathComponents}
  {digest : List UInt8 → String}

theorem names_ne {index index' : Nat} {item item' : String × String}
    (hitem : ports.rows[index]? = some item) (hitem' : ports.rows[index']? = some item')
    (hne : index ≠ index') : item.1 ≠ item'.1 := by
  intro hname
  obtain ⟨hlt, rfl⟩ := List.getElem?_eq_some_iff.mp hitem
  obtain ⟨hlt', rfl⟩ := List.getElem?_eq_some_iff.mp hitem'
  have hkeys := ports.nodup
  rw [List.nodup_iff_injective_get] at hkeys
  have hsame := @hkeys ⟨index, by simpa using hlt⟩ ⟨index', by simpa using hlt'⟩
    (by simpa [Keyed.key] using hname)
  exact hne (congrArg Fin.val hsame)

/-- Two ports with different contents are kept apart at the end of a call. -/
theorem apart_of_works (hpaths : PortPaths mount ports.rows paths)
    (hworks : ∀ contents, (stagingOf ports mount digest contents).Works
      (inputsOf ports.rows paths contents))
    {index index' : Nat} {path other : PathComponents} (hpath : paths[index]? = some path)
    (hother : paths[index']? = some other) (hne : index ≠ index') : ¬ path <+: other := by
  intro hbelow
  rcases getElem?_forall₂ hpaths index with ⟨-, hnone⟩ | ⟨item, path', hitem, hpath', hrelative⟩
  · cases hnone.symm.trans hpath
  rcases getElem?_forall₂ hpaths index' with ⟨-, hnone⟩ | ⟨item', other', hitem', hother', -⟩
  · cases hnone.symm.trans hother
  obtain rfl := Option.some.inj (hpath'.symm.trans hpath)
  obtain rfl := Option.some.inj (hother'.symm.trans hother)
  have hname := names_ne hitem hitem' hne
  obtain ⟨files, hheld, hmade, -⟩ :=
    (hworks fun name => if name = item.1 then [] else [0]).returned (stagingOf_intact hpaths)
  have hinput := getElem?_inputsOf (fun name => if name = item.1 then [] else [0]) hitem hpath
  have hinput' := getElem?_inputsOf (fun name => if name = item.1 then [] else [0]) hitem' hother
  have hfile := hheld _ (List.mem_of_getElem? hinput)
  have hfile' := hheld _ (List.mem_of_getElem? hinput')
  by_cases heq : path' = other'
  · subst heq
    have hsame := hfile.unique hfile'
    simp [hname.symm] at hsame
  · have hparent := mem_parentPaths_of_prefix hbelow heq (relativePort_ok hrelative)
    have hlength := (List.getElem?_eq_some_iff.mp hinput').1
    exact hfile.not_directory (hmade index' _ hlength hinput' _ hparent)

/-- What has been lost is not there. -/
theorem not_below_of_lost {inputs : List PortInput} {files : FileTree} {index index' : Nat}
    {input other : PortInput} (hlost : Lost inputs inputs.length files)
    (hheld : ∀ input ∈ inputs, files.Holds input.path input.contents)
    (hinput : inputs[index]? = some input) (hother : inputs[index']? = some other)
    (hless : index < index') : ¬ temporaryPath other.path <+: input.path := by
  intro hbelow
  have hlength := (List.getElem?_eq_some_iff.mp hother).1
  exact hlost index index' input other hless hlength hinput hother hbelow _
    (hheld input (List.mem_of_getElem? hinput))

theorem keptApart_of_lost {inputs : List PortInput} {files : FileTree}
    (hheld : ∀ input ∈ inputs, files.Holds input.path input.contents)
    (hlost : DistinctPaths inputs → Lost inputs inputs.length files)
    (hapart : ∀ {index index' : Nat} {input other : PortInput}, inputs[index]? = some input →
      inputs[index']? = some other → index ≠ index' → ¬ input.path <+: other.path) :
    (inputs.map PortInput.path).Pairwise KeptApart := by
  have hdistinct : DistinctPaths inputs := by
    intro index index' input other hinput hother heq
    by_contra hne
    exact hapart hinput hother hne (heq ▸ List.prefix_refl _)
  rw [List.pairwise_map, List.pairwise_iff_getElem]
  intro index index' hlt hlt' hless
  have hinput := List.getElem?_eq_getElem hlt
  have hother := List.getElem?_eq_getElem hlt'
  exact ⟨hapart hinput hother (by omega), hapart hother hinput (by omega),
    not_below_of_lost (hlost hdistinct) hheld hinput hother hless⟩

theorem keptApart_of_works (hpaths : PortPaths mount ports.rows paths)
    (hworks : ∀ contents, (stagingOf ports mount digest contents).Works
      (inputsOf ports.rows paths contents)) : paths.Pairwise KeptApart := by
  have hintact : (stagingOf ports mount digest fun _ => []).Intact
      (inputsOf ports.rows paths fun _ => []) := stagingOf_intact hpaths
  have hmap : (inputsOf ports.rows paths fun _ => []).map PortInput.path = paths :=
    paths_of_supplied (stagingOf ports mount digest fun _ => []) rfl hpaths hintact.supplied
  have hpathOf : ∀ (place : Nat) (input : PortInput),
      (inputsOf ports.rows paths fun _ => [])[place]? = some input →
      paths[place]? = some input.path := by
    intro place input hinput
    rw [← hmap, List.getElem?_map, hinput]
    rfl
  obtain ⟨files, hheld, -, hlost⟩ := (hworks fun _ => []).returned hintact
  rw [← hmap]
  refine keptApart_of_lost hheld hlost fun hinput hother hne => ?_
  exact apart_of_works hpaths hworks (hpathOf _ _ hinput) (hpathOf _ _ hother) hne

/-- Staging works for all intact inputs, however often it is stopped and started again, exactly
when the paths of the ports are kept apart. -/
theorem inputs_separated_exactly (ports : Dict String String) (mount : String)
    (digest : List UInt8 → String) (paths : List PathComponents)
    (hpaths : PortPaths mount ports.rows paths) :
    (∀ staging : InputStaging, staging.ports = ports → staging.mount = mount →
      staging.digest = digest → ∀ inputs, staging.Intact inputs → staging.Works inputs) ↔
      paths.Pairwise KeptApart := by
  constructor
  · intro hworks
    exact keptApart_of_works hpaths fun contents =>
      hworks (stagingOf ports mount digest contents) rfl rfl rfl _ (stagingOf_intact hpaths)
  · rintro hkept staging rfl rfl rfl inputs hintact
    refine hintact.works ?_
    rw [paths_of_supplied staging rfl hpaths hintact.supplied]
    exact hkept

end Separation

/-- The bytes themselves. -/
def plainDigest (bytes : List UInt8) : String :=
  String.ofList (bytes.map fun byte => Char.ofNat byte.toNat)

/-- A circuit and its settings, and a port at the temporary file of the next one. -/
def separatePorts : Dict String String :=
  ⟨[("circuit", "/inputs/circuit.qasm"), ("settings", "/inputs/conf/settings.json")], by decide⟩

def collidingPorts : Dict String String :=
  ⟨[("backup", "/inputs/.data.tmp"), ("data", "/inputs//data")], by decide⟩

theorem inputs_separated_exactly_sample :
    (∀ staging : InputStaging, staging.ports = separatePorts → staging.mount = "/inputs" →
      staging.digest = plainDigest → ∀ inputs, staging.Intact inputs → staging.Works inputs) ∧
    ¬ ∀ staging : InputStaging, staging.ports = collidingPorts → staging.mount = "/inputs" →
      staging.digest = plainDigest → ∀ inputs, staging.Intact inputs → staging.Works inputs := by
  constructor
  · refine (inputs_separated_exactly separatePorts "/inputs" plainDigest
      [["circuit.qasm"], ["conf", "settings.json"]] ?_).mpr (by decide)
    exact .cons (by decide) (.cons (by decide) .nil)
  · refine (inputs_separated_exactly collidingPorts "/inputs" plainDigest
      [[".data.tmp"], ["data"]] ?_).not.mpr (by decide)
    exact .cons (by decide) (.cons (by decide) .nil)

end QhpcEcosystem
