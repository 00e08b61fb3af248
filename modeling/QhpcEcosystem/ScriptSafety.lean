/-
When a rendered script is safe. The command line is read as its argument vector, and every
other line as intended, exactly if no text of the job has the null character and double quotes
leave the destination of every staged bind as it stands.
-/
import QhpcEcosystem.ScriptLines

namespace QhpcEcosystem

open Shell (Piece Token ReadsLine Spells Stands Unescaped)

/-! ## The command line -/

/-- The tokens after the executable, what each is read as, and on which condition. -/
def ApptainerJob.commandItems (job : ApptainerJob) : List (String × List Piece × Prop) :=
  ["exec", "--containall", "--cleanenv", "--net", "--network", "none", "--no-home", "--pwd"].map
    (fun text => (text, verbatim text, True)) ++
  [(shlexQuote job.workingDirectory, verbatim job.workingDirectory, True)] ++
  job.binds.zipIdx.flatMap (fun bind =>
    [("--bind", verbatim "--bind", True),
      (job.bindToken bind.1 bind.2, job.bindPieces bind.1 bind.2,
        job.stages bind.1 = true → Unescaped bind.1.destination.toList)]) ++
  [(job.imageToken, job.imagePieces, True)] ++
  job.entrypoint.map (fun text => (shlexQuote text, verbatim text, True)) ++
  job.arguments.map (fun text => (shlexQuote text, verbatim text, True))

section Command

variable {job : ApptainerJob} {script : String}

theorem commandTokens_items :
    job.commandTokens = shlexQuote job.apptainerExecutable :: job.commandItems.map (·.1) := by
  simp only [ApptainerJob.commandTokens, ApptainerJob.commandItems, List.map_append,
    List.map_flatMap, List.map_map, List.map_cons, List.map_nil, Function.comp_def,
    List.cons_append, List.nil_append, List.append_assoc]

theorem argumentVector_items :
    job.argumentVector = verbatim job.apptainerExecutable :: job.commandItems.map (·.2.1) := by
  simp only [ApptainerJob.argumentVector, ApptainerJob.commandItems, List.map_append,
    List.map_flatMap, List.map_map, List.map_cons, List.map_nil, Function.comp_def,
    List.cons_append, List.nil_append, List.append_assoc]

/-- The text of a staged bind in front of its destination. -/
theorem run_localBind (index : Nat) (begun : Option (List Piece)) :
    Shell.run ⟨.plain, begun⟩ ("\"" ++ localBind index ++ ":").toList =
      some (⟨.double, some (begun.getD [] ++
        nodeRoot :: verbatim ("/bind-" ++ toString index ++ ":"))⟩, []) := by
  have hname := Shell.run_double_ordinary (all_bindName index ":" rfl)
    (begun.getD [] ++ [nodeRoot, .char '/'])
  rw [quoted_localBind, String.append_assoc, String.toList_append,
    Shell.run_trans (run_nodeRoot begun) hname, ← verbatim_bindName, verbatim_append]
  simp [verbatim]

theorem isDelimiter_colon (rest : List Char) : Shell.IsDelimiter ':' ("ro\"".toList ++ rest) where
  ordinary := rfl
  notName := rfl
  notSpecial := rfl
  inBraces _ _ _ := by
    simp [Shell.tokensFrom, Shell.run, Shell.step]

theorem stands_bind (h : renderApptainerJob job = .ok script) {bind : ApptainerBind}
    (hbind : bind ∈ job.binds) (index : Nat) :
    Stands (job.bindToken bind index).toList (job.bindPieces bind index)
      (job.stages bind = true → Unescaped bind.destination.toList) := by
  by_cases hstages : job.stages bind = true
  · have hclosing : ∀ begun, Shell.run ⟨.double, some begun⟩ "ro\"".toList =
        some (⟨.plain, some (begun ++ "ro\"".toList.dropLast.map .char)⟩, []) := by
      intro begun
      simp [Shell.run, Shell.step, Shell.stepDouble, Shell.put]
    have hstands := Shell.stands_double (run_localBind index) hclosing isDelimiter_colon
      (destination_notMem h hbind)
    have htext : (job.bindToken bind index).toList =
        ("\"" ++ localBind index ++ ":").toList ++ bind.destination.toList ++
          ':' :: "ro\"".toList := by
      rw [ApptainerJob.bindToken, if_pos hstages, String.toList_append, String.toList_append]
      rfl
    have hpieces : job.bindPieces bind index =
        (nodeRoot :: verbatim ("/bind-" ++ toString index ++ ":")) ++
          bind.destination.toList.map .char ++
            .char ':' :: "ro\"".toList.dropLast.map .char := by
      rw [ApptainerJob.bindPieces, if_pos hstages, verbatim_append, verbatim_append]
      rfl
    rw [← htext, ← hpieces] at hstands
    exact ⟨fun hcondition => hstands.spells (hcondition hstages),
      fun rest others hread _ => hstands.needed rest others hread⟩
  · have hspells : Spells (job.bindToken bind index).toList (job.bindPieces bind index) := by
      rw [ApptainerJob.bindToken, if_neg hstages, ApptainerJob.bindPieces, if_neg hstages]
      exact spells_shlexQuote bind.text
    exact ⟨fun _ => hspells, fun _ _ _ htrue => absurd htrue hstages⟩

theorem spells_image (job : ApptainerJob) : Spells job.imageToken.toList job.imagePieces := by
  unfold ApptainerJob.imageToken ApptainerJob.imagePieces
  split
  · exact spells_runtime
  · exact spells_shlexQuote job.image

theorem stands_items (h : renderApptainerJob job = .ok script) :
    ∀ item ∈ job.commandItems, Stands item.1.toList item.2.1 item.2.2 := by
  have hquoted : ∀ text : String, Stands (shlexQuote text).toList (verbatim text) True :=
    fun text => (spells_shlexQuote text).stands
  have hfixed : ∀ text ∈ ["exec", "--containall", "--cleanenv", "--net", "--network", "none",
      "--no-home", "--pwd", "--bind"], Stands text.toList (verbatim text) True := by
    have hall : ∀ text ∈ ["exec", "--containall", "--cleanenv", "--net", "--network", "none",
        "--no-home", "--pwd", "--bind"], text.toList ≠ [] ∧
          text.toList.all Shell.isOrdinary = true := by decide
    exact fun text htext => (spells_fixed (hall text htext).1 (hall text htext).2).stands
  intro item hitem
  simp only [ApptainerJob.commandItems, List.mem_append, List.mem_map, List.mem_flatMap,
    List.mem_singleton] at hitem
  rcases hitem with ((((⟨text, htext, rfl⟩ | rfl) | ⟨bind, hbind, hitem⟩) | rfl) |
    ⟨text, -, rfl⟩) | ⟨text, -, rfl⟩
  · exact hfixed text (List.mem_append_left ["--bind"] htext)
  · exact hquoted _
  · rcases List.mem_cons.mp hitem with rfl | hitem
    · exact hfixed "--bind" (by simp)
    · rw [List.mem_singleton.mp hitem]
      exact stands_bind h (List.fst_mem_of_mem_zipIdx hbind) bind.2
  · exact (spells_image job).stands
  · exact hquoted text
  · exact hquoted text

theorem command_eq (job : ApptainerJob) :
    job.command.toList = (shlexQuote job.apptainerExecutable).toList ++
      Shell.blanks (job.commandItems.map fun item => item.1.toList) := by
  rw [ApptainerJob.command, String.toList_intercalate, commandTokens_items, List.map_cons,
    List.map_map]
  exact Shell.intercalate_blank _ _

/-- The destinations that double quotes leave as they stand. -/
def ApptainerJob.KeepsDestinations (job : ApptainerJob) : Prop :=
  ∀ bind ∈ job.binds, job.stages bind = true → Unescaped bind.destination.toList

theorem forall_items_iff :
    (∀ item ∈ job.commandItems, item.2.2) ↔ job.KeepsDestinations := by
  constructor
  · intro hall bind hbind hstages
    obtain ⟨index, hindex, hget⟩ := List.mem_iff_getElem.mp hbind
    have hzip : (bind, index) ∈ job.binds.zipIdx := by
      rw [List.mk_mem_zipIdx_iff_getElem?, List.getElem?_eq_getElem hindex, hget]
    have hitem : (job.bindToken bind index, job.bindPieces bind index,
        (job.stages bind = true → Unescaped bind.destination.toList)) ∈ job.commandItems := by
      simp only [ApptainerJob.commandItems, List.mem_append, List.mem_flatMap]
      exact .inl (.inl (.inl (.inr ⟨_, hzip,
        List.mem_cons_of_mem _ (List.mem_singleton_self _)⟩)))
    exact hall _ hitem hstages
  · intro hkeeps item hitem
    simp only [ApptainerJob.commandItems, List.mem_append, List.mem_map, List.mem_flatMap,
      List.mem_singleton] at hitem
    rcases hitem with ((((⟨text, -, rfl⟩ | rfl) | ⟨bind, hbind, hitem⟩) | rfl) |
      ⟨text, -, rfl⟩) | ⟨text, -, rfl⟩
    · trivial
    · trivial
    · rcases List.mem_cons.mp hitem with rfl | hitem
      · trivial
      · rw [List.mem_singleton.mp hitem]
        exact hkeeps bind.1 (List.fst_mem_of_mem_zipIdx hbind)
    · trivial
    · trivial
    · trivial

theorem tokens_command_iff (h : renderApptainerJob job = .ok script) :
    Shell.tokens job.command.toList = some (job.argumentVector.map .word) ↔
      job.KeepsDestinations := by
  have hexecutable := spells_shlexQuote job.apptainerExecutable none
  have hvector : job.argumentVector.map Token.word = .word (verbatim job.apptainerExecutable) ::
      job.commandItems.map fun item => .word item.2.1 := by
    rw [argumentVector_items, List.map_cons, List.map_map]
    rfl
  rw [command_eq, hvector, Shell.tokens, Shell.start, Shell.tokensFrom_silent hexecutable,
    ← forall_items_iff]
  exact Shell.tokensFrom_blanks_iff (stands_items h) _

theorem readsLine_command (h : renderApptainerJob job = .ok script)
    (hkeeps : job.KeepsDestinations) :
    ReadsLine job.command.toList (job.argumentVector.map .word) := by
  have hitems : ∀ item ∈ job.commandItems, Spells item.1.toList item.2.1 := fun item hitem =>
    (stands_items h item hitem).spells (forall_items_iff.mpr hkeeps item hitem)
  rw [command_eq, argumentVector_items, List.map_cons, List.map_map]
  exact Shell.readsLine_blanks (spells_shlexQuote job.apptainerExecutable) hitems

theorem readsLines_run (h : renderApptainerJob job = .ok script)
    (hkeeps : job.KeepsDestinations) : ReadsLines job.runLines job.runTokens := by
  have hcommand := readsLine_command h hkeeps
  unfold ApptainerJob.runLines ApptainerJob.runTokens
  cases job.telemetryPath with
  | none =>
      have hexec : Shell.run Shell.start "exec ".toList =
          some (Shell.start, [verbatimWord "exec"]) := by rfl
      have hline := hcommand.prepend hexec
      rw [← String.toList_append] at hline
      exact .cons hline .nil
  | some path =>
      have hon : ReadsLine "set +e".toList [verbatimWord "set", verbatimWord "+e"] := by
        rfl
      have hcode : ReadsLine "QHPC_EXIT_CODE=$?".toList
          [.word (verbatim "QHPC_EXIT_CODE=" ++ [.expansion false ['?']])] := by
        rfl
      have hoff : ReadsLine "set -e".toList [verbatimWord "set", verbatimWord "-e"] := by
        rfl
      have hexit : ReadsLine "exit \"$QHPC_EXIT_CODE\"".toList
          [verbatimWord "exit", .word [parameter "QHPC_EXIT_CODE"]] := by
        rfl
      exact .cons readsLine_stageStart (.cons hon (.cons hcommand (.cons hcode (.cons hoff
        (.cons readsLine_stageEnd (.cons (readsLine_stageRecord (spells_fixed (by simp) (by rfl)))
          (.cons hexit .nil)))))))

/-- Every line of a script whose destinations stand. -/
theorem readsLines_script (h : renderApptainerJob job = .ok script)
    (hkeeps : job.KeepsDestinations) :
    ReadsLines (job.directives ++ job.setup) job.scriptTokens := by
  have hdirectives : ReadsLines job.directives (job.directives.map fun _ => []) := by
    rw [ReadsLines, List.forall₂_map_right_iff, List.forall₂_same]
    exact fun line hline => readsLine_directive h hline
  have hfixed : ReadsLines ["", "set -euo pipefail", "umask 077"]
      [[], [verbatimWord "set", verbatimWord "-euo", verbatimWord "pipefail"],
        [verbatimWord "umask", verbatimWord "077"]] :=
    .cons (by rfl) (.cons (by rfl) (.cons (by rfl) .nil))
  have hstaging : ∀ node ∈ job.nodeLocal.toList,
      ReadsLines (job.stagingLines node) (job.stagingTokens node) := fun node hnode =>
    readsLines_staging h (Option.mem_toList.mp hnode)
  rw [ApptainerJob.scriptTokens, List.append_assoc, List.append_assoc, ApptainerJob.setup,
    List.append_assoc]
  exact hdirectives.append (hfixed.append ((readsLines_flatMap hstaging).append
    (readsLines_run h hkeeps)))

theorem script_eq (job : ApptainerJob) :
    job.script.toList =
      ((job.directives ++ job.setup).map String.toList).flatMap (· ++ ['\n']) := by
  have hbreak : "\n".toList = ['\n'] := rfl
  rw [ApptainerJob.script, String.toList_intercalate, List.map_append, hbreak]
  exact Shell.intercalate_newline _

theorem tokens_script (h : renderApptainerJob job = .ok script)
    (hkeeps : job.KeepsDestinations) :
    Shell.tokens job.script.toList = some (job.scriptTokens.flatMap (· ++ [Token.newline])) := by
  rw [script_eq]
  apply Shell.tokens_lines
  rw [List.forall₂_map_left_iff]
  exact readsLines_script h hkeeps

end Command

/-! ## The null character -/

/-- The texts of a job that may have any character but a few. -/
def ApptainerJob.texts (job : ApptainerJob) : List String :=
  [job.image, job.apptainerExecutable, job.workingDirectory] ++ job.entrypoint ++
    job.arguments ++ job.binds.flatMap (fun bind => [bind.source, bind.destination]) ++
    job.stdoutPath.toList ++ job.stderrPath.toList ++ job.telemetryPath.toList

def HasNoNull (text : String) : Prop :=
  '\x00' ∉ text.toList

instance (text : String) : Decidable (HasNoNull text) :=
  inferInstanceAs (Decidable ('\x00' ∉ text.toList))

section NoNull

variable {job : ApptainerJob} {script : String}

theorem HasNoNull.append {text rest : String} (htext : HasNoNull text) (hrest : HasNoNull rest) :
    HasNoNull (text ++ rest) :=
  notMem_append htext hrest

theorem HasNoNull.shlexQuote {text : String} (h : HasNoNull text) :
    HasNoNull (shlexQuote text) := by
  intro hmem
  rw [toList_shlexQuote] at hmem
  rcases Shell.mem_quote hmem with hmem | hmem | hmem
  · exact h hmem
  · contradiction
  · contradiction

theorem HasNoNull.left {text rest : String} (h : HasNoNull (text ++ rest)) : HasNoNull text := by
  intro hmem
  exact h (by rw [String.toList_append]; exact List.mem_append_left _ hmem)

theorem HasNoNull.right {text rest : String} (h : HasNoNull (text ++ rest)) : HasNoNull rest := by
  intro hmem
  exact h (by rw [String.toList_append]; exact List.mem_append_right _ hmem)

theorem HasNoNull.ofShlexQuote {text : String} (h : HasNoNull (QhpcEcosystem.shlexQuote text)) :
    HasNoNull text := by
  intro hmem
  exact h (by rw [toList_shlexQuote]; exact Shell.subset_quote _ hmem)

theorem hasNoNull_of_slurm {text : String} (h : text.toList.all isSlurmChar = true) :
    HasNoNull text :=
  notMem_of_isSlurmChar h rfl

theorem HasNoNull.localBind (index : Nat) : HasNoNull (localBind index) :=
  HasNoNull.append (by simp [HasNoNull]) (hasNoNull_of_slurm (all_toString_nat index))

theorem hasNoNull_bind (h : ∀ text ∈ job.texts, HasNoNull text) {bind : ApptainerBind}
    (hbind : bind ∈ job.binds) : HasNoNull bind.source ∧ HasNoNull bind.destination := by
  have hmem : ∀ text ∈ [bind.source, bind.destination], text ∈ job.texts := by
    intro text htext
    simp only [ApptainerJob.texts, List.mem_append, List.mem_flatMap]
    exact .inl (.inl (.inl (.inr ⟨bind, hbind, htext⟩)))
  exact ⟨h _ (hmem _ List.mem_cons_self),
    h _ (hmem _ (List.mem_cons_of_mem _ (List.mem_singleton_self _)))⟩

theorem hasNoNull_bindToken (h : ∀ text ∈ job.texts, HasNoNull text) {bind : ApptainerBind}
    (hbind : bind ∈ job.binds) (index : Nat) : HasNoNull (job.bindToken bind index) := by
  obtain ⟨hsource, hdestination⟩ := hasNoNull_bind h hbind
  have hcolon : HasNoNull ":" := by decide
  have hmode : HasNoNull bind.mode := by
    unfold ApptainerBind.mode
    split <;> decide
  unfold ApptainerJob.bindToken
  split
  · exact ((((show HasNoNull "\"" by decide).append (.localBind index)).append hcolon).append
      hdestination).append (by decide)
  · exact ((((hsource.append hcolon).append hdestination).append hcolon).append hmode).shlexQuote

theorem hasNoNull_commandTokens (h : ∀ text ∈ job.texts, HasNoNull text) :
    ∀ token ∈ job.commandTokens, HasNoNull token := by
  have hfixed : ∀ text ∈ ["exec", "--containall", "--cleanenv", "--net", "--network", "none",
      "--no-home", "--pwd"], HasNoNull text := by simp [HasNoNull]
  have himage : HasNoNull job.imageToken := by
    unfold ApptainerJob.imageToken
    split
    · simp [HasNoNull]
    · exact (h job.image (by simp [ApptainerJob.texts])).shlexQuote
  intro token htoken
  rw [ApptainerJob.commandTokens, List.mem_append, List.mem_append, List.mem_append,
    List.mem_append, List.mem_map, List.mem_map, List.mem_flatMap, List.mem_singleton] at htoken
  rcases htoken with (((htoken | ⟨bind, hbind, htoken⟩) | rfl) | ⟨text, htext, rfl⟩) |
    ⟨text, htext, rfl⟩
  · rcases List.mem_cons.mp htoken with rfl | htoken
    · exact (h job.apptainerExecutable (by simp [ApptainerJob.texts])).shlexQuote
    · have hsplit : token ∈ ["exec", "--containall", "--cleanenv", "--net", "--network", "none",
          "--no-home", "--pwd"] ++ [shlexQuote job.workingDirectory] := htoken
      rcases List.mem_append.mp hsplit with htoken | htoken
      · exact hfixed token htoken
      · rw [List.mem_singleton.mp htoken]
        exact (h job.workingDirectory (by simp [ApptainerJob.texts])).shlexQuote
  · rcases List.mem_cons.mp htoken with rfl | htoken
    · decide
    · rw [List.mem_singleton.mp htoken]
      exact hasNoNull_bindToken h (List.fst_mem_of_mem_zipIdx hbind) bind.2
  · exact himage
  · exact (h text (by simp [ApptainerJob.texts, htext])).shlexQuote
  · exact (h text (by simp [ApptainerJob.texts, htext])).shlexQuote

theorem hasNoNull_command (h : ∀ text ∈ job.texts, HasNoNull text) : HasNoNull job.command := by
  intro hmem
  have htokens := hasNoNull_commandTokens h
  rw [commandTokens_items, List.forall_mem_cons] at htokens
  rw [command_eq, List.mem_append, Shell.blanks, List.mem_flatMap] at hmem
  rcases hmem with hmem | ⟨text, htext, hmem⟩
  · exact htokens.1 hmem
  · obtain ⟨item, hitem, rfl⟩ := List.mem_map.mp htext
    rcases List.mem_cons.mp hmem with hmem | hmem
    · contradiction
    · exact htokens.2 _ (List.mem_map_of_mem hitem) hmem

theorem hasNoNull_stageRecord {stage path : String} (hstage : HasNoNull stage)
    (hpath : HasNoNull path) : HasNoNull (stageRecord stage path) := by
  have hopen : HasNoNull "printf '%s\\t%s\\t%s\\n' " := by simp [HasNoNull]
  exact ((hopen.append hstage).append (by simp [HasNoNull])).append hpath.shlexQuote

theorem hasNoNull_stagingLines (h : ∀ text ∈ job.texts, HasNoNull text)
    (hrendered : renderApptainerJob job = .ok script) {node : NodeLocalStaging}
    (hnode : job.nodeLocal = some node) : ∀ line ∈ job.stagingLines node, HasNoNull line := by
  have hname := hasNoNull_of_slurm (all_namespace hrendered hnode)
  intro line hline
  simp only [ApptainerJob.stagingLines, List.mem_append, List.mem_flatMap, List.mem_map] at hline
  rcases hline with (((((hline | ⟨minimum, -, hline⟩) | ⟨path, -, rfl⟩) | hline) |
    ⟨bind, hbind, hline⟩) | ⟨path, hpath, hline⟩)
  · simp only [List.mem_cons, List.not_mem_nil, or_false] at hline
    rcases hline with rfl | rfl
    · exact (HasNoNull.append (by simp [HasNoNull]) hname).append (by decide)
    · simp [HasNoNull]
  · simp only [minimumFreeLines, List.mem_cons, List.not_mem_nil, or_false] at hline
    rcases hline with rfl | rfl | rfl | rfl | rfl
    · simp [HasNoNull]
    · exact (HasNoNull.append (by simp [HasNoNull])
        (hasNoNull_of_slurm (all_toString_int minimum))).append (by simp [HasNoNull])
    · simp [HasNoNull]
    · simp [HasNoNull]
    · simp [HasNoNull]
  · simp [HasNoNull, stageStart]
  · split_ifs at hline
    · rw [List.mem_singleton.mp hline]
      exact (HasNoNull.append (by simp [HasNoNull])
        (h job.image (by simp [ApptainerJob.texts])).shlexQuote).append (by simp [HasNoNull])
    · contradiction
  · obtain ⟨hsource, -⟩ := hasNoNull_bind h (List.fst_mem_of_mem_zipIdx hbind)
    split_ifs at hline
    · simp only [bindLines, List.mem_cons, List.not_mem_nil, or_false] at hline
      rcases hline with rfl | rfl
      · exact (HasNoNull.append (by simp [HasNoNull]) (.localBind bind.2)).append
          (by simp [HasNoNull])
      · exact (((HasNoNull.append (by simp [HasNoNull]) hsource.shlexQuote).append
          (by simp [HasNoNull])).append (.localBind bind.2)).append (by simp [HasNoNull])
    · contradiction
  · simp only [List.mem_cons, List.not_mem_nil, or_false] at hline
    rcases hline with rfl | rfl
    · simp [HasNoNull, stageEnd]
    · refine hasNoNull_stageRecord (by simp [HasNoNull]) (h path ?_)
      simp [ApptainerJob.texts, Option.mem_toList.mp hpath]

theorem hasNoNull_runLines (h : ∀ text ∈ job.texts, HasNoNull text) :
    ∀ line ∈ job.runLines, HasNoNull line := by
  have hcommand := hasNoNull_command h
  intro line hline
  unfold ApptainerJob.runLines at hline
  split at hline
  · rw [List.mem_singleton.mp hline]
    exact HasNoNull.append (by decide) hcommand
  · rename_i path hpath
    have hrecord : HasNoNull (stageRecord "application" path) :=
      hasNoNull_stageRecord (by decide) (h path (by simp [ApptainerJob.texts, hpath]))
    have hfixed : ∀ text ∈ [stageStart, "set +e", "QHPC_EXIT_CODE=$?", "set -e", stageEnd,
        "exit \"$QHPC_EXIT_CODE\""], HasNoNull text := by simp [HasNoNull, stageStart, stageEnd]
    simp only [List.forall_mem_cons] at hfixed
    obtain ⟨hstart, hon, hcode, hoff, hend, hexit, -⟩ := hfixed
    simp only [List.mem_cons, List.not_mem_nil, or_false] at hline
    rcases hline with rfl | rfl | rfl | rfl | rfl | rfl | rfl | rfl
    · exact hstart
    · exact hon
    · exact hcommand
    · exact hcode
    · exact hoff
    · exact hend
    · exact hrecord
    · exact hexit

theorem hasNoNull_script (h : ∀ text ∈ job.texts, HasNoNull text)
    (hrendered : renderApptainerJob job = .ok script) : HasNoNull job.script := by
  have hlines : ∀ line ∈ job.directives ++ job.setup, HasNoNull line := by
    intro line hline
    rcases List.mem_append.mp hline with hline | hline
    · refine notMem_of_mem_directives hrendered (.inr rfl) (fun path hpath => h path ?_) hline
      rcases hpath with hpath | hpath
      · simp [ApptainerJob.texts, hpath]
      · simp [ApptainerJob.texts, hpath]
    · simp only [ApptainerJob.setup, List.mem_append, List.mem_flatMap] at hline
      rcases hline with (hline | ⟨node, hnode, hline⟩) | hline
      · have hfixed : ∀ text ∈ ["", "set -euo pipefail", "umask 077"], HasNoNull text := by
          simp [HasNoNull]
        exact hfixed line hline
      · exact hasNoNull_stagingLines h hrendered (Option.mem_toList.mp hnode) line hline
      · exact hasNoNull_runLines h line hline
  intro hmem
  rw [script_eq, List.mem_flatMap] at hmem
  obtain ⟨text, htext, hmem⟩ := hmem
  obtain ⟨line, hline, rfl⟩ := List.mem_map.mp htext
  rcases List.mem_append.mp hmem with hmem | hmem
  · exact hlines line hline hmem
  · simp at hmem

/-! Conversely every text of the job gets into some line. -/

theorem hasNoNull_of_line (h : HasNoNull job.script) {line : String}
    (hline : line ∈ job.directives ++ job.setup) : HasNoNull line := by
  intro hmem
  apply h
  rw [script_eq, List.mem_flatMap]
  exact ⟨line.toList, List.mem_map_of_mem hline, List.mem_append_left _ hmem⟩

theorem hasNoNull_of_runLine (h : HasNoNull job.script) {line : String}
    (hline : line ∈ job.runLines) : HasNoNull line := by
  apply hasNoNull_of_line h
  rw [ApptainerJob.setup]
  exact List.mem_append_right _ (List.mem_append_right _ hline)

theorem hasNoNull_of_stagingLine (h : HasNoNull job.script) {node : NodeLocalStaging}
    (hnode : job.nodeLocal = some node) {line : String} (hline : line ∈ job.stagingLines node) :
    HasNoNull line := by
  apply hasNoNull_of_line h
  rw [ApptainerJob.setup, List.mem_append, List.mem_append, List.mem_append, List.mem_flatMap]
  exact .inr (.inl (.inr ⟨node, by rw [hnode]; exact List.mem_singleton_self _, hline⟩))

theorem hasNoNull_of_token (h : HasNoNull job.script) {token : String}
    (htoken : token ∈ job.commandTokens) : HasNoNull token := by
  have hcommand : HasNoNull job.command := by
    cases htelemetry : job.telemetryPath with
    | none =>
        have hline : "exec " ++ job.command ∈ job.runLines := by
          simp [ApptainerJob.runLines, htelemetry]
        exact (hasNoNull_of_runLine h hline).right
    | some path =>
        have hline : job.command ∈ job.runLines := by
          simp [ApptainerJob.runLines, htelemetry]
        exact hasNoNull_of_runLine h hline
  intro hmem
  apply hcommand
  rw [commandTokens_items] at htoken
  rw [command_eq, List.mem_append]
  rcases List.mem_cons.mp htoken with rfl | htoken
  · exact .inl hmem
  · obtain ⟨item, hitem, rfl⟩ := List.mem_map.mp htoken
    rw [Shell.blanks, List.mem_flatMap]
    exact .inr ⟨item.1.toList, List.mem_map_of_mem hitem, List.mem_cons_of_mem _ hmem⟩

theorem hasNoNull_path (h : HasNoNull job.script) {option path : String}
    (hdirective : ∀ line ∈ directive option (some path), line ∈ job.directives) :
    HasNoNull path := by
  by_cases hempty : path = ""
  · rw [hempty]
    decide
  · have hline : "#SBATCH --" ++ option ++ "=" ++ path ∈ job.directives := by
      apply hdirective
      rw [directive, if_neg hempty]
      exact List.mem_singleton_self _
    exact (hasNoNull_of_line h (List.mem_append_left _ hline)).right

theorem exists_node {choice : NodeLocalStaging → Bool} (h : job.nodeLocal.any choice = true) :
    ∃ node, job.nodeLocal = some node ∧ choice node = true := by
  cases hnode : job.nodeLocal with
  | none =>
      rw [hnode] at h
      contradiction
  | some node =>
      rw [hnode] at h
      exact ⟨node, rfl, h⟩

theorem hasNoNull_image (h : HasNoNull job.script) : HasNoNull job.image := by
  by_cases hstages : job.nodeLocal.any (·.stageImage) = true
  · obtain ⟨node, hnode, himage⟩ := exists_node hstages
    have hline : "cp -- " ++ shlexQuote job.image ++ " \"$QHPC_NODE_ROOT/runtime.sif\"" ∈
        job.stagingLines node := by
      simp [ApptainerJob.stagingLines, himage]
    exact (hasNoNull_of_stagingLine h hnode hline).left.right.ofShlexQuote
  · have htoken : job.imageToken ∈ job.commandTokens := by
      simp [ApptainerJob.commandTokens]
    have hquoted := hasNoNull_of_token h htoken
    rw [ApptainerJob.imageToken, if_neg hstages] at hquoted
    exact hquoted.ofShlexQuote

theorem hasNoNull_of_bind (h : HasNoNull job.script) {bind : ApptainerBind}
    (hbind : bind ∈ job.binds) : HasNoNull bind.source ∧ HasNoNull bind.destination := by
  obtain ⟨index, hindex, hget⟩ := List.mem_iff_getElem.mp hbind
  have hzip : (bind, index) ∈ job.binds.zipIdx := by
    rw [List.mk_mem_zipIdx_iff_getElem?, List.getElem?_eq_getElem hindex, hget]
  have htoken : job.bindToken bind index ∈ job.commandTokens := by
    rw [ApptainerJob.commandTokens, List.mem_append, List.mem_append, List.mem_append,
      List.mem_append, List.mem_flatMap]
    exact .inl (.inl (.inl (.inr ⟨_, hzip, List.mem_cons_of_mem _ (List.mem_singleton_self _)⟩)))
  have hquoted := hasNoNull_of_token h htoken
  by_cases hstages : job.stages bind = true
  · rw [ApptainerJob.bindToken, if_pos hstages] at hquoted
    refine ⟨?_, hquoted.left.right⟩
    rw [ApptainerJob.stages, Bool.and_eq_true] at hstages
    obtain ⟨node, hnode, hread⟩ := exists_node hstages.1
    have hline : "cp -a -- " ++ shlexQuote bind.source ++ "/. \"" ++ localBind index ++ "/\"" ∈
        job.stagingLines node := by
      rw [ApptainerJob.stagingLines, List.mem_append, List.mem_append, List.mem_flatMap]
      refine .inl (.inr ⟨_, hzip, ?_⟩)
      rw [hread, hstages.2]
      exact List.mem_cons_of_mem _ (List.mem_singleton_self _)
    exact (hasNoNull_of_stagingLine h hnode hline).left.left.left.right.ofShlexQuote
  · rw [ApptainerJob.bindToken, if_neg hstages] at hquoted
    have htext := hquoted.ofShlexQuote
    exact ⟨htext.left.left.left.left, htext.left.left.right⟩

theorem hasNoNull_texts (h : HasNoNull job.script) : ∀ text ∈ job.texts, HasNoNull text := by
  have hquoted : ∀ text, shlexQuote text ∈ job.commandTokens → HasNoNull text :=
    fun text htoken => (hasNoNull_of_token h htoken).ofShlexQuote
  intro text htext
  simp only [ApptainerJob.texts, List.mem_append, List.mem_flatMap] at htext
  rcases htext with (((((htext | htext) | htext) | ⟨bind, hbind, htext⟩) | htext) | htext) | htext
  · simp only [List.mem_cons, List.not_mem_nil, or_false] at htext
    rcases htext with rfl | rfl | rfl
    · exact hasNoNull_image h
    · exact hquoted _ (by simp [ApptainerJob.commandTokens])
    · exact hquoted _ (by simp [ApptainerJob.commandTokens])
  · refine hquoted text ?_
    rw [ApptainerJob.commandTokens, List.mem_append, List.mem_append]
    exact .inl (.inr (List.mem_map_of_mem htext))
  · exact hquoted text (List.mem_append_right _ (List.mem_map_of_mem htext))
  · obtain ⟨hsource, hdestination⟩ := hasNoNull_of_bind h hbind
    simp only [List.mem_cons, List.not_mem_nil, or_false] at htext
    rcases htext with rfl | rfl
    · exact hsource
    · exact hdestination
  · have hstdout : job.stdoutPath = some text := Option.mem_toList.mp htext
    have hmem : ∀ line ∈ directive "output" (some text), line ∈ job.directives := by
      intro line hline
      simp only [ApptainerJob.directives, List.mem_append, hstdout]
      exact .inl (.inr hline)
    exact hasNoNull_path h hmem
  · have hstderr : job.stderrPath = some text := Option.mem_toList.mp htext
    have hmem : ∀ line ∈ directive "error" (some text), line ∈ job.directives := by
      intro line hline
      simp only [ApptainerJob.directives, List.mem_append, hstderr]
      exact .inr hline
    exact hasNoNull_path h hmem
  · have htelemetry : job.telemetryPath = some text := Option.mem_toList.mp htext
    have hline : stageRecord "application" text ∈ job.runLines := by
      simp [ApptainerJob.runLines, htelemetry]
    exact (hasNoNull_of_runLine h hline).right.ofShlexQuote

end NoNull

/-! ## Safety -/

section Safety

variable {job : ApptainerJob} {script : String}

/-- A rendered script is safe exactly if no text of the job has the null character and double
quotes leave the destination of every staged bind as it stands. -/
theorem shellSafe_iff (h : renderApptainerJob job = .ok script) :
    job.ShellSafe script ↔
      (∀ text ∈ job.texts, '\x00' ∉ text.toList) ∧
        ∀ bind ∈ job.binds, job.stages bind = true → Unescaped bind.destination.toList := by
  obtain ⟨rfl, -⟩ := renderApptainerJob_eq h
  constructor
  · intro hsafe
    exact ⟨hasNoNull_texts hsafe.text, (tokens_command_iff h).mp hsafe.command⟩
  · rintro ⟨htexts, hkeeps⟩
    exact ⟨hasNoNull_script htexts h, (tokens_command_iff h).mpr hkeeps, tokens_script h hkeeps⟩

/-- A job that stages its input on the node. -/
def stagedJob (destination : String) : ApptainerJob :=
  { inputJob "/shared/run 1" with
    image := "/shared/it's an image.sif"
    binds := [⟨"/shared/run 1", destination, true⟩]
    nodeLocal := some { «namespace» := "attempt-1" } }

theorem shellSafe_stagedJob :
    renderApptainerJob (stagedJob "/inputs") = .ok (stagedJob "/inputs").script ∧
      (stagedJob "/inputs").ShellSafe (stagedJob "/inputs").script := by
  refine ⟨rfl, (shellSafe_iff rfl).mpr ⟨by decide, ?_⟩⟩
  intro bind hbind _
  rw [List.mem_singleton.mp hbind]
  exact ⟨by simp, by simp⟩

/-- The quotes of the destination end the word, and a command of its own follows. -/
theorem not_shellSafe_destination :
    ¬ ∀ (job : ApptainerJob) (script : String), renderApptainerJob job = .ok script →
      job.ShellSafe script := by
  intro hall
  have hsafe := hall (stagedJob "/inputs\";reboot;\"") _ rfl
  have hkeeps := (tokens_command_iff rfl).mp hsafe.command
  have hunescaped := hkeeps ⟨"/shared/run 1", "/inputs\";reboot;\"", true⟩
    (List.mem_singleton_self _) rfl
  exact (hunescaped.1 '"' (by decide)).1 rfl

end Safety

end QhpcEcosystem
