/-
The lines of a rendered script around its command line. Every text that passed the checks
stays inside its comment or its word.
-/
import QhpcEcosystem.ScriptWords

namespace QhpcEcosystem

open Shell (Piece Token ReadsLine Spells Stands Unescaped)

/-! ## Names and numbers -/

theorem isOrdinary_of_isSlurmChar {c : Char} (h : isSlurmChar c = true) :
    Shell.isOrdinary c = true := by
  simp only [isSlurmChar, Bool.or_eq_true, decide_eq_true_eq, List.mem_cons] at h
  simp only [Shell.isOrdinary, Bool.or_eq_true, decide_eq_true_eq, List.mem_cons]
  tauto

theorem all_isOrdinary {text : List Char} (h : text.all isSlurmChar = true) :
    text.all Shell.isOrdinary = true := by
  rw [List.all_eq_true] at h ⊢
  exact fun c hc => isOrdinary_of_isSlurmChar (h c hc)

theorem notMem_of_isSlurmChar {text : List Char} (h : text.all isSlurmChar = true) {c : Char}
    (hc : isSlurmChar c = false) : c ∉ text := by
  intro hmem
  rw [List.all_eq_true.mp h c hmem] at hc
  contradiction

theorem all_toString_nat (n : Nat) : (toString n).toList.all isSlurmChar = true := by
  rw [List.all_eq_true]
  intro c hc
  have hdigits : (toString n).toList = Nat.toDigits 10 n := Nat.toList_repr
  rw [hdigits] at hc
  have hdigit := Nat.isDigit_of_mem_toDigits (by omega) (by omega) hc
  simp [isSlurmChar, Char.isAlphanum, hdigit]

theorem all_toString_int (n : Int) : (toString n).toList.all isSlurmChar = true := by
  cases n with
  | ofNat n => exact all_toString_nat n
  | negSucc n =>
      have htext : toString (Int.negSucc n) = "-" ++ toString (n + 1) := rfl
      rw [htext, String.toList_append, List.all_append, all_toString_nat, Bool.and_true]
      rfl

theorem toString_int_ne_nil (n : Int) : (toString n).toList ≠ [] := by
  cases n with
  | ofNat n =>
      have hdigits : (toString (Int.ofNat n)).toList = Nat.toDigits 10 n := Nat.toList_repr
      rw [hdigits]
      exact Nat.toDigits_ne_nil
  | negSucc n =>
      have htext : toString (Int.negSucc n) = "-" ++ toString (n + 1) := rfl
      rw [htext, String.toList_append]
      exact List.cons_ne_nil _ _

theorem all_twoDigits (n : Int) : (twoDigits n).toList.all isSlurmChar = true := by
  unfold twoDigits
  split
  · rw [String.toList_append, List.all_append, all_toString_int, Bool.and_true]
    rfl
  · exact all_toString_int n

/-! ## Accepted texts -/

section Accepted

variable {job : ApptainerJob} {script : String}

theorem check_false (h : renderApptainerJob job = .ok script) {refused : Bool} {text : String}
    (hcheck : (refused, text) ∈ job.checks) : refused = false :=
  (renderApptainerJob_eq h).2 _ hcheck

theorem nodeCheck_false (h : renderApptainerJob job = .ok script) {node : NodeLocalStaging}
    (hnode : job.nodeLocal = some node) {refused : Bool} {text : String}
    (hcheck : (refused, text) ∈ node.checks job.image) : refused = false := by
  refine check_false h (show (refused, text) ∈ job.checks from ?_)
  rw [ApptainerJob.checks, hnode, List.mem_append]
  exact .inr (by simpa using hcheck)

theorem all_of_isSlurmName {text : String} (h : isSlurmName text = true) :
    text.toList.all isSlurmChar = true := by
  rw [isSlurmName, Bool.and_eq_true] at h
  exact h.2

theorem all_jobName (h : renderApptainerJob job = .ok script) :
    job.jobName.toList.all isSlurmChar = true := by
  have hmem : (!isSlurmName job.jobName, "invalid Slurm job name") ∈ job.checks := by
    simp [ApptainerJob.checks]
  have hcheck := check_false h hmem
  rw [Bool.not_eq_false'] at hcheck
  exact all_of_isSlurmName hcheck

theorem all_of_isBadName {name : Option String} (h : isBadName name = false) {text : String}
    (hname : name = some text) (hne : text ≠ "") : text.toList.all isSlurmChar = true := by
  rw [hname, isBadName, Bool.and_eq_false_iff] at h
  rcases h with h | h
  · simp [hne] at h
  · rw [Bool.not_eq_false'] at h
    exact all_of_isSlurmName h

theorem newline_notMem_of_isBadPath {path : Option String} (h : isBadPath path = false)
    {text : String} (hpath : path = some text) : '\n' ∉ text.toList := by
  rw [hpath, isBadPath, Bool.or_eq_false_iff, Bool.or_eq_false_iff] at h
  exact of_decide_eq_false h.1.2

theorem newline_notMem_path (h : renderApptainerJob job = .ok script) {path : String}
    (hpath : job.stdoutPath = some path ∨ job.stderrPath = some path) :
    '\n' ∉ path.toList := by
  have hstdout : (isBadPath job.stdoutPath, "stdout path must be absolute") ∈ job.checks := by
    simp [ApptainerJob.checks]
  have hstderr : (isBadPath job.stderrPath, "stderr path must be absolute") ∈ job.checks := by
    simp [ApptainerJob.checks]
  rcases hpath with hpath | hpath
  · exact newline_notMem_of_isBadPath (check_false h hstdout) hpath
  · exact newline_notMem_of_isBadPath (check_false h hstderr) hpath

theorem all_namespace (h : renderApptainerJob job = .ok script) {node : NodeLocalStaging}
    (hnode : job.nodeLocal = some node) : node.namespace.toList.all isSlurmChar = true := by
  have hmem : (!isStagingNamespace node.namespace, "invalid node-local staging namespace") ∈
      node.checks job.image := List.mem_cons_self
  have hcheck := nodeCheck_false h hnode hmem
  rw [Bool.not_eq_false', isStagingNamespace, Bool.and_eq_true] at hcheck
  have hname := hcheck.1
  unfold isCommandName at hname
  split at hname
  · contradiction
  · rename_i c rest hlist
    rw [Bool.and_eq_true] at hname
    rw [hlist, List.all_cons, hname.2, Bool.and_true, isSlurmChar, hname.1, Bool.true_or]

end Accepted

/-! ## Directives -/

section Directives

variable {job : ApptainerJob} {script : String} {c : Char}

theorem notMem_append {text rest : String} (htext : c ∉ text.toList) (hrest : c ∉ rest.toList) :
    c ∉ (text ++ rest).toList := by
  rw [String.toList_append, List.mem_append, not_or]
  exact ⟨htext, hrest⟩

theorem notMem_directive {option : String} {text : Option String} {line : String}
    (hopen : c ∉ "#SBATCH --".toList) (hoption : c ∉ option.toList) (hequals : c ∉ "=".toList)
    (htext : ∀ value, text = some value → value ≠ "" → c ∉ value.toList)
    (hline : line ∈ directive option text) : c ∉ line.toList := by
  unfold directive at hline
  split at hline
  · contradiction
  · rename_i value
    split_ifs at hline with hempty
    · contradiction
    · rw [List.mem_singleton.mp hline]
      exact notMem_append (notMem_append (notMem_append hopen hoption) hequals)
        (htext value rfl hempty)

/-- A line break or a null character gets into a directive with a path only. -/
theorem notMem_of_mem_directives (h : renderApptainerJob job = .ok script)
    (hc : c = '\n' ∨ c = '\x00')
    (hpaths : ∀ path, job.stdoutPath = some path ∨ job.stderrPath = some path →
      c ∉ path.toList) {line : String} (hline : line ∈ job.directives) : c ∉ line.toList := by
  have hslurm : isSlurmChar c = false := by
    rcases hc with rfl | rfl <;> rfl
  have hname : ∀ {name : Option String}, isBadName name = false →
      ∀ value, name = some value → value ≠ "" → c ∉ value.toList :=
    fun hbad value hvalue hne => notMem_of_isSlurmChar (all_of_isBadName hbad hvalue hne) hslurm
  have hint : ∀ n : Int, c ∉ (toString n).toList :=
    fun n => notMem_of_isSlurmChar (all_toString_int n) hslurm
  have htwo : ∀ n : Int, c ∉ (twoDigits n).toList :=
    fun n => notMem_of_isSlurmChar (all_twoDigits n) hslurm
  have hfixed : ∀ text ∈ ["#!/usr/bin/env bash", "#SBATCH --job-name=",
      "#SBATCH --cpus-per-task=", "#SBATCH --mem=", "M", "#SBATCH --time=", ":",
      "#SBATCH --gpus=", "#SBATCH --", "=", "partition", "account", "qos", "output", "error"],
      c ∉ text.toList := by
    rcases hc with rfl | rfl <;> simp
  simp only [List.forall_mem_cons] at hfixed
  obtain ⟨hbash, hjob, hcpu, hmem, hunit, htime, hcolon, hgpu, hopen, hequals, hpartition,
    haccount, hqos, houtput, herror, -⟩ := hfixed
  simp only [ApptainerJob.directives, List.mem_append] at hline
  rcases hline with ((((((hline | hline) | hline) | hline) | hline) | hline) | hline)
  · simp only [List.mem_cons, List.not_mem_nil, or_false] at hline
    rcases hline with rfl | rfl | rfl | rfl | rfl
    · exact hbash
    · exact notMem_append hjob (notMem_of_isSlurmChar (all_jobName h) hslurm)
    · exact notMem_append hcpu (hint _)
    · exact notMem_append (notMem_append hmem (hint _)) hunit
    · exact notMem_append (notMem_append (notMem_append (notMem_append (notMem_append htime
        (htwo _)) hcolon) (htwo _)) hcolon) (htwo _)
  · split_ifs at hline
    · contradiction
    · rw [List.mem_singleton.mp hline]
      exact notMem_append hgpu (hint _)
  · have hcheck : (isBadName job.resources.partition, "invalid Slurm partition") ∈ job.checks := by
      simp [ApptainerJob.checks]
    exact notMem_directive hopen hpartition hequals (hname (check_false h hcheck)) hline
  · have hcheck : (isBadName job.resources.account, "invalid Slurm account") ∈ job.checks := by
      simp [ApptainerJob.checks]
    exact notMem_directive hopen haccount hequals (hname (check_false h hcheck)) hline
  · have hcheck : (isBadName job.resources.qos, "invalid Slurm QoS") ∈ job.checks := by
      simp [ApptainerJob.checks]
    exact notMem_directive hopen hqos hequals (hname (check_false h hcheck)) hline
  · exact notMem_directive hopen houtput hequals (fun path hpath _ => hpaths path (.inl hpath))
      hline
  · exact notMem_directive hopen herror hequals (fun path hpath _ => hpaths path (.inr hpath))
      hline

theorem hash_of_mem_directives {line : String} (hline : line ∈ job.directives) :
    ∃ text, line.toList = '#' :: text := by
  have hdirective : ∀ {option : String} {text : Option String},
      line ∈ directive option text → ∃ text, line.toList = '#' :: text := by
    intro option text hline
    unfold directive at hline
    split at hline
    · contradiction
    · split_ifs at hline
      · contradiction
      · rw [List.mem_singleton.mp hline]
        simp only [String.toList_append]
        exact ⟨_, rfl⟩
  simp only [ApptainerJob.directives, List.mem_append] at hline
  rcases hline with ((((((hline | hline) | hline) | hline) | hline) | hline) | hline)
  · simp only [List.mem_cons, List.not_mem_nil, or_false] at hline
    rcases hline with rfl | rfl | rfl | rfl | rfl
    · exact ⟨_, rfl⟩
    · exact ⟨_, String.toList_append⟩
    · exact ⟨_, String.toList_append⟩
    · simp only [String.toList_append]
      exact ⟨_, rfl⟩
    · simp only [String.toList_append]
      exact ⟨_, rfl⟩
  · split_ifs at hline
    · contradiction
    · rw [List.mem_singleton.mp hline]
      simp only [String.toList_append]
      exact ⟨_, rfl⟩
  · exact hdirective hline
  · exact hdirective hline
  · exact hdirective hline
  · exact hdirective hline
  · exact hdirective hline

/-- A directive is a comment to the shell. -/
theorem readsLine_directive (h : renderApptainerJob job = .ok script) {line : String}
    (hline : line ∈ job.directives) : ReadsLine line.toList [] := by
  have hbreak := notMem_of_mem_directives h (.inl rfl)
    (fun _ hpath => newline_notMem_path h hpath) hline
  obtain ⟨text, htext⟩ := hash_of_mem_directives hline
  rw [htext, List.mem_cons, not_or] at hbreak
  rw [htext]
  exact Shell.readsLine_comment hbreak.2

end Directives

/-! ## Words -/

section Words

theorem spells_fixed {text : String} (hne : text.toList ≠ [])
    (hordinary : text.toList.all Shell.isOrdinary = true) :
    Spells text.toList (verbatim text) :=
  Shell.spells_ordinary hne hordinary

theorem spells_shlexQuote (text : String) : Spells (shlexQuote text).toList (verbatim text) := by
  rw [toList_shlexQuote]
  exact Shell.spells_quote text.toList

theorem run_nodeRoot (begun : Option (List Piece)) :
    Shell.run ⟨.plain, begun⟩ "\"$QHPC_NODE_ROOT/".toList =
      some (⟨.double, some (begun.getD [] ++ [nodeRoot, .char '/'])⟩, []) := by
  have hopen : Shell.run ⟨.plain, begun⟩ ['"'] = some (⟨.double, some (begun.getD [])⟩, []) := rfl
  have hname : Shell.run ⟨.double, some (begun.getD [])⟩ "$QHPC_NODE_ROOT/".toList =
      some (⟨.double, some (begun.getD [] ++ [nodeRoot, .char '/'])⟩, []) :=
    @Shell.run_expansion 'Q' '/' "HPC_NODE_ROOT".toList rfl rfl rfl rfl (begun.getD [])
  have hsplit : "\"$QHPC_NODE_ROOT/".toList = ['"'] ++ "$QHPC_NODE_ROOT/".toList := rfl
  rw [hsplit, Shell.run_trans hopen hname]
  rfl

/-- A path below the node's root, in double quotes. -/
theorem spells_nodeRoot {text : String} (hordinary : text.toList.all Shell.isOrdinary = true) :
    Spells ("\"$QHPC_NODE_ROOT/" ++ text ++ "\"").toList (nodeRoot :: verbatim ("/" ++ text)) := by
  intro begun
  have hclose : ∀ word, Shell.run ⟨.double, some word⟩ "\"".toList =
      some (⟨.plain, some word⟩, []) := fun _ => rfl
  rw [String.toList_append, String.toList_append, Shell.run_trans (Shell.run_trans
    (run_nodeRoot begun) (Shell.run_double_ordinary hordinary _)) (hclose _)]
  simp [verbatim]

/-- The copy of the image in double quotes. -/
theorem spells_runtime :
    Spells "\"$QHPC_NODE_ROOT/runtime.sif\"".toList (nodeRoot :: verbatim "/runtime.sif") := by
  have hfile : "runtime.sif".toList.all Shell.isOrdinary = true := by decide
  have hspells := spells_nodeRoot hfile
  have htext : "\"$QHPC_NODE_ROOT/" ++ "runtime.sif" ++ "\"" =
      "\"$QHPC_NODE_ROOT/runtime.sif\"" := by rfl
  have hpieces : "/" ++ "runtime.sif" = "/runtime.sif" := by rfl
  rw [htext, hpieces] at hspells
  exact hspells

end Words

/-! ## Setup -/

/-- Lines, and what each is read as. -/
def ReadsLines (lines : List String) (read : List (List Token)) : Prop :=
  List.Forall₂ (fun line tokens => ReadsLine line.toList tokens) lines read

section Setup

variable {job : ApptainerJob} {script : String}

theorem ReadsLines.append {lines lines' : List String} {read read' : List (List Token)}
    (h : ReadsLines lines read) (h' : ReadsLines lines' read') :
    ReadsLines (lines ++ lines') (read ++ read') :=
  List.rel_append h h'

theorem readsLines_flatMap {ι : Type} {items : List ι} {lines : ι → List String}
    {read : ι → List (List Token)} (h : ∀ i ∈ items, ReadsLines (lines i) (read i)) :
    ReadsLines (items.flatMap lines) (items.flatMap read) := by
  induction items with
  | nil => exact List.Forall₂.nil
  | cons i items ih =>
      rw [List.flatMap_cons, List.flatMap_cons]
      exact (h i List.mem_cons_self).append (ih fun j hj => h j (List.mem_cons_of_mem _ hj))

/-- The line that asks for the room left. -/
theorem readsLine_free :
    ReadsLine "QHPC_FREE_MB=$(df -Pm -- \"$SLURM_TMPDIR\" | awk 'NR==2 \x7bprint $4\x7d')".toList
      [.substitution (verbatim "QHPC_FREE_MB="), verbatimWord "df", verbatimWord "-Pm",
        verbatimWord "--", .word [parameter "SLURM_TMPDIR"], .operator '|', verbatimWord "awk",
        verbatimWord "NR==2 \x7bprint $4\x7d", .operator ')'] := by
  have hsize : Shell.run Shell.start "QHPC_FREE_MB=$(df -Pm -- \"$SLURM_TMPDIR\" ".toList =
      some (Shell.start, [.substitution (verbatim "QHPC_FREE_MB="), verbatimWord "df",
        verbatimWord "-Pm", verbatimWord "--", .word [parameter "SLURM_TMPDIR"]]) := rfl
  have hfield : Shell.run Shell.start
      ("| awk 'NR==2 \x7bprint $4\x7d')".toList ++ ['\n']) =
      some (Shell.start, [.operator '|', verbatimWord "awk",
        verbatimWord "NR==2 \x7bprint $4\x7d", .operator ')', .newline]) := rfl
  have hsplit :
      "QHPC_FREE_MB=$(df -Pm -- \"$SLURM_TMPDIR\" | awk 'NR==2 \x7bprint $4\x7d')".toList =
      "QHPC_FREE_MB=$(df -Pm -- \"$SLURM_TMPDIR\" ".toList ++
        "| awk 'NR==2 \x7bprint $4\x7d')".toList := by simp
  rw [ReadsLine, hsplit, List.append_assoc, Shell.run_trans hsize hfield]
  rfl

/-- The line that says what is missing. -/
theorem readsLine_insufficient :
    ReadsLine "  printf \"%s\\n\" \"insufficient SLURM_TMPDIR space\" >&2".toList
      [verbatimWord "printf", verbatimWord "%s\\n", verbatimWord "insufficient SLURM_TMPDIR space",
        .operator '>', .operator '&', verbatimWord "2"] := by
  have hformat : Shell.run Shell.start "  printf \"%s\\n\" ".toList =
      some (Shell.start, [verbatimWord "printf", verbatimWord "%s\\n"]) := rfl
  have hmessage : Shell.run Shell.start
      ("\"insufficient SLURM_TMPDIR space\" >&2".toList ++ ['\n']) =
      some (Shell.start, [verbatimWord "insufficient SLURM_TMPDIR space", .operator '>',
        .operator '&', verbatimWord "2", .newline]) := rfl
  have hsplit : "  printf \"%s\\n\" \"insufficient SLURM_TMPDIR space\" >&2".toList =
      "  printf \"%s\\n\" ".toList ++
        "\"insufficient SLURM_TMPDIR space\" >&2".toList := by simp
  rw [ReadsLine, hsplit, List.append_assoc, Shell.run_trans hformat hmessage]
  rfl

theorem readsLines_minimumFree (minimum : Int) :
    ReadsLines (minimumFreeLines minimum) (minimumFreeTokens minimum) := by
  have hnumber : Spells (toString minimum).toList (verbatim (toString minimum)) :=
    spells_fixed (toString_int_ne_nil minimum) (all_isOrdinary (all_toString_int minimum))
  have htest : ReadsLine ("if [ \"$QHPC_FREE_MB\" -lt " ++ toString minimum ++ " ]; then").toList
      [verbatimWord "if", .operator '[', .word [parameter "QHPC_FREE_MB"], verbatimWord "-lt",
        verbatimWord (toString minimum), .operator ']', .operator ';', verbatimWord "then"] := by
    have hbefore : Shell.run Shell.start "if [ \"$QHPC_FREE_MB\" -lt ".toList =
        some (Shell.start, [verbatimWord "if", .operator '[', .word [parameter "QHPC_FREE_MB"],
          verbatimWord "-lt"]) := rfl
    have hafter : ∀ word, Shell.run ⟨.plain, some word⟩ (" ]; then".toList ++ ['\n']) =
        some (Shell.start, [.word word, .operator ']', .operator ';', verbatimWord "then",
          .newline]) := fun _ => rfl
    rw [ReadsLine, String.toList_append, String.toList_append, List.append_assoc,
      List.append_assoc, Shell.run_trans hbefore (Shell.run_trans (hnumber none) (hafter _))]
    rfl
  have hexit : ReadsLine "  exit 74".toList [verbatimWord "exit", verbatimWord "74"] := rfl
  have hend : ReadsLine "fi".toList [verbatimWord "fi"] := rfl
  exact .cons readsLine_free (.cons htest (.cons readsLine_insufficient
    (.cons hexit (.cons hend .nil))))

theorem readsLine_stageRecord {stage path : String}
    (hstage : Spells stage.toList (verbatim stage)) :
    ReadsLine (stageRecord stage path).toList (stageRecordTokens stage path) := by
  have hformat : Shell.run Shell.start "printf '%s\\t%s\\t%s\\n' ".toList =
      some (Shell.start, [verbatimWord "printf", verbatimWord "%s\\t%s\\t%s\\n"]) := rfl
  have htimes : ∀ word, Shell.run ⟨.plain, some word⟩
      " \"$QHPC_STAGE_START\" \"$QHPC_STAGE_END\" >> ".toList =
      some (Shell.start, [.word word, .word [parameter "QHPC_STAGE_START"],
        .word [parameter "QHPC_STAGE_END"], .operator '>', .operator '>']) := fun _ => rfl
  have hbefore := Shell.run_trans hformat (Shell.run_trans (hstage none) (htimes _))
  have hline := Shell.readsLine_append hbefore (spells_shlexQuote path)
  simp only [← String.toList_append, ← String.append_assoc] at hline
  exact hline

theorem all_bindName (index : Nat) (rest : String)
    (hrest : rest.toList.all Shell.isOrdinary = true) :
    ("bind-" ++ toString index ++ rest).toList.all Shell.isOrdinary = true := by
  rw [String.toList_append, String.toList_append, List.all_append, List.all_append, hrest,
    all_isOrdinary (all_toString_nat index)]
  rfl

/-- The copy of a bind in double quotes. -/
theorem quoted_localBind (index : Nat) (rest : String) :
    "\"" ++ localBind index ++ rest =
      "\"$QHPC_NODE_ROOT/" ++ ("bind-" ++ toString index) ++ rest := by
  have hopen : "\"$QHPC_NODE_ROOT/" = "\"" ++ "$QHPC_NODE_ROOT/" := rfl
  have hname : "$QHPC_NODE_ROOT/bind-" = "$QHPC_NODE_ROOT/" ++ "bind-" := rfl
  unfold localBind
  rw [hopen]
  rw [hname]
  simp only [String.append_assoc]

theorem verbatim_append (text rest : String) :
    verbatim (text ++ rest) = verbatim text ++ verbatim rest := by
  rw [verbatim, String.toList_append, List.map_append]
  rfl

theorem verbatim_bindName (index : Nat) (rest : String) :
    verbatim ("/" ++ ("bind-" ++ toString index ++ rest)) =
      verbatim ("/bind-" ++ toString index ++ rest) := by
  have hname : "/bind-" = "/" ++ "bind-" := rfl
  rw [hname]
  simp only [String.append_assoc]

theorem readsLines_bind (bind : ApptainerBind) (index : Nat) :
    ReadsLines (bindLines bind index) (bindLineTokens bind index) := by
  have hmake : Shell.run Shell.start "mkdir -p -- ".toList = some (Shell.start,
      [verbatimWord "mkdir", verbatimWord "-p", verbatimWord "--"]) := by rfl
  have hcopy : Shell.run Shell.start "cp -a -- ".toList = some (Shell.start,
      [verbatimWord "cp", verbatimWord "-a", verbatimWord "--"]) := by rfl
  have hdirectory := spells_nodeRoot (all_bindName index "" rfl)
  have hinside := spells_nodeRoot (all_bindName index "/" rfl)
  have hsource := (spells_shlexQuote bind.source).append
    (spells_fixed (show "/.".toList ≠ [] by decide) (by decide))
  have hfirst := Shell.readsLine_append hmake hdirectory
  have hsecond := Shell.readsLine_append₂ hcopy hsource hinside
  rw [verbatim_bindName, String.append_empty, String.append_empty, ← quoted_localBind,
    ← String.toList_append] at hfirst
  rw [verbatim_bindName, ← verbatim_append] at hsecond
  have hline : ("cp -a -- " ++ shlexQuote bind.source ++ "/. \"" ++ localBind index ++
      "/\"").toList = "cp -a -- ".toList ++ ((shlexQuote bind.source).toList ++ "/.".toList) ++
        ' ' :: ("\"$QHPC_NODE_ROOT/" ++ ("bind-" ++ toString index ++ "/") ++ "\"").toList := by
    have hslash : "/. \"" = "/." ++ (" " ++ "\"") := rfl
    have hclose : "/\"" = "/" ++ "\"" := rfl
    have htext := quoted_localBind index ("/" ++ "\"")
    simp only [String.append_assoc] at htext
    rw [hslash, hclose]
    simp only [String.append_assoc, String.toList_append, List.append_assoc, ← htext]
    rfl
  rw [← hline] at hsecond
  have hdirectoryLine : "mkdir -p -- " ++ ("\"" ++ localBind index ++ "\"") =
      "mkdir -p -- \"" ++ localBind index ++ "\"" := by
    have hopen : "mkdir -p -- \"" = "mkdir -p -- " ++ "\"" := rfl
    rw [hopen]
    simp only [String.append_assoc]
  rw [hdirectoryLine] at hfirst
  exact .cons hfirst (.cons hsecond .nil)

theorem readsLine_root {node : NodeLocalStaging}
    (hname : node.namespace.toList.all isSlurmChar = true) :
    ReadsLine ("QHPC_NODE_ROOT=\"$\x7bSLURM_TMPDIR:?SLURM_TMPDIR is required\x7d/qhpc-" ++
        node.namespace ++ "\"").toList
      [.word (verbatim "QHPC_NODE_ROOT=" ++ parameter "SLURM_TMPDIR:?SLURM_TMPDIR is required" ::
        verbatim ("/qhpc-" ++ node.namespace))] := by
  have hopen : Shell.run Shell.start
      "QHPC_NODE_ROOT=\"$\x7bSLURM_TMPDIR:?SLURM_TMPDIR is required\x7d/qhpc-".toList =
        some (⟨.double, some (verbatim "QHPC_NODE_ROOT=" ++
          parameter "SLURM_TMPDIR:?SLURM_TMPDIR is required" :: verbatim "/qhpc-")⟩, []) := by
    rfl
  have hclose : ∀ word, Shell.run ⟨.double, some word⟩ ("\"".toList ++ ['\n']) =
      some (Shell.start, [.word word, .newline]) := fun _ => rfl
  rw [ReadsLine, String.toList_append, String.toList_append, List.append_assoc, List.append_assoc,
    Shell.run_trans hopen (Shell.run_trans (Shell.run_double_ordinary (all_isOrdinary hname) _)
      (hclose _)), verbatim_append]
  simp only [List.nil_append, List.append_assoc, List.cons_append]
  rfl

theorem readsLine_stageStart :
    ReadsLine stageStart.toList (clockTokens "QHPC_STAGE_START") := by
  rfl

theorem readsLine_stageEnd : ReadsLine stageEnd.toList (clockTokens "QHPC_STAGE_END") := by
  rfl

theorem readsLines_clock (path : Option String) :
    ReadsLines (path.toList.map fun _ => stageStart)
      (path.toList.map fun _ => clockTokens "QHPC_STAGE_START") := by
  cases path with
  | none => exact .nil
  | some path => exact .cons readsLine_stageStart .nil

theorem readsLine_image (job : ApptainerJob) :
    ReadsLine ("cp -- " ++ shlexQuote job.image ++ " \"$QHPC_NODE_ROOT/runtime.sif\"").toList
      [verbatimWord "cp", verbatimWord "--", verbatimWord job.image,
        .word (nodeRoot :: verbatim "/runtime.sif")] := by
  have hcopy : Shell.run Shell.start "cp -- ".toList = some (Shell.start,
      [verbatimWord "cp", verbatimWord "--"]) := by rfl
  have hline := Shell.readsLine_append₂ hcopy (spells_shlexQuote job.image) spells_runtime
  have hblank : " \"$QHPC_NODE_ROOT/runtime.sif\"".toList =
      ' ' :: "\"$QHPC_NODE_ROOT/runtime.sif\"".toList := by rfl
  rw [String.toList_append, String.toList_append, hblank]
  exact hline

theorem readsLines_staging (h : renderApptainerJob job = .ok script) {node : NodeLocalStaging}
    (hnode : job.nodeLocal = some node) :
    ReadsLines (job.stagingLines node) (job.stagingTokens node) := by
  have hroot := readsLine_root (all_namespace h hnode)
  have himage : ReadsLines
      (if node.stageImage then
        ["cp -- " ++ shlexQuote job.image ++ " \"$QHPC_NODE_ROOT/runtime.sif\""] else [])
      (if node.stageImage then
        [[verbatimWord "cp", verbatimWord "--", verbatimWord job.image,
          .word (nodeRoot :: verbatim "/runtime.sif")]] else []) := by
    split
    · exact .cons (readsLine_image job) .nil
    · exact .nil
  have hbinds : ∀ bind ∈ job.binds.zipIdx, ReadsLines
      (if node.stageReadOnlyBinds && bind.1.readOnly then bindLines bind.1 bind.2 else [])
      (if node.stageReadOnlyBinds && bind.1.readOnly then bindLineTokens bind.1 bind.2
        else []) := by
    intro bind _
    split
    · exact readsLines_bind bind.1 bind.2
    · exact .nil
  have hrecord : ∀ path ∈ job.telemetryPath.toList, ReadsLines
      [stageEnd, stageRecord "node-local-stage" path]
      [clockTokens "QHPC_STAGE_END", stageRecordTokens "node-local-stage" path] := fun path _ =>
    .cons readsLine_stageEnd (.cons (readsLine_stageRecord (spells_fixed (by simp) (by rfl))) .nil)
  have hmake : ReadsLine "mkdir -p -- \"$QHPC_NODE_ROOT\"".toList
      [verbatimWord "mkdir", verbatimWord "-p", verbatimWord "--", .word [nodeRoot]] := by
    rfl
  have hfirst : ReadsLines
      ["QHPC_NODE_ROOT=\"$\x7bSLURM_TMPDIR:?SLURM_TMPDIR is required\x7d/qhpc-" ++
          node.namespace ++ "\"",
        "mkdir -p -- \"$QHPC_NODE_ROOT\""]
      [[.word (verbatim "QHPC_NODE_ROOT=" ++ parameter "SLURM_TMPDIR:?SLURM_TMPDIR is required" ::
          verbatim ("/qhpc-" ++ node.namespace))],
        [verbatimWord "mkdir", verbatimWord "-p", verbatimWord "--", .word [nodeRoot]]] :=
    .cons hroot (.cons hmake .nil)
  exact ((((hfirst.append (readsLines_flatMap fun _ _ => readsLines_minimumFree _)).append
    (readsLines_clock _)).append himage).append (readsLines_flatMap hbinds)).append
      (readsLines_flatMap hrecord)

end Setup

end QhpcEcosystem
