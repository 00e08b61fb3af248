/-
The shim that runs a rendered command line on a development cluster. It reads the words after
the executable with an option parser of its own, and takes every bind apart at the colons.
-/
import QhpcEcosystem.RegistryBuild
import QhpcEcosystem.SlurmScript

namespace QhpcEcosystem

/-! ## Options -/

structure ShimOptions where
  binds : List String := []
  workingDirectory : String := "/work"
  network : Option String := none

/-- What `_parse_command` returns. -/
structure ShimCommand where
  descriptor : String
  binds : List String
  workingDirectory : String
  command : List String
deriving DecidableEq

def noValueOptions : List String := ["--containall", "--cleanenv", "--net", "--no-home"]

def valueOptions : List String := ["--network", "--pwd", "--bind"]

def ShimOptions.set (options : ShimOptions) (token value : String) : ShimOptions :=
  if token = "--network" then { options with network := some value }
  else if token = "--pwd" then { options with workingDirectory := value }
  else { options with binds := options.binds ++ [value] }

/-- The loop over the options: it stops at the first word that is none. -/
def readOptions (options : ShimOptions) : List String → Except String (ShimOptions × List String)
  | [] => .ok (options, [])
  | [token] =>
      if token ∈ noValueOptions then .ok (options, [])
      else if token ∈ valueOptions then .error ("missing value for " ++ token)
      else if startsWith token "-" then .error ("unsupported execution option: " ++ token)
      else .ok (options, [token])
  | token :: value :: argv =>
      if token ∈ noValueOptions then readOptions options (value :: argv)
      else if token ∈ valueOptions then readOptions (options.set token value) argv
      else if startsWith token "-" then .error ("unsupported execution option: " ++ token)
      else .ok (options, token :: value :: argv)

/-- `_parse_command` -/
def parseCommand (argv : List String) : Except String ShimCommand :=
  if argv.head? ≠ some "exec" then .error "the development OCI shim supports only 'exec'"
  else (readOptions {} argv.tail).bind fun read =>
    if read.1.network ≠ some "none" then
      .error "development OCI execution requires network=none"
    else match read.2 with
      | [] => .error "missing OCI descriptor"
      | [_] => .error "missing operation entrypoint"
      | descriptor :: command =>
          .ok ⟨descriptor, read.1.binds, read.1.workingDirectory, command⟩

/-! ## Binds -/

/-- A `PurePosixPath`: its root, and the names below it. -/
structure PosixPath where
  root : String
  names : List String
deriving DecidableEq

/-- Two slashes at the beginning, and no third, are a root of their own. -/
def posixRoot (text : String) : String :=
  if !startsWith text "/" then ""
  else if startsWith text "//" && !startsWith text "///" then "//"
  else "/"

def PosixPath.parse (text : String) : PosixPath :=
  ⟨posixRoot text, (pathNames text).filter (· ≠ ".")⟩

def PosixPath.text (path : PosixPath) : String :=
  if path.root = "" ∧ path.names = [] then "." else path.root ++ "/".intercalate path.names

/-- `relative_to`, where it does not raise. -/
def PosixPath.relativeTo (path other : PosixPath) : Option (List String) :=
  if path.root = other.root ∧ other.names <+: path.names then
    some (path.names.drop other.names.length)
  else none

/-- The part of the descriptor that the binds use. -/
structure SharedRoots where
  hostSharedRoot : String
  schedulerSharedRoot : String

/-- What the shim asks of the node's file system. -/
structure SharedFiles where
  resolve : PosixPath → PosixPath
  isDir : String → Bool

/-- The three parts of a bind. -/
def takeApart (value : String) : Except String (String × String × String) :=
  match value.toList.splitOn ':' with
  | [source, destination, mode] =>
      if String.ofList mode ∈ ["ro", "rw"] then
        .ok (String.ofList source, String.ofList destination, String.ofList mode)
      else .error ("invalid bind mode: " ++ String.ofList mode)
  | _ => .error ("invalid bind mapping: " ++ value)

/-- The mount for the parts of a bind. -/
def dockerBind (files : SharedFiles) (roots : SharedRoots)
    (value source destination mode : String) : Except String String :=
  let hostRoot := files.resolve (PosixPath.parse roots.hostSharedRoot)
  match (PosixPath.parse source).relativeTo (PosixPath.parse roots.schedulerSharedRoot) with
  | none => .error ("bind source is outside shared storage: " ++ source)
  | some relative =>
      let destinationPath := PosixPath.parse destination
      if destinationPath.root = "" ∨ ".." ∈ relative ∨ ".." ∈ destinationPath.names then
        .error ("invalid bind mapping: " ++ value)
      else
        let hostSource := files.resolve ⟨hostRoot.root, hostRoot.names ++ relative⟩
        if hostSource.relativeTo hostRoot = none then
          .error ("bind source escapes shared storage: " ++ source)
        else if !files.isDir source then
          .error ("bind source is not a directory: " ++ source)
        else .ok (hostSource.text ++ ":" ++ destinationPath.text ++ ":" ++ mode)

/-- `_docker_binds` -/
def dockerBinds (files : SharedFiles) (roots : SharedRoots) (values : List String) :
    Except String (List String) :=
  values.mapM fun value =>
    (takeApart value).bind fun parts => dockerBind files roots value parts.1 parts.2.1 parts.2.2

/-! ## Reading back -/

/-- The words of a line of text. -/
def shellWords (line : String) : Option (List String) :=
  (Shell.words line.toList).map fun words => words.map String.ofList

/-- The arguments and the binds of a job come out of its command line as they were put in. -/
structure ApptainerJob.ReadsBack (job : ApptainerJob) : Prop where
  command : ∃ argv, shellWords job.command = some (job.apptainerExecutable :: argv) ∧
    parseCommand argv = .ok
      ⟨job.image, job.binds.map (·.text), job.workingDirectory, job.entrypoint ++ job.arguments⟩
  parts : ∀ bind ∈ job.binds,
    takeApart bind.text = .ok (bind.source, bind.destination, bind.mode)
  mounts : ∀ files roots, dockerBinds files roots (job.binds.map (·.text)) =
    job.binds.mapM fun bind =>
      dockerBind files roots bind.text bind.source bind.destination bind.mode

section Words

variable {job : ApptainerJob} {script : String}

theorem renderApptainerJob_eq (h : renderApptainerJob job = .ok script) :
    script = job.script ∧ ∀ check ∈ job.checks, check.1 = false := by
  unfold renderApptainerJob at h
  cases hfind : job.checks.find? (·.1) with
  | some check => simp [hfind] at h
  | none =>
      simp only [hfind, Except.ok.injEq] at h
      refine ⟨h.symm, fun check hmem => ?_⟩
      simpa using List.find?_eq_none.mp hfind check hmem

theorem entrypoint_ne_nil (h : renderApptainerJob job = .ok script) : job.entrypoint ≠ [] := by
  have hcheck := (renderApptainerJob_eq h).2
    (job.entrypoint = [] || job.entrypoint.any (· = ""), "entrypoint must contain non-empty tokens")
    (by simp [ApptainerJob.checks])
  simp only [Bool.or_eq_false_iff, decide_eq_false_iff_not] at hcheck
  exact hcheck.1

/-- The words of the command line of a job that stages nothing. -/
def ApptainerJob.commandWords (job : ApptainerJob) : List String :=
  ["exec", "--containall", "--cleanenv", "--net", "--network", "none", "--no-home", "--pwd",
    job.workingDirectory] ++
  job.binds.flatMap (fun bind => ["--bind", bind.text]) ++
  [job.image] ++ job.entrypoint ++ job.arguments

theorem commandTokens_eq (hlocal : job.nodeLocal = none) :
    job.commandTokens = (job.apptainerExecutable :: job.commandWords).map shlexQuote := by
  have hbinds : job.binds.zipIdx.flatMap (fun bind => ["--bind", job.bindToken bind.1 bind.2]) =
      (job.binds.flatMap fun bind => ["--bind", bind.text]).map shlexQuote := by
    rw [List.map_flatMap]
    conv_rhs => rw [← List.zipIdx_map_fst 0 job.binds, List.flatMap_map]
    apply List.flatMap_congr
    intro bind _
    simp only [ApptainerJob.bindToken, ApptainerJob.stages, hlocal, Option.any_none,
      Bool.false_and, Bool.false_eq_true, if_false]
    rfl
  rw [ApptainerJob.commandTokens, hbinds, ApptainerJob.imageToken, hlocal]
  simp only [ApptainerJob.commandWords, Option.any_none, Bool.false_eq_true, if_false,
    List.map_cons, List.map_append, List.map_nil]
  rfl

theorem toList_shlexQuote (text : String) : (shlexQuote text).toList = Shell.quote text.toList :=
  String.toList_ofList

theorem shellWords_command (hlocal : job.nodeLocal = none) :
    shellWords job.command = some (job.apptainerExecutable :: job.commandWords) := by
  have htokens : Shell.tokens job.command.toList =
      some (((job.apptainerExecutable :: job.commandWords).map String.toList).map
        Shell.literal) := by
    have hline : job.command.toList = Shell.quote job.apptainerExecutable.toList ++
        Shell.blanks (job.commandWords.map fun word => Shell.quote word.toList) := by
      rw [ApptainerJob.command, String.toList_intercalate, commandTokens_eq hlocal]
      simp only [List.map_cons, List.map_map, Function.comp_def, toList_shlexQuote]
      exact Shell.intercalate_blank _ _
    have hfirst := Shell.spells_quote job.apptainerExecutable.toList none
    rw [hline, Shell.tokens, Shell.start, Shell.tokensFrom_silent hfirst,
      Shell.tokensFrom_blanks fun word _ => Shell.spells_quote word.toList]
    simp only [List.map_cons, List.map_map, Function.comp_def, Shell.literal, Option.getD_none,
      List.nil_append]
  rw [shellWords, Shell.words_eq htokens, Option.map_some, List.map_map]
  simp

/-- A word that begins with a slash is no option. -/
theorem readOptions_path {word : String} (hword : startsWith word "/" = true)
    (options : ShimOptions) (argv : List String) :
    readOptions options (word :: argv) = .ok (options, word :: argv) := by
  obtain ⟨rest, hrest⟩ := List.isPrefixOf_iff_prefix.mp hword
  have hdash : startsWith word "-" = false := by
    rw [startsWith, ← hrest]
    rfl
  have hnot : ∀ option : String, startsWith option "-" = true → word ≠ option := by
    rintro option hoption rfl
    rw [hdash] at hoption
    contradiction
  have hno : word ∉ noValueOptions := by
    simp only [noValueOptions, List.mem_cons, List.not_mem_nil, or_false, not_or]
    exact ⟨hnot _ rfl, hnot _ rfl, hnot _ rfl, hnot _ rfl⟩
  have hvalue : word ∉ valueOptions := by
    simp only [valueOptions, List.mem_cons, List.not_mem_nil, or_false, not_or]
    exact ⟨hnot _ rfl, hnot _ rfl, hnot _ rfl⟩
  cases argv with
  | nil => simp [readOptions, hno, hvalue, hdash]
  | cons value argv => simp [readOptions, hno, hvalue, hdash]

theorem readOptions_binds {word : String} (hword : startsWith word "/" = true)
    (binds : List String) (options : ShimOptions) (argv : List String) :
    readOptions options (binds.flatMap (fun bind => ["--bind", bind]) ++ word :: argv) =
      .ok ({ options with binds := options.binds ++ binds }, word :: argv) := by
  induction binds generalizing options with
  | nil =>
      rw [List.append_nil]
      exact readOptions_path hword options argv
  | cons bind binds ih =>
      have hbind : ∀ rest, readOptions options ("--bind" :: bind :: rest) =
          readOptions { options with binds := options.binds ++ [bind] } rest := fun _ => rfl
      rw [List.flatMap_cons, List.append_assoc, List.cons_append, List.cons_append,
        List.nil_append, hbind, ih]
      simp

theorem parseCommand_commandWords (h : renderApptainerJob job = .ok script)
    (himage : startsWith job.image "/" = true) :
    parseCommand job.commandWords = .ok
      ⟨job.image, job.binds.map (·.text), job.workingDirectory,
        job.entrypoint ++ job.arguments⟩ := by
  obtain ⟨first, rest, hentrypoint⟩ := List.exists_cons_of_ne_nil (entrypoint_ne_nil h)
  have hread : readOptions {} job.commandWords.tail =
      .ok (⟨job.binds.map (·.text), job.workingDirectory, some "none"⟩,
        job.image :: (job.entrypoint ++ job.arguments)) := by
    have hbinds := readOptions_binds himage (job.binds.map (·.text))
      ⟨[], job.workingDirectory, some "none"⟩ (job.entrypoint ++ job.arguments)
    rw [List.flatMap_map, List.nil_append] at hbinds
    rw [← hbinds, ApptainerJob.commandWords]
    simp only [List.append_assoc, List.cons_append, List.nil_append, List.tail_cons]
    rfl
  have hhead : job.commandWords.head? = some "exec" := rfl
  rw [parseCommand, if_neg (not_not_intro hhead), hread, hentrypoint]
  rfl

end Words

/-! ## Parts -/

section Parts

variable {job : ApptainerJob} {script : String} {bind : ApptainerBind}

theorem destination_notMem (h : renderApptainerJob job = .ok script) (hbind : bind ∈ job.binds) :
    ':' ∉ bind.destination.toList := by
  have hcheck := (renderApptainerJob_eq h).2
    (!startsWith bind.destination "/" || bind.destination.toList.any isSpace ||
      ':' ∈ bind.destination.toList, "Apptainer bind destination must be absolute") (by
        simp only [ApptainerJob.checks, List.mem_append, List.mem_flatMap]
        exact .inl (.inr ⟨bind, hbind, List.mem_cons_of_mem _ (List.mem_singleton_self _)⟩))
  simp only [Bool.or_eq_false_iff, decide_eq_false_iff_not] at hcheck
  exact hcheck.2

theorem mode_notMem (bind : ApptainerBind) : ':' ∉ bind.mode.toList := by
  unfold ApptainerBind.mode
  split <;> decide

theorem splitOn_text (hdestination : ':' ∉ bind.destination.toList) :
    bind.text.toList.splitOn ':' =
      bind.source.toList.splitOn ':' ++ [bind.destination.toList, bind.mode.toList] := by
  have htext : bind.text.toList =
      bind.source.toList ++ ':' :: (bind.destination.toList ++ ':' :: bind.mode.toList) := by
    simp [ApptainerBind.text]
  rw [htext, List.splitOn_append_cons_self,
    List.splitOn_append_cons_self_of_not_mem hdestination,
    List.splitOn_eq_singleton (mode_notMem bind)]

/-- The parts of a bind are its fields exactly if its source has no colon. -/
theorem takeApart_text_iff (hdestination : ':' ∉ bind.destination.toList) :
    takeApart bind.text = .ok (bind.source, bind.destination, bind.mode) ↔
      ':' ∉ bind.source.toList := by
  rw [takeApart, splitOn_text hdestination]
  constructor
  · intro h hmem
    obtain ⟨first, second, hsource⟩ := List.append_of_mem hmem
    rw [hsource, List.splitOn_append_cons_self] at h
    obtain ⟨part, parts, hparts⟩ := List.exists_cons_of_ne_nil (List.splitOn_ne_nil ':' first)
    obtain ⟨part', parts', hparts'⟩ := List.exists_cons_of_ne_nil (List.splitOn_ne_nil ':' second)
    rw [hparts, hparts'] at h
    split at h
    · rename_i hthree
      have hlength := congrArg List.length hthree
      simp only [List.length_append, List.length_cons, List.length_nil] at hlength
      omega
    · contradiction
  · intro hnot
    have hmode : bind.mode ∈ ["ro", "rw"] := by
      unfold ApptainerBind.mode
      split <;> decide
    rw [List.splitOn_eq_singleton hnot]
    simp only [List.singleton_append, String.ofList_toList, hmode, if_true]

theorem dockerBinds_texts (files : SharedFiles) (roots : SharedRoots) {binds : List ApptainerBind}
    (h : ∀ bind ∈ binds,
      takeApart bind.text = .ok (bind.source, bind.destination, bind.mode)) :
    dockerBinds files roots (binds.map (·.text)) = binds.mapM fun bind =>
      dockerBind files roots bind.text bind.source bind.destination bind.mode := by
  rw [dockerBinds, List.mapM_map]
  induction binds with
  | nil => rfl
  | cons bind binds ih =>
      rw [List.mapM_cons, List.mapM_cons, Function.comp_apply, h bind List.mem_cons_self,
        ih fun other hother => h other (List.mem_cons_of_mem _ hother)]
      rfl

/-- A rendered job without node-local staging comes back from its command line exactly if no
bind source has a colon: such a source is refused as an invalid mapping. -/
theorem readsBack_iff (h : renderApptainerJob job = .ok script)
    (himage : startsWith job.image "/" = true) (hlocal : job.nodeLocal = none) :
    job.ReadsBack ↔ ∀ bind ∈ job.binds, ':' ∉ bind.source.toList := by
  constructor
  · intro hreads bind hbind
    exact (takeApart_text_iff (destination_notMem h hbind)).mp (hreads.parts bind hbind)
  · intro hcolon
    have hparts : ∀ bind ∈ job.binds,
        takeApart bind.text = .ok (bind.source, bind.destination, bind.mode) :=
      fun bind hbind =>
        (takeApart_text_iff (destination_notMem h hbind)).mpr (hcolon bind hbind)
    exact ⟨⟨job.commandWords, shellWords_command hlocal, parseCommand_commandWords h himage⟩,
      hparts, fun files roots => dockerBinds_texts files roots hparts⟩

/-- A job with one bind, for the input of its operation. -/
def inputJob (source : String) : ApptainerJob :=
  { image := "/shared/image.oci.json"
    entrypoint := ["/opt/qhpc/bin/operation"]
    arguments := ["--shots", "100", ""]
    resources := {}
    jobName := "qhpc-run-1"
    binds := [⟨source, "/inputs", true⟩] }

theorem readsBack_inputJob :
    renderApptainerJob (inputJob "/shared/run 1") = .ok (inputJob "/shared/run 1").script ∧
      (inputJob "/shared/run 1").ReadsBack :=
  ⟨rfl, (readsBack_iff rfl rfl rfl).mpr (by decide)⟩

/-- The source lies below the shared root. -/
def InSharedRoot (root source : String) : Prop :=
  ∃ relative, (PosixPath.parse source).relativeTo (PosixPath.parse root) = some relative ∧
    ".." ∉ relative

theorem not_readsBack_colon :
    ¬ ∀ (root : String) (job : ApptainerJob) (script : String),
      renderApptainerJob job = .ok script → startsWith job.image "/" = true →
      job.nodeLocal = none → (∀ bind ∈ job.binds, InSharedRoot root bind.source) →
      job.ReadsBack := by
  intro hall
  have hinside : ∀ bind ∈ (inputJob "/shared/run:1").binds, InSharedRoot "/shared" bind.source := by
    intro bind hbind
    rw [List.mem_singleton.mp hbind]
    exact ⟨["run:1"], by decide, by decide⟩
  have hreads := hall "/shared" (inputJob "/shared/run:1") _ rfl rfl rfl hinside
  have hparts := hreads.parts _ (List.mem_singleton_self _)
  have hrefused : takeApart (ApptainerBind.text ⟨"/shared/run:1", "/inputs", true⟩) =
      .error "invalid bind mapping: /shared/run:1:/inputs:ro" := rfl
  rw [hrefused] at hparts
  contradiction

end Parts

end QhpcEcosystem
