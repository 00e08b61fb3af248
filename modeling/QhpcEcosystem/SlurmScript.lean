/-
The batch script of an Apptainer job. The renderer checks every text of the job, in a fixed
order, and puts the accepted ones into the directives, the staging commands and the command
line of the script.
-/
import QhpcEcosystem.AttemptOperations
import QhpcEcosystem.ShellWords

namespace QhpcEcosystem

/-! ## Jobs -/

structure SlurmResources where
  cpu : Int := 1
  memoryMb : Int := 1024
  walltimeSeconds : Int := 600
  gpu : Int := 0
  partition : Option String := none
  account : Option String := none
  qos : Option String := none

structure ApptainerBind where
  source : String
  destination : String
  readOnly : Bool

structure NodeLocalStaging where
  «namespace» : String
  stageImage : Bool := true
  stageReadOnlyBinds : Bool := true
  minimumFreeMb : Option Int := none

/-- The arguments of `render_apptainer_job`. -/
structure ApptainerJob where
  image : String
  entrypoint : List String
  arguments : List String
  resources : SlurmResources
  jobName : String
  binds : List ApptainerBind := []
  workingDirectory : String := "/work"
  stdoutPath : Option String := none
  stderrPath : Option String := none
  telemetryPath : Option String := none
  apptainerExecutable : String := "apptainer"
  nodeLocal : Option NodeLocalStaging := none

/-! ## Checks -/

/-- `str.startswith` -/
def startsWith (text beginning : String) : Bool :=
  beginning.toList.isPrefixOf text.toList

/-- `[A-Za-z0-9_.-]` -/
def isSlurmChar (c : Char) : Bool :=
  c.isAlphanum || c ∈ ['_', '.', '-']

/-- `[A-Za-z0-9_.-]+` -/
def isSlurmName (text : String) : Bool :=
  text ≠ "" && text.toList.all isSlurmChar

/-- `[A-Za-z0-9][A-Za-z0-9_.-]*` -/
def isCommandName (text : String) : Bool :=
  match text.toList with
  | [] => false
  | c :: rest => c.isAlphanum && rest.all isSlurmChar

/-- `[A-Za-z0-9][A-Za-z0-9_.-]{0,63}` -/
def isStagingNamespace (text : String) : Bool :=
  isCommandName text && text.length ≤ 64

/-- A name that is given, not empty, and of another form. -/
def isBadName (name : Option String) : Bool :=
  match name with
  | none => false
  | some text => text ≠ "" && !isSlurmName text

def isBadPath (path : Option String) : Bool :=
  match path with
  | none => false
  | some text => !startsWith text "/" || '\n' ∈ text.toList || '\r' ∈ text.toList

def ApptainerBind.checks (bind : ApptainerBind) : List (Bool × String) :=
  [(!startsWith bind.source "/" || '\n' ∈ bind.source.toList,
      "Apptainer bind source must be absolute"),
    (!startsWith bind.destination "/" || bind.destination.toList.any isSpace ||
      ':' ∈ bind.destination.toList, "Apptainer bind destination must be absolute")]

def NodeLocalStaging.checks (image : String) (node : NodeLocalStaging) : List (Bool × String) :=
  [(!isStagingNamespace node.namespace, "invalid node-local staging namespace"),
    (node.minimumFreeMb.any (· < 1), "node-local minimum free space must be positive"),
    (node.stageImage && (startsWith image "file://" || startsWith image "oras://"),
      "node-local image staging requires an absolute image path")]

/-- What the renderer refuses, and the text of its error, in the order of its checks. -/
def ApptainerJob.checks (job : ApptainerJob) : List (Bool × String) :=
  [(job.entrypoint = [] || job.entrypoint.any (· = ""),
      "entrypoint must contain non-empty tokens"),
    (!(startsWith job.image "/" || startsWith job.image "file://" ||
        startsWith job.image "oras://"),
      "Apptainer image must be absolute, file://, or oras://"),
    (job.resources.cpu < 1 || job.resources.memoryMb < 1 || job.resources.walltimeSeconds < 1,
      "Slurm resources must be positive"),
    (job.resources.gpu < 0, "GPU count cannot be negative"),
    (!isSlurmName job.jobName, "invalid Slurm job name"),
    (isBadName job.resources.partition, "invalid Slurm partition"),
    (isBadName job.resources.account, "invalid Slurm account"),
    (isBadName job.resources.qos, "invalid Slurm QoS"),
    (!(isCommandName job.apptainerExecutable ||
        (startsWith job.apptainerExecutable "/" &&
          !job.apptainerExecutable.toList.any isSpace)),
      "invalid Apptainer executable"),
    (!startsWith job.workingDirectory "/" || job.workingDirectory.toList.any isSpace,
      "container working directory must be absolute"),
    (isBadPath job.stdoutPath, "stdout path must be absolute"),
    (isBadPath job.stderrPath, "stderr path must be absolute"),
    (isBadPath job.telemetryPath, "telemetry path must be absolute")] ++
  job.binds.flatMap ApptainerBind.checks ++
  job.nodeLocal.toList.flatMap (NodeLocalStaging.checks job.image)

/-! ## Directives -/

/-- A count of minutes or seconds, at least two digits wide. -/
def twoDigits (n : Int) : String :=
  if (toString n).length < 2 then "0" ++ toString n else toString n

/-- A directive for a text that is given and not empty. -/
def directive (option : String) (text : Option String) : List String :=
  match text with
  | none => []
  | some text => if text = "" then [] else ["#SBATCH --" ++ option ++ "=" ++ text]

def ApptainerJob.directives (job : ApptainerJob) : List String :=
  let minutes := job.resources.walltimeSeconds / 60
  let seconds := job.resources.walltimeSeconds % 60
  let hours := minutes / 60
  ["#!/usr/bin/env bash",
    "#SBATCH --job-name=" ++ job.jobName,
    "#SBATCH --cpus-per-task=" ++ toString job.resources.cpu,
    "#SBATCH --mem=" ++ toString job.resources.memoryMb ++ "M",
    "#SBATCH --time=" ++ twoDigits hours ++ ":" ++ twoDigits (minutes % 60) ++ ":" ++
      twoDigits seconds] ++
  (if job.resources.gpu = 0 then [] else ["#SBATCH --gpus=" ++ toString job.resources.gpu]) ++
  directive "partition" job.resources.partition ++
  directive "account" job.resources.account ++
  directive "qos" job.resources.qos ++
  directive "output" job.stdoutPath ++
  directive "error" job.stderrPath

/-! ## The command line -/

/-- `shlex.quote` -/
def shlexQuote (text : String) : String :=
  String.ofList (Shell.quote text.toList)

def ApptainerBind.mode (bind : ApptainerBind) : String :=
  if bind.readOnly then "ro" else "rw"

/-- The value of `--bind`. -/
def ApptainerBind.text (bind : ApptainerBind) : String :=
  bind.source ++ ":" ++ bind.destination ++ ":" ++ bind.mode

/-- Whether the node keeps a copy of the source. -/
def ApptainerJob.stages (job : ApptainerJob) (bind : ApptainerBind) : Bool :=
  job.nodeLocal.any (·.stageReadOnlyBinds) && bind.readOnly

/-- The copy of the source of the bind at an index. -/
def localBind (index : Nat) : String :=
  "$QHPC_NODE_ROOT/bind-" ++ toString index

def ApptainerJob.bindToken (job : ApptainerJob) (bind : ApptainerBind) (index : Nat) : String :=
  if job.stages bind then "\"" ++ localBind index ++ ":" ++ bind.destination ++ ":ro\""
  else shlexQuote bind.text

def ApptainerJob.imageToken (job : ApptainerJob) : String :=
  if job.nodeLocal.any (·.stageImage) then "\"$QHPC_NODE_ROOT/runtime.sif\""
  else shlexQuote job.image

def ApptainerJob.commandTokens (job : ApptainerJob) : List String :=
  [shlexQuote job.apptainerExecutable, "exec", "--containall", "--cleanenv", "--net", "--network",
    "none", "--no-home", "--pwd", shlexQuote job.workingDirectory] ++
  job.binds.zipIdx.flatMap (fun bind => ["--bind", job.bindToken bind.1 bind.2]) ++
  [job.imageToken] ++ job.entrypoint.map shlexQuote ++ job.arguments.map shlexQuote

def ApptainerJob.command (job : ApptainerJob) : String :=
  " ".intercalate job.commandTokens

/-! ## Setup and script -/

def minimumFreeLines (minimum : Int) : List String :=
  ["QHPC_FREE_MB=$(df -Pm -- \"$SLURM_TMPDIR\" | awk 'NR==2 \x7bprint $4\x7d')",
    "if [ \"$QHPC_FREE_MB\" -lt " ++ toString minimum ++ " ]; then",
    "  printf \"%s\\n\" \"insufficient SLURM_TMPDIR space\" >&2",
    "  exit 74",
    "fi"]

def stageStart : String := "QHPC_STAGE_START=$(date +%s%3N)"

def stageEnd : String := "QHPC_STAGE_END=$(date +%s%3N)"

/-- One line of telemetry for a stage. -/
def stageRecord (stage telemetryPath : String) : String :=
  "printf '%s\\t%s\\t%s\\n' " ++ stage ++ " \"$QHPC_STAGE_START\" \"$QHPC_STAGE_END\" >> " ++
    shlexQuote telemetryPath

def bindLines (bind : ApptainerBind) (index : Nat) : List String :=
  ["mkdir -p -- \"" ++ localBind index ++ "\"",
    "cp -a -- " ++ shlexQuote bind.source ++ "/. \"" ++ localBind index ++ "/\""]

def ApptainerJob.stagingLines (job : ApptainerJob) (node : NodeLocalStaging) : List String :=
  ["QHPC_NODE_ROOT=\"$\x7bSLURM_TMPDIR:?SLURM_TMPDIR is required\x7d/qhpc-" ++ node.namespace ++
      "\"",
    "mkdir -p -- \"$QHPC_NODE_ROOT\""] ++
  node.minimumFreeMb.toList.flatMap minimumFreeLines ++
  job.telemetryPath.toList.map (fun _ => stageStart) ++
  (if node.stageImage then
    ["cp -- " ++ shlexQuote job.image ++ " \"$QHPC_NODE_ROOT/runtime.sif\""] else []) ++
  job.binds.zipIdx.flatMap (fun bind =>
    if node.stageReadOnlyBinds && bind.1.readOnly then bindLines bind.1 bind.2 else []) ++
  job.telemetryPath.toList.flatMap (fun path => [stageEnd, stageRecord "node-local-stage" path])

def ApptainerJob.runLines (job : ApptainerJob) : List String :=
  match job.telemetryPath with
  | none => ["exec " ++ job.command]
  | some path =>
      [stageStart, "set +e", job.command, "QHPC_EXIT_CODE=$?", "set -e", stageEnd,
        stageRecord "application" path, "exit \"$QHPC_EXIT_CODE\""]

def ApptainerJob.setup (job : ApptainerJob) : List String :=
  ["", "set -euo pipefail", "umask 077"] ++ job.nodeLocal.toList.flatMap job.stagingLines ++
    job.runLines

def ApptainerJob.script (job : ApptainerJob) : String :=
  "\n".intercalate (job.directives ++ job.setup ++ [""])

/-- `render_apptainer_job`: the first check that refuses gives the error. -/
def renderApptainerJob (job : ApptainerJob) : Except String String :=
  match job.checks.find? (·.1) with
  | some check => .error check.2
  | none => .ok job.script

end QhpcEcosystem
