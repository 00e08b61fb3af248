/-
What the shell reads a rendered script as: the argument vector of its command line, and the
tokens of every other line. The one place where a text of the job can change the reading is
the destination of a staged bind, which stands in double quotes.
-/
import QhpcEcosystem.OciShim
import QhpcEcosystem.ShellQuotes

namespace QhpcEcosystem

open Shell (Piece Token ReadsLine Spells Stands Unescaped)

/-! ## The intended reading -/

/-- A text that stands for itself. -/
def verbatim (text : String) : List Piece :=
  text.toList.map .char

def verbatimWord (text : String) : Token :=
  .word (verbatim text)

/-- A parameter in double quotes. -/
def parameter (name : String) : Piece :=
  .expansion true name.toList

def nodeRoot : Piece := parameter "QHPC_NODE_ROOT"

def ApptainerJob.bindPieces (job : ApptainerJob) (bind : ApptainerBind) (index : Nat) :
    List Piece :=
  if job.stages bind then
    nodeRoot :: verbatim ("/bind-" ++ toString index ++ ":" ++ bind.destination ++ ":ro")
  else verbatim bind.text

def ApptainerJob.imagePieces (job : ApptainerJob) : List Piece :=
  if job.nodeLocal.any (·.stageImage) then nodeRoot :: verbatim "/runtime.sif"
  else verbatim job.image

/-- The argument vector of the application, the executable first. -/
def ApptainerJob.argumentVector (job : ApptainerJob) : List (List Piece) :=
  [verbatim job.apptainerExecutable, verbatim "exec", verbatim "--containall",
    verbatim "--cleanenv", verbatim "--net", verbatim "--network", verbatim "none",
    verbatim "--no-home", verbatim "--pwd", verbatim job.workingDirectory] ++
  job.binds.zipIdx.flatMap (fun bind => [verbatim "--bind", job.bindPieces bind.1 bind.2]) ++
  [job.imagePieces] ++ job.entrypoint.map verbatim ++ job.arguments.map verbatim

def minimumFreeTokens (minimum : Int) : List (List Token) :=
  [[.substitution (verbatim "QHPC_FREE_MB="), verbatimWord "df", verbatimWord "-Pm",
      verbatimWord "--", .word [parameter "SLURM_TMPDIR"], .operator '|', verbatimWord "awk",
      verbatimWord "NR==2 \x7bprint $4\x7d", .operator ')'],
    [verbatimWord "if", .operator '[', .word [parameter "QHPC_FREE_MB"], verbatimWord "-lt",
      verbatimWord (toString minimum), .operator ']', .operator ';', verbatimWord "then"],
    [verbatimWord "printf", verbatimWord "%s\\n", verbatimWord "insufficient SLURM_TMPDIR space",
      .operator '>', .operator '&', verbatimWord "2"],
    [verbatimWord "exit", verbatimWord "74"],
    [verbatimWord "fi"]]

/-- A variable that takes the time. -/
def clockTokens (variableName : String) : List Token :=
  [.substitution (verbatim (variableName ++ "=")), verbatimWord "date", verbatimWord "+%s%3N",
    .operator ')']

def stageRecordTokens (stage telemetryPath : String) : List Token :=
  [verbatimWord "printf", verbatimWord "%s\\t%s\\t%s\\n", verbatimWord stage,
    .word [parameter "QHPC_STAGE_START"], .word [parameter "QHPC_STAGE_END"], .operator '>',
    .operator '>', verbatimWord telemetryPath]

def bindLineTokens (bind : ApptainerBind) (index : Nat) : List (List Token) :=
  [[verbatimWord "mkdir", verbatimWord "-p", verbatimWord "--",
      .word (nodeRoot :: verbatim ("/bind-" ++ toString index))],
    [verbatimWord "cp", verbatimWord "-a", verbatimWord "--", verbatimWord (bind.source ++ "/."),
      .word (nodeRoot :: verbatim ("/bind-" ++ toString index ++ "/"))]]

def ApptainerJob.stagingTokens (job : ApptainerJob) (node : NodeLocalStaging) :
    List (List Token) :=
  [[.word (verbatim "QHPC_NODE_ROOT=" ++
      parameter "SLURM_TMPDIR:?SLURM_TMPDIR is required" :: verbatim ("/qhpc-" ++ node.namespace))],
    [verbatimWord "mkdir", verbatimWord "-p", verbatimWord "--", .word [nodeRoot]]] ++
  node.minimumFreeMb.toList.flatMap minimumFreeTokens ++
  job.telemetryPath.toList.map (fun _ => clockTokens "QHPC_STAGE_START") ++
  (if node.stageImage then
    [[verbatimWord "cp", verbatimWord "--", verbatimWord job.image,
      .word (nodeRoot :: verbatim "/runtime.sif")]] else []) ++
  job.binds.zipIdx.flatMap (fun bind =>
    if node.stageReadOnlyBinds && bind.1.readOnly then bindLineTokens bind.1 bind.2 else []) ++
  job.telemetryPath.toList.flatMap (fun path =>
    [clockTokens "QHPC_STAGE_END", stageRecordTokens "node-local-stage" path])

def ApptainerJob.runTokens (job : ApptainerJob) : List (List Token) :=
  match job.telemetryPath with
  | none => [verbatimWord "exec" :: job.argumentVector.map .word]
  | some path =>
      [clockTokens "QHPC_STAGE_START", [verbatimWord "set", verbatimWord "+e"],
        job.argumentVector.map .word,
        [.word (verbatim "QHPC_EXIT_CODE=" ++ [.expansion false ['?']])],
        [verbatimWord "set", verbatimWord "-e"], clockTokens "QHPC_STAGE_END",
        stageRecordTokens "application" path,
        [verbatimWord "exit", .word [parameter "QHPC_EXIT_CODE"]]]

/-- The tokens of every line; a directive is a comment. -/
def ApptainerJob.scriptTokens (job : ApptainerJob) : List (List Token) :=
  job.directives.map (fun _ => []) ++
  [[], [verbatimWord "set", verbatimWord "-euo", verbatimWord "pipefail"],
    [verbatimWord "umask", verbatimWord "077"]] ++
  job.nodeLocal.toList.flatMap job.stagingTokens ++ job.runTokens

/-- Every line of the script is read as intended, and the command line as the argument vector
alone. A script is a text without the null character, which no shell text has. -/
structure ApptainerJob.ShellSafe (job : ApptainerJob) (script : String) : Prop where
  text : '\x00' ∉ script.toList
  command : Shell.tokens job.command.toList = some (job.argumentVector.map .word)
  lines : Shell.tokens script.toList =
    some (job.scriptTokens.flatMap (· ++ [Token.newline]))

end QhpcEcosystem
