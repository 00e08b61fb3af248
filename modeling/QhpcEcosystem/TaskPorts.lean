/-
The ports of a task on a Slurm target.  The runner copies every input artifact to the path that
the runtime names for its port, each through a temporary file beside it, and copies every output
into the directory of the task.  A call that stages inputs may stop between any two of its
steps; the next call starts over in the directory as it was left.
-/
import QhpcEcosystem.EngineState
import QhpcEcosystem.NativeRuntime
import QhpcEcosystem.OciShim

namespace QhpcEcosystem

/-! ## Container paths -/

/-- `_relative_port`. -/
def relativePort (path mount label : String) : Except String PathComponents :=
  match (PosixPath.parse path).relativeTo (PosixPath.parse mount) with
  | none => .error s!"{label} is outside its declared container mount"
  | some relative =>
      if relative = [] ∨ ".." ∈ relative then .error s!"invalid {label}" else .ok relative

/-- `with_name(f".\x7bname\x7d.tmp")`. -/
def temporaryPath (path : PathComponents) : PathComponents :=
  path.dropLast ++ ["." ++ path.getLastD "" ++ ".tmp"]

/-! ## Inputs -/

/-- What a call of `_stage_inputs` reads.  `localFile` reads the regular file that a URI names;
a call reads it for the digest and again for the copy, and no file of an artifact changes
meanwhile.  The paths of ports lie below the directory of the inputs. -/
structure InputStaging where
  ports : Dict String String
  mount : String
  maxTaskInputBytes : Nat
  inputs : Dict String ArtifactRecord
  localFile : String → Except String (List UInt8)
  digest : List UInt8 → String

/-- An input that has passed its checks. -/
structure PortInput where
  port : String
  path : PathComponents
  contents : List UInt8
deriving DecidableEq, Repr

/-- Where a call of `_stage_inputs` is: before the checks of a port, before it makes one of the
parents, before it looks at the destination, or at an offset of the copy.  `total` counts the
bytes of the ports so far. -/
inductive StagingPhase where
  | idle
  | checking (index total : Nat)
  | making (index total : Nat) (input : PortInput) (depth : Nat)
  | comparing (index total : Nat) (input : PortInput)
  | copying (index total : Nat) (input : PortInput) (offset : Nat)
  | returned
  | raised (message : String)
deriving DecidableEq, Repr

def StagingPhase.isRunning : StagingPhase → Bool
  | .idle | .returned | .raised _ => false
  | _ => true

structure StagingState where
  files : FileTree
  phase : StagingPhase := .idle

inductive StagingEvent where
  | start
  | proceed
  | copy (size : Nat)
  | stop
deriving DecidableEq, Repr

/-- The steps of one call, without its start and without a stop. -/
def StagingEvent.goesOn : StagingEvent → Bool
  | .proceed | .copy _ => true
  | .start | .stop => false

/-- The parents of a path, from the top. -/
def parentPaths (path : PathComponents) : List PathComponents := path.dropLast.inits.tail

/-- `os.replace`; the temporary file vanishes. -/
def FileTree.replaceFile (files : FileTree) (source target : PathComponents) : Option FileTree :=
  match files source, files target with
  | some node, none | some node, some (.file _ _) =>
      some (Function.update (Function.update files target (some node)) source none)
  | _, _ => none

namespace InputStaging

variable (staging : InputStaging) (s : StagingState)

/-- The checks of one port; `total` counts the bytes of the ports before it. -/
def checkInput (port containerPath : String) (total : Nat) : Except String (PortInput × Nat) :=
  match staging.inputs.row? port with
  | none => .error port
  | some (_, artifact) =>
      (staging.localFile artifact.uri).bind fun contents =>
        if total + contents.length > staging.maxTaskInputBytes then
          .error "task inputs exceed storage profile limit"
        else if staging.digest contents ≠ artifact.checksum then
          .error s!"input artifact checksum mismatch for port {port}"
        else if contents.length ≠ artifact.sizeBytes then
          .error s!"input artifact size mismatch for port {port}"
        else (relativePort containerPath staging.mount s!"input port {port}").map fun path =>
          (⟨port, path, contents⟩, total + contents.length)

def check (index total : Nat) : StagingState :=
  match staging.ports.rows[index]? with
  | none => { s with phase := .returned }
  | some (port, containerPath) =>
      match staging.checkInput port containerPath total with
      | .error message => { s with phase := .raised message }
      | .ok (input, total) => { s with phase := .making index total input 0 }

def makeParent (index total : Nat) (input : PortInput) (depth : Nat) : StagingState :=
  match (parentPaths input.path)[depth]? with
  | none => { s with phase := .comparing index total input }
  | some parent =>
      match s.files.makeDirectories [parent] with
      | none => { s with phase := .raised "OSError" }
      | some files => ⟨files, .making index total input (depth + 1)⟩

/-- `destination.exists()`: a file with the same digest is kept. -/
def compare (index total : Nat) (input : PortInput) : StagingState :=
  match s.files input.path with
  | some .directory => { s with phase := .raised "IsADirectoryError" }
  | some (.file bytes _) =>
      if staging.digest bytes ≠ staging.digest input.contents then
        { s with phase := .raised s!"staged input conflicts with port {input.port}" }
      else { s with phase := .checking (index + 1) total }
  | none =>
      match s.files.truncate (temporaryPath input.path) with
      | none => { s with phase := .raised "IsADirectoryError" }
      | some files => ⟨files, .copying index total input 0⟩

def replace (index total : Nat) (input : PortInput) : StagingState :=
  match s.files.replaceFile (temporaryPath input.path) input.path with
  | none => { s with phase := .raised "OSError" }
  | some files => ⟨files, .checking (index + 1) total⟩

def proceed : Option StagingState :=
  match s.phase with
  | .checking index total => some (staging.check s index total)
  | .making index total input depth => some (makeParent s index total input depth)
  | .comparing index total input => some (staging.compare s index total input)
  | .copying index total input offset =>
      if offset = input.contents.length then some (replace s index total input) else none
  | .idle | .returned | .raised _ => none

/-- Up to `size` bytes of the source are written. -/
def copy (size : Nat) : Option StagingState :=
  match s.phase with
  | .copying index total input offset =>
      let chunk := (input.contents.drop offset).take size
      (s.files.writeAt (temporaryPath input.path) offset chunk).map fun files =>
        ⟨files, .copying index total input (offset + chunk.length)⟩
  | _ => none

def step : StagingEvent → Option StagingState
  | .start => if s.phase.isRunning then none else some { s with phase := .checking 0 0 }
  | .proceed => staging.proceed s
  | .copy size => copy s size
  | .stop => if s.phase.isRunning then some { s with phase := .idle } else none

end InputStaging

/-- The directory of the inputs before the first call. -/
def emptyDirectory : FileTree := fun path => if path = [] then some .directory else none

/-- The calls of `_stage_inputs` for one attempt, one after another. -/
def InputStaging.calls (staging : InputStaging) :
    TransitionSystem StagingState StagingEvent where
  Initial s := s = ⟨emptyDirectory, .idle⟩
  step := staging.step

/-! ## Outputs -/

/-- `PurePath.suffix`. -/
def pathSuffix (path : PathComponents) : String :=
  let name := (path.getLastD "").toList
  let stem := name.reverse.dropWhile (· ≠ '.')
  let suffix := name.drop (stem.length - 1)
  if 1 < stem.length ∧ 1 < suffix.length then String.ofList suffix else ""

/-- `str(path)` of an absolute path. -/
def pathText (path : PathComponents) : String := "/" ++ "/".intercalate path

/-- What `collect` reads: the paths of the runtime, the types of the request, the directory of
the outputs, and how a file of the work directory is named by a URI.  `resolve` is
`Path.resolve`, which follows the symbolic links that the job has left; `outputs` gives the files
by their resolved paths. -/
structure OutputCollection where
  ports : Dict String String
  mount : String
  outputTypes : Dict String String
  outputsDirectory : PathComponents
  resolve : PathComponents → PathComponents
  outputs : FileTree
  asUri : String → String
  digest : List UInt8 → String

namespace OutputCollection

variable (collection : OutputCollection)

/-- The file that an output is copied from. -/
def source (path : PathComponents) : PathComponents :=
  collection.resolve (collection.outputsDirectory ++ path)

/-- The file of the work directory that an output is copied to. -/
def destination (port : String) (source : PathComponents) : String := port ++ pathSuffix source

/-- `ArtifactResult.from_path`. -/
def fromPath (artifactType name : String) (bytes : List UInt8) : ArtifactResult where
  artifactType := artifactType
  uri := collection.asUri name
  checksum := collection.digest bytes
  sizeBytes := bytes.length

/-- One output is copied; `files` is the work directory. -/
def collectPort (files : FileTree) (port containerPath : String) :
    Except String (FileTree × ArtifactResult) :=
  (relativePort containerPath collection.mount s!"output port {port}").bind fun path =>
    let source := collection.source path
    -- `_within`
    if ¬ collection.outputsDirectory <+: source then
      .error s!"output port {port} is outside approved root {pathText collection.outputsDirectory}"
    else match collection.outputs source with
    | some (.file bytes _) =>
        let name := destination port source
        match ((files.truncate (temporaryPath [name])).bind fun files =>
            files.writeAt (temporaryPath [name]) 0 bytes).bind fun files =>
              files.replaceFile (temporaryPath [name]) [name] with
        | none => .error "OSError"
        | some files =>
            match collection.outputTypes.row? port with
            | none => .error port
            | some (_, artifactType) => .ok (files, collection.fromPath artifactType name bytes)
    | _ => .error s!"target omitted output for port {port}: {pathText source}"

def collectPorts (files : FileTree) :
    List (String × String) → Except String (FileTree × List (String × ArtifactResult))
  | [] => .ok (files, [])
  | (port, containerPath) :: rest =>
      (collection.collectPort files port containerPath).bind fun (files, artifact) =>
        (collectPorts files rest).map fun (files, artifacts) =>
          (files, (port, artifact) :: artifacts)

/-- The loop of `collect`. -/
def collect (files : FileTree) : Except String (FileTree × List (String × ArtifactResult)) :=
  collection.collectPorts files collection.ports.rows

end OutputCollection

end QhpcEcosystem
