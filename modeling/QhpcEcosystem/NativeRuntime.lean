/-
Native runtimes that several workers extract into one directory.  A call that does not find
the marker `.verified` extracts every member in place, makes the executable of the manifest
executable and writes the marker; a call may stop between any two of its steps.
-/
import QhpcEcosystem.TransitionSystem
import Mathlib.Data.List.Infix
import Mathlib.Logic.Function.Basic

namespace QhpcEcosystem

/-! ## Files -/

/-- The components of an absolute path. -/
abbrev PathComponents := List String

inductive FileNode where
  | directory
  | file (bytes : List UInt8) (executable : Bool)
deriving DecidableEq, Repr

abbrev FileTree := PathComponents → Option FileNode

def FileNode.isExecutable : FileNode → Bool
  | .directory => true
  | .file _ executable => executable

def FileTree.isFile (files : FileTree) (path : PathComponents) : Bool :=
  match files path with
  | some (.file _ _) => true
  | _ => false

/-- Make the missing ones of some directories; `none` when one of them is a file. -/
def FileTree.makeDirectories (files : FileTree) : List PathComponents → Option FileTree
  | [] => some files
  | path :: rest =>
      match files path with
      | none => makeDirectories (Function.update files path (some .directory)) rest
      | some .directory => makeDirectories files rest
      | some (.file _ _) => none

/-- `open(path, "wb")`: a file that exists is truncated and keeps its mode. -/
def FileTree.truncate (files : FileTree) (path : PathComponents) : Option FileTree :=
  match files path with
  | none => some (Function.update files path (some (.file [] false)))
  | some (.file _ executable) => some (Function.update files path (some (.file [] executable)))
  | some .directory => none

/-- Bytes after a write at an offset; a gap before the offset is filled with zeros. -/
def overwrite (bytes : List UInt8) (offset : Nat) (chunk : List UInt8) : List UInt8 :=
  bytes.take offset ++ List.replicate (offset - bytes.length) 0 ++ chunk ++
    bytes.drop (offset + chunk.length)

def FileTree.writeAt (files : FileTree) (path : PathComponents) (offset : Nat) (chunk : List UInt8) :
    Option FileTree :=
  match files path with
  | some (.file bytes executable) =>
      some (Function.update files path (some (.file (overwrite bytes offset chunk) executable)))
  | _ => none

/-- `chmod(0o755)`. -/
def FileTree.makeExecutable (files : FileTree) (path : PathComponents) : Option FileTree :=
  match files path with
  | none => none
  | some .directory => some files
  | some (.file bytes _) => some (Function.update files path (some (.file bytes true)))

/-! ## Archives -/

/-- A member of a zip archive; the filename is given by its components between slashes. -/
structure ArchiveMember where
  filename : List String
  bytes : List UInt8
deriving DecidableEq, Repr

/-- `ZipInfo.is_dir`: the filename ends with a slash. -/
def ArchiveMember.isDir (member : ArchiveMember) : Bool :=
  member.filename.getLast? = some ""

/-- The path below the directory of extraction: `extractall` drops the components that are
empty, `.` or `..`. -/
def ArchiveMember.target (member : ArchiveMember) : PathComponents :=
  member.filename.filter fun component => component ∉ ["", ".", ".."]

/-- `Path.resolve` without symbolic links. -/
def resolvePath (components : List String) : PathComponents :=
  components.foldl (fun path component =>
    if component = "" ∨ component = "." then path
    else if component = ".." then path.dropLast
    else path ++ [component]) []

/-- `directory / filename`; an absolute filename replaces the directory. -/
def joinPath (directory : PathComponents) (filename : List String) : PathComponents :=
  if filename.head? = some "" then resolvePath filename else resolvePath (directory ++ filename)

/-- One archive whose digest was checked, with the directory that is named by the digest and
the line that is written to the marker.  `executable` reads the field of that name from a
manifest. -/
structure NativeArchive where
  extracted : PathComponents
  digestLine : List UInt8
  members : List ArchiveMember
  executable : List UInt8 → Option (List String)

namespace NativeArchive

def path (archive : NativeArchive) (member : ArchiveMember) : PathComponents :=
  archive.extracted ++ member.target

def marker (archive : NativeArchive) : PathComponents := archive.extracted ++ [".verified"]

def manifest (archive : NativeArchive) : PathComponents := archive.extracted ++ ["manifest.json"]

/-- `extracted in target.parents`. -/
def isSafe (archive : NativeArchive) (member : ArchiveMember) : Bool :=
  let target := joinPath archive.extracted member.filename
  archive.extracted <+: target ∧ archive.extracted ≠ target

end NativeArchive

/-! ## Calls -/

/-- Where a call is: at the marker check, past it without a marker, before the member at an
index, inside it, before `chmod`, before the marker is written, or at its end. -/
inductive ResolvePhase where
  | checking
  | missed
  | extracting (index : Nat)
  | writing (index offset : Nat)
  | extracted (executable : PathComponents)
  | marking
  | returned
  | stopped
deriving DecidableEq, Repr

/-- The call has missed the marker and has neither returned nor stopped. -/
def ResolvePhase.isActive : ResolvePhase → Bool
  | .checking | .returned | .stopped => false
  | _ => true

/-- The files, and the calls in the order in which they start. -/
structure RuntimeStore where
  files : FileTree
  calls : List ResolvePhase := []

inductive ResolveEvent where
  | start
  | check (id : Nat)
  | openArchive (id : Nat)
  | openMember (id : Nat)
  | writeChunk (id size : Nat)
  | closeMember (id : Nat)
  | readManifest (id : Nat)
  | chmod (id : Nat)
  | writeMarker (id : Nat)
  | stop (id : Nat)
deriving DecidableEq, Repr

/-- The event creates, truncates, writes or changes a file. -/
def ResolveEvent.changesFiles : ResolveEvent → Bool
  | .openArchive _ | .openMember _ | .writeChunk _ _ | .chmod _ | .writeMarker _ => true
  | _ => false

namespace RuntimeStore

variable (archive : NativeArchive) (s : RuntimeStore)

/-- A call goes on to a phase. -/
def proceed (id : Nat) (files : FileTree) (phase : ResolvePhase) : RuntimeStore where
  files := files
  calls := s.calls.set id phase

def check (id : Nat) : RuntimeStore :=
  s.proceed id s.files (if s.files.isFile archive.marker then .returned else .missed)

/-- The directory is made, and the names of all members are checked. -/
def openArchive (id : Nat) : Option RuntimeStore :=
  (s.files.makeDirectories archive.extracted.inits.tail).map fun files =>
    s.proceed id files (if archive.members.all archive.isSafe then .extracting 0 else .stopped)

/-- `extractall` reaches a member: its parents are made, and it is made or truncated. -/
def openMember (id index : Nat) : Option RuntimeStore :=
  archive.members[index]?.bind fun member =>
    let path := archive.path member
    (s.files.makeDirectories path.dropLast.inits.tail).bind fun files =>
      if member.isDir then
        (files.makeDirectories [path]).map fun files => s.proceed id files (.extracting (index + 1))
      else (files.truncate path).map fun files => s.proceed id files (.writing index 0)

def writeChunk (id index offset size : Nat) : Option RuntimeStore :=
  archive.members[index]?.bind fun member =>
    let chunk := (member.bytes.drop offset).take size
    (s.files.writeAt (archive.path member) offset chunk).map fun files =>
      s.proceed id files (.writing index (offset + chunk.length))

def closeMember (id index offset : Nat) : Option RuntimeStore :=
  archive.members[index]?.bind fun member =>
    if offset = member.bytes.length then some (s.proceed id s.files (.extracting (index + 1)))
    else none

def readManifest (id index : Nat) : Option RuntimeStore :=
  if index = archive.members.length then
    match s.files archive.manifest with
    | some (.file bytes _) => (archive.executable bytes).map fun name =>
        s.proceed id s.files (.extracted (joinPath archive.extracted name))
    | _ => none
  else none

def chmod (id : Nat) (executable : PathComponents) : Option RuntimeStore :=
  (s.files.makeExecutable executable).map fun files => s.proceed id files .marking

def writeMarker (id : Nat) : Option RuntimeStore :=
  (s.files.truncate archive.marker).bind fun files =>
    (files.writeAt archive.marker 0 archive.digestLine).map fun files =>
      s.proceed id files .returned

/-- The steps of the calls.  A call may stop anywhere; one that raises does. -/
def step : ResolveEvent → Option RuntimeStore
  | .start => some { s with calls := s.calls ++ [.checking] }
  | .check id => match s.calls[id]? with
      | some .checking => some (s.check archive id)
      | _ => none
  | .openArchive id => match s.calls[id]? with
      | some .missed => s.openArchive archive id
      | _ => none
  | .openMember id => match s.calls[id]? with
      | some (.extracting index) => s.openMember archive id index
      | _ => none
  | .writeChunk id size => match s.calls[id]? with
      | some (.writing index offset) => s.writeChunk archive id index offset size
      | _ => none
  | .closeMember id => match s.calls[id]? with
      | some (.writing index offset) => s.closeMember archive id index offset
      | _ => none
  | .readManifest id => match s.calls[id]? with
      | some (.extracting index) => s.readManifest archive id index
      | _ => none
  | .chmod id => match s.calls[id]? with
      | some (.extracted executable) => s.chmod id executable
      | _ => none
  | .writeMarker id => match s.calls[id]? with
      | some .marking => s.writeMarker archive id
      | _ => none
  | .stop id => match s.calls[id]? with
      | some .returned | none => none
      | some _ => some (s.proceed id s.files .stopped)

end RuntimeStore

/-- The calls for one archive; nothing is extracted at first. -/
def nativeRuntime (archive : NativeArchive) : TransitionSystem RuntimeStore ResolveEvent where
  Initial s := (∀ path, archive.extracted <+: path → s.files path = none) ∧ s.calls = []
  step := RuntimeStore.step archive

end QhpcEcosystem
