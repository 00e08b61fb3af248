/-
Outputs of a task on a Slurm target.  `collect` names the copy of an output by its port and the
suffix of the file that the job has left, so a copy may take the place of another one: all
outputs are delivered exactly when those that get one name have the same bytes.  The record of an
artifact describes the bytes of its own port in any case.
-/
import QhpcEcosystem.PortSeparation

namespace QhpcEcosystem

/-! ## One output -/

/-- The names of the work directory are free or names of files. -/
def FileTree.HasNoDirectories (files : FileTree) : Prop :=
  ∀ name, files [name] ≠ some .directory

theorem emptyDirectory_noDirectories : emptyDirectory.HasNoDirectories := by
  intro name
  simp [emptyDirectory]

theorem overwrite_nil (bytes : List UInt8) : overwrite [] 0 bytes = bytes := by
  simp [overwrite]

/-- A name of a port does not begin like a temporary file. -/
theorem destination_ne_temporary {port : String} (hport : isIdentifier port = true)
    (path : PathComponents) (name : String) :
    [OutputCollection.destination port path] ≠ temporaryPath [name] := by
  intro h
  have htext := congrArg String.toList (List.cons.inj h).1
  simp only [OutputCollection.destination, String.toList_append] at htext
  simp only [isIdentifier] at hport
  cases hchars : port.toList with
  | nil =>
      rw [hchars] at hport
      cases hport
  | cons c rest =>
      rw [hchars] at hport htext
      have hfirst : c = '.' := (List.cons.inj htext).1
      rw [hfirst] at hport
      cases hport

section Collecting

variable {collection : OutputCollection} {files files' : FileTree} {path source : PathComponents}
  {bytes : List UInt8}

/-- The work directory after the copy of an output. -/
def delivered (files : FileTree) (name : String) (bytes : List UInt8) (executable : Bool) :
    FileTree :=
  Function.update (Function.update files [name] (some (.file bytes executable)))
    (temporaryPath [name]) none

theorem delivered_holds (files : FileTree) (name : String) (bytes : List UInt8)
    (executable : Bool) : (delivered files name bytes executable).Holds [name] bytes :=
  ⟨executable, by rw [delivered, Function.update_of_ne temporaryPath_ne.symm,
    Function.update_self]⟩

theorem delivered_of_ne {name : String} {executable : Bool} (hname : path ≠ [name])
    (htemporary : path ≠ temporaryPath [name]) :
    delivered files name bytes executable path = files path := by
  rw [delivered, Function.update_of_ne htemporary, Function.update_of_ne hname]

theorem delivered_noDirectories (hfree : files.HasNoDirectories) (name : String)
    (executable : Bool) : (delivered files name bytes executable).HasNoDirectories := by
  intro other hdirectory
  by_cases htemporary : [other] = temporaryPath [name]
  · rw [delivered, htemporary, Function.update_self] at hdirectory
    cases hdirectory
  · by_cases hname : [other] = [name]
    · exact (hname ▸ delivered_holds files name bytes executable).not_directory hdirectory
    · rw [delivered_of_ne hname htemporary] at hdirectory
      exact hfree other hdirectory

theorem copyFile_eq (hfree : files.HasNoDirectories) (name : String) (bytes : List UInt8) :
    ∃ executable, ((files.truncate (temporaryPath [name])).bind fun files =>
      files.writeAt (temporaryPath [name]) 0 bytes).bind (fun files =>
        files.replaceFile (temporaryPath [name]) [name]) =
      some (delivered files name bytes executable) := by
  have hne : [name] ≠ temporaryPath [name] := temporaryPath_ne.symm
  obtain ⟨opened, hopen⟩ := FileTree.truncate_some (hfree ("." ++ name ++ ".tmp"))
  obtain ⟨-, executable, rfl⟩ := FileTree.truncate_eq hopen
  have hopen' : files.truncate (temporaryPath [name]) =
      some (Function.update files (temporaryPath [name]) (some (.file [] executable))) := hopen
  refine ⟨executable, ?_⟩
  rw [hopen', Option.bind_some]
  simp only [FileTree.writeAt, Function.update_self, Option.bind_some, overwrite_nil,
    Function.update_idem, FileTree.replaceFile, Function.update_of_ne hne, delivered]
  cases hnode : files [name] with
  | none => simp only [Function.update_comm hne, Function.update_idem]
  | some node =>
      cases node with
      | directory => exact absurd hnode (hfree name)
      | file _ _ => simp only [Function.update_comm hne, Function.update_idem]

/-- The output of a port is a file below the directory of the outputs. -/
def OutputCollection.LeadsTo (collection : OutputCollection) (item : String × String)
    (source : PathComponents) : Prop :=
  ∃ path, relativePort item.2 collection.mount s!"output port {item.1}" = .ok path ∧
    collection.source path = source ∧ collection.outputsDirectory <+: source ∧
    ∃ bytes, collection.outputs.Holds source bytes

theorem collectPort_ok {item : String × String} (hfree : files.HasNoDirectories)
    (hsource : collection.LeadsTo item source) (hheld : collection.outputs.Holds source bytes)
    {artifactType : String}
    (htype : collection.outputTypes.row? item.1 = some (item.1, artifactType)) :
    ∃ executable, collection.collectPort files item.1 item.2 =
      .ok (delivered files (OutputCollection.destination item.1 source) bytes executable,
        collection.fromPath artifactType (OutputCollection.destination item.1 source) bytes) := by
  obtain ⟨executable, hcopy⟩ :=
    copyFile_eq hfree (OutputCollection.destination item.1 source) bytes
  obtain ⟨path, hpath, rfl, hwithin, -⟩ := hsource
  obtain ⟨mode, hfile⟩ := hheld
  refine ⟨executable, ?_⟩
  simp only [OutputCollection.collectPort, hpath, Except.bind, hwithin, not_true_eq_false,
    if_false, hfile, hcopy, htype]

end Collecting

/-! ## All outputs -/

namespace OutputCollection

/-- The job has left a file for every port, and the request has its type. -/
structure Ready (collection : OutputCollection) (sources : List PathComponents) : Prop where
  left : List.Forall₂ collection.LeadsTo collection.ports.rows sources
  typed : ∀ item ∈ collection.ports.rows, ∃ artifactType,
    collection.outputTypes.row? item.1 = some (item.1, artifactType)

/-- The artifact of a port is its output: the file holds the bytes and the record describes
them. -/
def Delivers (collection : OutputCollection) (sources : List PathComponents) : Prop :=
  ∀ files : FileTree, files.HasNoDirectories → ∃ files' artifacts,
    collection.collect files = .ok (files', artifacts) ∧
    ∀ (index : Nat) (item : String × String) (source : PathComponents) (bytes : List UInt8),
      collection.ports.rows[index]? = some item → sources[index]? = some source →
      collection.outputs.Holds source bytes →
      files'.Holds [destination item.1 source] bytes ∧ ∃ artifactType,
        artifacts[index]? =
          some (item.1, collection.fromPath artifactType (destination item.1 source) bytes)

/-- Outputs that get one name in the work directory have the same bytes. -/
def NamesAgree (collection : OutputCollection) (items : List (String × String))
    (sources : List PathComponents) : Prop :=
  ∀ (index index' : Nat) (item item' : String × String) (source source' : PathComponents)
    (bytes bytes' : List UInt8), items[index]? = some item → items[index']? = some item' →
    sources[index]? = some source → sources[index']? = some source' →
    destination item.1 source = destination item'.1 source' →
    collection.outputs.Holds source bytes → collection.outputs.Holds source' bytes' →
    bytes = bytes'

/-- The names that the outputs get in the work directory. -/
def destinations (items : List (String × String)) (sources : List PathComponents) : List String :=
  List.zipWith (fun item source => destination item.1 source) items sources

section Loop

variable {collection : OutputCollection} {items : List (String × String)}
  {sources : List PathComponents}

theorem NamesAgree.tail {item : String × String} {source : PathComponents}
    (h : collection.NamesAgree (item :: items) (source :: sources)) :
    collection.NamesAgree items sources :=
  fun index index' item item' source source' bytes bytes' hitem hitem' hsource hsource' =>
    h (index + 1) (index' + 1) item item' source source' bytes bytes' hitem hitem' hsource hsource'

/-- Different names agree. -/
theorem namesAgree_of_nodup (h : (destinations items sources).Nodup) :
    collection.NamesAgree items sources := by
  intro index index' item item' source source' bytes bytes' hitem hitem' hsource hsource' hsame
    hheld hheld'
  have hname : (destinations items sources)[index]? = some (destination item.1 source) := by
    simp [destinations, List.getElem?_zipWith, hitem, hsource]
  have hname' : (destinations items sources)[index']? = some (destination item'.1 source') := by
    simp [destinations, List.getElem?_zipWith, hitem', hsource']
  have hlength := (List.getElem?_eq_some_iff.mp hname).1
  obtain rfl := (List.getElem?_inj hlength h).mp (hname.trans (hsame ▸ hname'.symm))
  obtain rfl := Option.some.inj (hsource.symm.trans hsource')
  exact hheld.unique hheld'

/-- What copying the outputs of some ports leaves alone and what it delivers. -/
theorem collectPorts_ok (hsources : List.Forall₂ collection.LeadsTo items sources)
    (hnames : ∀ item ∈ items, isIdentifier item.1 = true)
    (htyped : ∀ item ∈ items, ∃ artifactType,
      collection.outputTypes.row? item.1 = some (item.1, artifactType))
    {files : FileTree} (hfree : files.HasNoDirectories) :
    ∃ files' artifacts, collection.collectPorts files items = .ok (files', artifacts) ∧
      (∀ port source, isIdentifier port = true →
        (∀ (index : Nat) (item : String × String) (other : PathComponents),
          items[index]? = some item → sources[index]? = some other →
          destination port source ≠ destination item.1 other) →
        files' [destination port source] = files [destination port source]) ∧
      (collection.NamesAgree items sources →
        ∀ (index : Nat) (item : String × String) (source : PathComponents) (bytes : List UInt8),
          items[index]? = some item → sources[index]? = some source →
          collection.outputs.Holds source bytes →
          files'.Holds [destination item.1 source] bytes ∧ ∃ artifactType,
            artifacts[index]? = some (item.1,
              collection.fromPath artifactType (destination item.1 source) bytes)) := by
  induction hsources generalizing files with
  | nil => exact ⟨files, [], rfl, fun _ _ _ _ => rfl, fun _ _ _ _ _ h => by cases h⟩
  | @cons item source items sources hsource hrest ih =>
      obtain ⟨_, _, _, _, bytes, hheld⟩ := id hsource
      obtain ⟨artifactType, htype⟩ := htyped item List.mem_cons_self
      obtain ⟨executable, hcollect⟩ := collectPort_ok hfree hsource hheld htype
      have hport := hnames item List.mem_cons_self
      obtain ⟨files', artifacts, hloop, hframe, hdelivered⟩ :=
        ih (fun other hother => hnames other (List.mem_cons_of_mem _ hother))
          (fun other hother => htyped other (List.mem_cons_of_mem _ hother))
          (delivered_noDirectories hfree (destination item.1 source) executable)
      refine ⟨files', (item.1,
        collection.fromPath artifactType (destination item.1 source) bytes) :: artifacts, ?_, ?_, ?_⟩
      · have hsplit : collection.collectPorts files (item :: items) =
            (collection.collectPort files item.1 item.2).bind fun result =>
              (collection.collectPorts result.1 items).map fun rest =>
                (rest.1, (item.1, result.2) :: rest.2) := rfl
        rw [hsplit, hcollect]
        exact congrArg (Except.map _) hloop
      · intro port other hother hnot
        rw [hframe port other hother fun index item other hitem hsource' =>
          hnot (index + 1) item other hitem hsource']
        exact delivered_of_ne (fun h => hnot 0 item source rfl rfl (List.cons.inj h).1)
          (destination_ne_temporary hother _ _)
      · intro hagree index other source' bytes' hitem hsource' hheld'
        cases index with
        | zero =>
            cases hitem
            cases hsource'
            obtain rfl := hheld.unique hheld'
            refine ⟨?_, artifactType, rfl⟩
            by_cases hlater : ∃ (index : Nat) (other : String × String) (source' : PathComponents),
                items[index]? = some other ∧ sources[index]? = some source' ∧
                  destination item.1 source = destination other.1 source'
            · -- a later output takes the place of this one, with the same bytes
              obtain ⟨index, other, source', hitem, hsource', hsame⟩ := hlater
              rcases getElem?_forall₂ hrest index with
                ⟨hnone, -⟩ | ⟨other', source'', hother', hsource'', -, -, -, -, bytes', hheld'⟩
              · cases hnone.symm.trans hitem
              obtain rfl := Option.some.inj (hother'.symm.trans hitem)
              obtain rfl := Option.some.inj (hsource''.symm.trans hsource')
              obtain rfl := hagree 0 (index + 1) item other' source source'' bytes bytes' rfl hitem
                rfl hsource' hsame hheld hheld'
              rw [hsame]
              exact (hdelivered hagree.tail index other' source'' bytes hitem hsource' hheld').1
            · have hkept := hframe item.1 source hport
                fun index other source' hitem hsource' hsame =>
                  hlater ⟨index, other, source', hitem, hsource', hsame⟩
              rw [FileTree.Holds, hkept]
              exact delivered_holds files _ bytes executable
        | succ index =>
            exact hdelivered hagree.tail index other source' bytes' hitem hsource' hheld'

end Loop

end OutputCollection

/-! ## When outputs are delivered -/

/-- `collect` delivers the outputs of a job exactly when those that get one name in the work
directory have the same bytes. -/
theorem outputs_delivered_exactly (collection : OutputCollection) (sources : List PathComponents)
    (hnames : ∀ item ∈ collection.ports.rows, isIdentifier item.1 = true)
    (hready : collection.Ready sources) :
    collection.Delivers sources ↔ collection.NamesAgree collection.ports.rows sources := by
  constructor
  · intro hdelivers index index' item item' source source' bytes bytes' hitem hitem' hsource
      hsource' hsame hheld hheld'
    obtain ⟨files, _, -, hall⟩ := hdelivers emptyDirectory emptyDirectory_noDirectories
    have hfirst := (hall index item source bytes hitem hsource hheld).1
    have hsecond := (hall index' item' source' bytes' hitem' hsource' hheld').1
    rw [hsame] at hfirst
    exact hfirst.unique hsecond
  · intro hagree files hfree
    obtain ⟨files', artifacts, hcollect, -, hdelivered⟩ :=
      OutputCollection.collectPorts_ok hready.left hnames hready.typed hfree
    exact ⟨files', artifacts, hcollect, hdelivered hagree⟩

/-- The job of a task with two files in the directory of its outputs and, where `link` is a
name, a symbolic link of that name to the first of them. -/
def twoFiles (ports : Dict String String) (link first second : String) : OutputCollection where
  ports := ports
  mount := "/outputs"
  outputTypes := ports
  outputsDirectory := ["staging", "outputs"]
  resolve path :=
    if path = ["staging", "outputs", link] then ["staging", "outputs", first] else path
  outputs path :=
    if path = ["staging", "outputs", first] then some (.file [1] false)
    else if path = ["staging", "outputs", second] then some (.file [2] false)
    else if path <+: ["staging", "outputs"] then some .directory else none
  asUri name := "file:///work/" ++ name
  digest := plainDigest

def namedOutputs : OutputCollection :=
  twoFiles ⟨[("circuit", "/outputs/circuit.qasm"), ("report", "/outputs/report.json")], by decide⟩
    "" "circuit.qasm" "report.json"

/-- The output of the first port is a link to a file with a suffix. -/
def clashingOutputs : OutputCollection :=
  twoFiles ⟨[("counts", "/outputs/counts"), ("counts.csv", "/outputs/summary")], by decide⟩
    "counts" "table.csv" "summary"

theorem outputs_delivered_exactly_sample :
    namedOutputs.Delivers
      [["staging", "outputs", "circuit.qasm"], ["staging", "outputs", "report.json"]] ∧
    ¬ clashingOutputs.Delivers
      [["staging", "outputs", "table.csv"], ["staging", "outputs", "summary"]] := by
  constructor
  · refine (outputs_delivered_exactly namedOutputs _ ?_ ?_).mpr ?_
    · exact List.forall_mem_cons.mpr ⟨by decide, List.forall_mem_singleton.mpr (by decide)⟩
    · refine ⟨.cons ⟨["circuit.qasm"], by decide, by decide, by decide, [1], false, by decide⟩
        (.cons ⟨["report.json"], by decide, by decide, by decide, [2], false, by decide⟩ .nil), ?_⟩
      exact fun item hitem => ⟨item.2, Table.row?_of_mem hitem⟩
    · exact OutputCollection.namesAgree_of_nodup (by decide)
  · refine (outputs_delivered_exactly clashingOutputs _ ?_ ?_).not.mpr ?_
    · exact List.forall_mem_cons.mpr ⟨by decide, List.forall_mem_singleton.mpr (by decide)⟩
    · refine ⟨.cons ⟨["counts"], by decide, by decide, by decide, [1], false, by decide⟩
        (.cons ⟨["summary"], by decide, by decide, by decide, [2], false, by decide⟩ .nil), ?_⟩
      exact fun item hitem => ⟨item.2, Table.row?_of_mem hitem⟩
    · intro hagree
      have hsame := hagree 0 1 ("counts", "/outputs/counts") ("counts.csv", "/outputs/summary")
        ["staging", "outputs", "table.csv"] ["staging", "outputs", "summary"] [1] [2] rfl rfl rfl
        rfl (by decide) ⟨false, by decide⟩ ⟨false, by decide⟩
      cases hsame

end QhpcEcosystem
