/-
A native runtime is complete once a call has returned it, and no later step changes a file,
as long as no call checks the marker while another one is extracting.
-/
import QhpcEcosystem.NativeRuntime

namespace QhpcEcosystem

/-! ## Files -/

section Files

variable {files files' : FileTree} {path : PathComponents}

/-- Nothing that was there has changed, and what is new is a directory. -/
def FileTree.Grows (files files' : FileTree) : Prop :=
  ∀ path, files' path = files path ∨ files path = none ∧ files' path = some .directory

theorem FileTree.Grows.node (h : files.Grows files') {node : FileNode}
    (hnode : files path = some node) : files' path = some node := by
  rcases h path with heq | ⟨hnone, -⟩
  · rw [heq, hnode]
  · rw [hnode] at hnone
    cases hnone

theorem FileTree.Grows.isFile (h : files.Grows files') (path : PathComponents) :
    files'.isFile path = files.isFile path := by
  unfold FileTree.isFile
  rcases h path with heq | ⟨hnone, hdirectory⟩
  · rw [heq]
  · rw [hnone, hdirectory]

theorem FileTree.Grows.trans {files'' : FileTree} (h : files.Grows files')
    (h' : files'.Grows files'') : files.Grows files'' := by
  intro path
  rcases h' path with heq | ⟨hnone, hdirectory⟩
  · rw [heq]
    exact h path
  · rcases h path with heq | ⟨-, hsome⟩
    · exact .inr ⟨heq ▸ hnone, hdirectory⟩
    · rw [hsome] at hnone
      cases hnone

theorem FileTree.makeDirectories_grows {paths : List PathComponents}
    (h : files.makeDirectories paths = some files') : files.Grows files' := by
  induction paths generalizing files with
  | nil =>
      cases h
      exact fun _ => .inl rfl
  | cons path rest ih =>
      simp only [FileTree.makeDirectories] at h
      split at h
      · next hnone =>
          refine FileTree.Grows.trans (fun other => ?_) (ih h)
          by_cases hother : other = path
          · subst hother
            exact .inr ⟨hnone, Function.update_self ..⟩
          · exact .inl (Function.update_of_ne hother _ _)
      · exact ih h
      · cases h

theorem FileTree.makeDirectories_singleton (h : files.makeDirectories [path] = some files') :
    files' path = some .directory := by
  simp only [FileTree.makeDirectories] at h
  split at h <;> cases h
  · exact Function.update_self ..
  · assumption

/-- A file is changed at one path, where it is a file afterwards. -/
theorem FileTree.truncate_eq (h : files.truncate path = some files') :
    files path ≠ some .directory ∧
      ∃ executable, files' = Function.update files path (some (.file [] executable)) := by
  unfold FileTree.truncate at h
  split at h
  · next hnode =>
      cases h
      exact ⟨by simp [hnode], _, rfl⟩
  · next hnode =>
      cases h
      exact ⟨by simp [hnode], _, rfl⟩
  · cases h

theorem FileTree.writeAt_eq {offset : Nat} {chunk : List UInt8}
    (h : files.writeAt path offset chunk = some files') :
    ∃ bytes executable, files path = some (.file bytes executable) ∧ files' =
      Function.update files path (some (.file (overwrite bytes offset chunk) executable)) := by
  unfold FileTree.writeAt at h
  split at h
  · next bytes executable hnode =>
      cases h
      exact ⟨bytes, executable, hnode, rfl⟩
  · cases h

/-- `chmod` keeps every directory and the bytes of every file. -/
theorem FileTree.makeExecutable_keeps (h : files.makeExecutable path = some files') :
    (∃ node, files' path = some node ∧ node.isExecutable = true) ∧
    (∀ other, files other = some .directory → files' other = some .directory) ∧
    (∀ other bytes executable, files other = some (.file bytes executable) →
      ∃ executable', files' other = some (.file bytes executable')) ∧
    ∀ other, files'.isFile other = files.isFile other := by
  unfold FileTree.makeExecutable at h
  split at h
  · cases h
  · next hnode =>
      cases h
      exact ⟨⟨_, hnode, rfl⟩, fun _ => id, fun _ _ executable hfile => ⟨executable, hfile⟩,
        fun _ => rfl⟩
  · next bytes executable hnode =>
      cases h
      refine ⟨⟨_, Function.update_self .., rfl⟩, fun other hother => ?_,
        fun other bytes' executable' hother => ?_, fun other => ?_⟩
      · rw [Function.update_of_ne, hother]
        rintro rfl
        rw [hnode] at hother
        cases hother
      · by_cases heq : other = path
        · subst heq
          rw [hnode] at hother
          cases hother
          exact ⟨true, Function.update_self ..⟩
        · exact ⟨executable', (Function.update_of_ne heq _ _).trans hother⟩
      · unfold FileTree.isFile
        by_cases heq : other = path
        · subst heq
          rw [Function.update_self, hnode]
        · rw [Function.update_of_ne heq]

theorem FileTree.isFile_update_of_ne {other : PathComponents} {node : Option FileNode}
    (h : other ≠ path) : FileTree.isFile (Function.update files path node) other =
      files.isFile other := by
  unfold FileTree.isFile
  rw [Function.update_of_ne h]

/-- The next chunk of a file that holds what was written before it. -/
theorem overwrite_take {bytes : List UInt8} {offset : Nat} (hle : offset ≤ bytes.length)
    (size : Nat) : overwrite (bytes.take offset) offset ((bytes.drop offset).take size) =
      bytes.take (offset + ((bytes.drop offset).take size).length) := by
  have hlength : (bytes.take offset).length = offset := List.length_take_of_le hle
  have hrest : (bytes.take offset).drop (offset + ((bytes.drop offset).take size).length) = [] :=
    List.drop_eq_nil_of_le (by omega)
  have hchunk : (bytes.drop offset).take ((bytes.drop offset).take size).length =
      (bytes.drop offset).take size := by
    rw [List.length_take, ← List.take_take, List.take_length]
  rw [List.take_add, hchunk]
  simp only [overwrite, hlength, hrest, Nat.sub_self, List.replicate_zero, List.append_nil,
    List.take_take, Nat.min_self]

end Files

/-! ## Extraction -/

namespace NativeArchive

variable (archive : NativeArchive)

/-- A member is in the directory with the bytes of the archive. -/
def Extracted (files : FileTree) (member : ArchiveMember) : Prop :=
  if member.isDir then files (archive.path member) = some .directory
  else ∃ executable, files (archive.path member) = some (.file member.bytes executable)

/-- The manifest in the directory names the executable. -/
def Names (files : FileTree) (executable : PathComponents) : Prop :=
  ∃ bytes mode name, files archive.manifest = some (.file bytes mode) ∧
    archive.executable bytes = some name ∧ executable = joinPath archive.extracted name

/-- Every member is present with its bytes, and the executable is executable. -/
structure Complete (files : FileTree) : Prop where
  members : ∀ member ∈ archive.members, archive.Extracted files member
  executable : ∃ path, archive.Names files path ∧
    ∃ node, files path = some node ∧ node.isExecutable = true

/-- No file is to be extracted to the marker, and files that are to be extracted to one path
have the same bytes. -/
structure Unambiguous : Prop where
  marker : ∀ member ∈ archive.members, member.isDir = false → member.target ≠ [".verified"]
  bytes : ∀ member ∈ archive.members, ∀ other ∈ archive.members, member.isDir = false →
    other.isDir = false → member.target = other.target → member.bytes = other.bytes

variable {archive} {files files' : FileTree} {member : ArchiveMember}

theorem Extracted.grows (h : archive.Extracted files member) (hgrows : files.Grows files') :
    archive.Extracted files' member := by
  unfold Extracted at h ⊢
  split
  · next hdir =>
      rw [if_pos hdir] at h
      exact hgrows.node h
  · next hfile =>
      rw [if_neg hfile] at h
      obtain ⟨executable, hnode⟩ := h
      exact ⟨executable, hgrows.node hnode⟩

/-- A change at one path keeps the members of the other paths. -/
theorem Extracted.update {path : PathComponents} {node : FileNode}
    (h : archive.Extracted files member) (hne : archive.path member ≠ path) :
    archive.Extracted (Function.update files path (some node)) member := by
  unfold Extracted at h ⊢
  rw [Function.update_of_ne hne]
  exact h

theorem path_inj {other : ArchiveMember} (h : archive.path member = archive.path other) :
    member.target = other.target :=
  List.append_cancel_left h

theorem Unambiguous.path_ne_marker (h : archive.Unambiguous) (hmem : member ∈ archive.members)
    (hfile : member.isDir = false) : archive.path member ≠ archive.marker :=
  fun heq => h.marker member hmem hfile (List.append_cancel_left heq)

end NativeArchive

/-! ## Calls -/

/-- What a call has found or done when it is in a phase. -/
def NativeArchive.Reached (archive : NativeArchive) (files : FileTree) : ResolvePhase → Prop
  | .checking | .missed | .stopped => True
  | .extracting index => ∀ member ∈ archive.members.take index, archive.Extracted files member
  | .writing index offset => ∃ member, archive.members[index]? = some member ∧
      member.isDir = false ∧ offset ≤ member.bytes.length ∧
      (∃ executable, files (archive.path member) =
        some (.file (member.bytes.take offset) executable)) ∧
      ∀ earlier ∈ archive.members.take index, archive.path earlier = archive.path member ∧
        earlier.isDir = false ∨ archive.Extracted files earlier
  | .extracted executable => (∀ member ∈ archive.members, archive.Extracted files member) ∧
      archive.Names files executable
  | .marking => archive.Complete files
  | .returned => files.isFile archive.marker = true

namespace RuntimeStore

/-- One call at most is extracting, it has reached its phase, and there is no marker while it
does; once there is a marker the directory is complete. -/
structure Stable (archive : NativeArchive) (s : RuntimeStore) : Prop where
  reached : ∀ phase ∈ s.calls, archive.Reached s.files phase
  alone : ∀ (id id' : Nat) (phase phase' : ResolvePhase), s.calls[id]? = some phase →
    s.calls[id']? = some phase' → phase.isActive = true → phase'.isActive = true → id = id'
  complete : s.files.isFile archive.marker = true → archive.Complete s.files
  inactive : s.files.isFile archive.marker = true → ∀ phase ∈ s.calls, phase.isActive = false

/-- The marker is only checked while no call is extracting. -/
def checksAlone (s : RuntimeStore) : ResolveEvent → Bool
  | .check _ => s.calls.all fun phase => !phase.isActive
  | _ => true

variable {archive : NativeArchive} {s s' : RuntimeStore} {id : Nat}
  {phase next : ResolvePhase} {files : FileTree}

theorem calls_proceed {other : Nat} {phase' : ResolvePhase}
    (h : (s.proceed id files next).calls[other]? = some phase') :
    other = id ∧ phase' = next ∨ other ≠ id ∧ s.calls[other]? = some phase' := by
  simp only [RuntimeStore.proceed, List.getElem?_set] at h
  split at h
  · next heq =>
      split at h
      · exact .inl ⟨heq.symm, (Option.some.inj h).symm⟩
      · cases h
  · next hne => exact .inr ⟨fun heq => hne heq.symm, h⟩

/-- A phase without a marker that is not active says nothing of the files. -/
theorem reached_of_inactive {files' : FileTree} (h : archive.Reached files phase)
    (hinactive : phase.isActive = false) (hmarker : files.isFile archive.marker = false) :
    archive.Reached files' phase := by
  cases phase with
  | checking | stopped => trivial
  | returned =>
      rw [NativeArchive.Reached, hmarker] at h
      cases h
  | missed | extracting | writing | extracted | marking => cases hinactive

theorem Stable.unmarked (h : s.Stable archive) (hcall : s.calls[id]? = some phase)
    (hactive : phase.isActive = true) : s.files.isFile archive.marker = false := by
  by_contra hsome
  rw [h.inactive (by simpa using hsome) phase (List.mem_of_getElem? hcall)] at hactive
  cases hactive

/-- While a call is extracting no other one is. -/
theorem Stable.others_inactive (h : s.Stable archive) (hcall : s.calls[id]? = some phase)
    (hactive : phase.isActive = true) : ∀ (other : Nat) (phase' : ResolvePhase), other ≠ id →
      s.calls[other]? = some phase' → phase'.isActive = false := by
  intro other phase' hne hphase
  by_contra hsome
  exact hne (h.alone other id phase' phase hphase hcall (by simpa using hsome) hactive)

/-- Where no other call is extracting, the one that goes on is alone. -/
theorem alone_proceed (hinactive : ∀ (other : Nat) (phase' : ResolvePhase), other ≠ id →
      s.calls[other]? = some phase' → phase'.isActive = false)
    {first second : Nat} {phase' phase'' : ResolvePhase}
    (hfirst : (s.proceed id files next).calls[first]? = some phase')
    (hsecond : (s.proceed id files next).calls[second]? = some phase'')
    (ha : phase'.isActive = true) (ha' : phase''.isActive = true) : first = second := by
  obtain ⟨rfl, -⟩ | ⟨hne, hbefore⟩ := calls_proceed hfirst
  · obtain ⟨rfl, -⟩ | ⟨hne', hbefore'⟩ := calls_proceed hsecond
    · rfl
    · rw [hinactive second phase'' hne' hbefore'] at ha'
      cases ha'
  · rw [hinactive first phase' hne hbefore] at ha
    cases ha

/-- A call that is extracting goes on without a marker. -/
theorem Stable.goesOn (h : s.Stable archive) (hcall : s.calls[id]? = some phase)
    (hactive : phase.isActive = true)
    (hmarker : files.isFile archive.marker = s.files.isFile archive.marker)
    (hreached : archive.Reached files next) : (s.proceed id files next).Stable archive := by
  have hnone := h.unmarked hcall hactive
  have hinactive := h.others_inactive hcall hactive
  have hunmarked : (s.proceed id files next).files.isFile archive.marker ≠ true := by
    rw [show (s.proceed id files next).files = files from rfl, hmarker, hnone]
    decide
  refine ⟨fun phase' hphase' => ?_, fun first second phase' phase'' hfirst hsecond ha ha' => ?_,
    fun hfile => absurd hfile hunmarked, fun hfile => absurd hfile hunmarked⟩
  · obtain ⟨other, hget⟩ := List.getElem?_of_mem hphase'
    obtain ⟨-, rfl⟩ | ⟨hne, hbefore⟩ := calls_proceed hget
    · exact hreached
    · exact reached_of_inactive (h.reached phase' (List.mem_of_getElem? hbefore))
        (hinactive other phase' hne hbefore) hnone
  · exact alone_proceed hinactive hfirst hsecond ha ha'

/-- A call that is not extracting goes on without a change of the files. -/
theorem Stable.becomes (h : s.Stable archive) (hnext : next.isActive = false)
    (hreached : archive.Reached s.files next) :
    (s.proceed id s.files next).Stable archive := by
  refine ⟨fun phase' hphase' => ?_, fun first second phase' phase'' hfirst hsecond ha ha' => ?_,
    h.complete, fun hfile phase' hphase' => ?_⟩
  · obtain ⟨other, hget⟩ := List.getElem?_of_mem hphase'
    obtain ⟨-, rfl⟩ | ⟨-, hbefore⟩ := calls_proceed hget
    · exact hreached
    · exact h.reached phase' (List.mem_of_getElem? hbefore)
  · obtain ⟨-, rfl⟩ | ⟨-, hbefore⟩ := calls_proceed hfirst
    · rw [hnext] at ha
      cases ha
    · obtain ⟨-, rfl⟩ | ⟨-, hbefore'⟩ := calls_proceed hsecond
      · rw [hnext] at ha'
        cases ha'
      · exact h.alone first second phase' phase'' hbefore hbefore' ha ha'
  · obtain ⟨other, hget⟩ := List.getElem?_of_mem hphase'
    obtain ⟨-, rfl⟩ | ⟨-, hbefore⟩ := calls_proceed hget
    · exact hnext
    · exact h.inactive hfile phase' (List.mem_of_getElem? hbefore)

/-- A call misses the marker while no other is extracting. -/
theorem Stable.check (h : s.Stable archive)
    (halone : s.calls.all (fun phase => !phase.isActive) = true) :
    (s.check archive id).Stable archive := by
  have hinactive : ∀ (other : Nat) (phase' : ResolvePhase), s.calls[other]? = some phase' →
      phase'.isActive = false := by
    intro other phase' hphase
    simpa using List.all_eq_true.mp halone phase' (List.mem_of_getElem? hphase)
  unfold RuntimeStore.check
  split
  · next hmarker => exact h.becomes rfl hmarker
  · next hmarker =>
      refine ⟨fun phase' hphase' => ?_, fun first second phase' phase'' hfirst hsecond ha ha' => ?_,
        fun hfile => absurd hfile hmarker, fun hfile => absurd hfile hmarker⟩
      · obtain ⟨other, hget⟩ := List.getElem?_of_mem hphase'
        obtain ⟨-, rfl⟩ | ⟨-, hbefore⟩ := calls_proceed hget
        · trivial
        · exact h.reached phase' (List.mem_of_getElem? hbefore)
      · exact alone_proceed (fun other phase' _ => hinactive other phase') hfirst hsecond ha ha'

theorem Stable.openArchive (h : s.Stable archive) (hcall : s.calls[id]? = some .missed)
    (hstep : s.openArchive archive id = some s') : s'.Stable archive := by
  obtain ⟨files, hfiles, rfl⟩ := Option.map_eq_some_iff.mp hstep
  refine h.goesOn hcall rfl ((FileTree.makeDirectories_grows hfiles).isFile _) ?_
  split
  · intro member hmember
    cases hmember
  · trivial

theorem mem_take_succ {members : List ArchiveMember} {index : Nat} {member other : ArchiveMember}
    (hget : members[index]? = some member) :
    other ∈ members.take (index + 1) ↔ other ∈ members.take index ∨ other = member := by
  rw [List.take_add_one, hget, Option.toList_some, List.mem_append, List.mem_singleton]

theorem Stable.openMember (h : s.Stable archive) (hunambiguous : archive.Unambiguous)
    {index : Nat} (hcall : s.calls[id]? = some (.extracting index))
    (hstep : s.openMember archive id index = some s') : s'.Stable archive := by
  have hearlier := h.reached _ (List.mem_of_getElem? hcall)
  obtain ⟨member, hget, hstep⟩ := Option.bind_eq_some_iff.mp hstep
  obtain ⟨parents, hparents, hstep⟩ := Option.bind_eq_some_iff.mp hstep
  have hgrows := FileTree.makeDirectories_grows hparents
  split at hstep
  · next hdir =>
      obtain ⟨files, hfiles, rfl⟩ := Option.map_eq_some_iff.mp hstep
      have hall := hgrows.trans (FileTree.makeDirectories_grows hfiles)
      refine h.goesOn hcall rfl (hall.isFile _) fun other hother => ?_
      rcases (mem_take_succ hget).mp hother with hother | rfl
      · exact (hearlier other hother).grows hall
      · rw [NativeArchive.Extracted, if_pos hdir]
        exact FileTree.makeDirectories_singleton hfiles
  · next hfile =>
      obtain ⟨files, hfiles, rfl⟩ := Option.map_eq_some_iff.mp hstep
      obtain ⟨hnotdir, executable, rfl⟩ := FileTree.truncate_eq hfiles
      have hfile : member.isDir = false := by simpa using hfile
      have hne := hunambiguous.path_ne_marker (List.mem_of_getElem? hget) hfile
      refine h.goesOn hcall rfl ?_ ⟨member, hget, hfile, Nat.zero_le _,
        ⟨executable, Function.update_self ..⟩, fun earlier hmem => ?_⟩
      · rw [FileTree.isFile_update_of_ne hne.symm]
        exact hgrows.isFile _
      · have hextracted := (hearlier earlier hmem).grows hgrows
        by_cases hpath : archive.path earlier = archive.path member
        · refine .inl ⟨hpath, ?_⟩
          by_contra hdir
          rw [NativeArchive.Extracted, if_pos (by simpa using hdir), hpath] at hextracted
          exact hnotdir hextracted
        · exact .inr (hextracted.update hpath)

theorem Stable.writeChunk (h : s.Stable archive) (hunambiguous : archive.Unambiguous)
    {index offset size : Nat} (hcall : s.calls[id]? = some (.writing index offset))
    (hstep : s.writeChunk archive id index offset size = some s') : s'.Stable archive := by
  obtain ⟨member, hget, hfile, hle, ⟨executable, hnode⟩, hearlier⟩ :=
    h.reached _ (List.mem_of_getElem? hcall)
  obtain ⟨member', hget', hstep⟩ := Option.bind_eq_some_iff.mp hstep
  obtain rfl : member = member' := Option.some.inj (hget.symm.trans hget')
  obtain ⟨files, hfiles, rfl⟩ := Option.map_eq_some_iff.mp hstep
  obtain ⟨bytes, mode, hnode', rfl⟩ := FileTree.writeAt_eq hfiles
  rw [hnode] at hnode'
  obtain ⟨rfl, rfl⟩ : _ = bytes ∧ executable = mode := by simpa using hnode'
  have hne := hunambiguous.path_ne_marker (List.mem_of_getElem? hget) hfile
  refine h.goesOn hcall rfl (FileTree.isFile_update_of_ne hne.symm) ⟨member, hget, hfile, ?_,
    ⟨executable, ?_⟩, fun earlier hmem => ?_⟩
  · rw [List.length_take, List.length_drop]
    omega
  · rw [Function.update_self, overwrite_take hle]
  · rcases hearlier earlier hmem with hsame | hextracted
    · exact .inl hsame
    · by_cases hpath : archive.path earlier = archive.path member
      · refine .inl ⟨hpath, ?_⟩
        by_contra hdir
        rw [NativeArchive.Extracted, if_pos (by simpa using hdir), hpath, hnode] at hextracted
        cases hextracted
      · exact .inr (hextracted.update hpath)

theorem Stable.closeMember (h : s.Stable archive) (hunambiguous : archive.Unambiguous)
    {index offset : Nat} (hcall : s.calls[id]? = some (.writing index offset))
    (hstep : s.closeMember archive id index offset = some s') : s'.Stable archive := by
  obtain ⟨member, hget, hfile, -, ⟨executable, hnode⟩, hearlier⟩ :=
    h.reached _ (List.mem_of_getElem? hcall)
  obtain ⟨member', hget', hstep⟩ := Option.bind_eq_some_iff.mp hstep
  obtain rfl : member = member' := Option.some.inj (hget.symm.trans hget')
  split at hstep
  · next hend =>
      cases hstep
      rw [hend, List.take_length] at hnode
      have hextracted : ∀ other ∈ archive.members, other.isDir = false →
          archive.path other = archive.path member → archive.Extracted s.files other := by
        intro other hother hdir hpath
        rw [NativeArchive.Extracted, if_neg (by simp [hdir]), hpath, hunambiguous.bytes other hother
          member (List.mem_of_getElem? hget) hdir hfile (NativeArchive.path_inj hpath)]
        exact ⟨executable, hnode⟩
      refine h.goesOn hcall rfl rfl fun other hother => ?_
      rcases (mem_take_succ hget).mp hother with hother | rfl
      · rcases hearlier other hother with ⟨hpath, hdir⟩ | hdone
        · exact hextracted other (List.mem_of_mem_take hother) hdir hpath
        · exact hdone
      · exact hextracted other (List.mem_of_getElem? hget) hfile rfl
  · cases hstep

theorem Stable.readManifest (h : s.Stable archive) {index : Nat}
    (hcall : s.calls[id]? = some (.extracting index))
    (hstep : s.readManifest archive id index = some s') : s'.Stable archive := by
  have hearlier := h.reached _ (List.mem_of_getElem? hcall)
  unfold RuntimeStore.readManifest at hstep
  split at hstep
  · next hend =>
      split at hstep
      · next bytes mode hmanifest =>
          obtain ⟨name, hname, rfl⟩ := Option.map_eq_some_iff.mp hstep
          rw [NativeArchive.Reached, hend, List.take_length] at hearlier
          exact h.goesOn hcall rfl rfl ⟨hearlier, bytes, mode, name, hmanifest, hname, rfl⟩
      · cases hstep
  · cases hstep

theorem Stable.chmod (h : s.Stable archive) {executable : PathComponents}
    (hcall : s.calls[id]? = some (.extracted executable))
    (hstep : s.chmod id executable = some s') : s'.Stable archive := by
  obtain ⟨hmembers, bytes, mode, name, hmanifest, hname, rfl⟩ :=
    h.reached _ (List.mem_of_getElem? hcall)
  obtain ⟨files, hfiles, rfl⟩ := Option.map_eq_some_iff.mp hstep
  obtain ⟨hnode, hdirs, hbytes, hisFile⟩ := FileTree.makeExecutable_keeps hfiles
  obtain ⟨mode', hmanifest'⟩ := hbytes _ _ _ hmanifest
  refine h.goesOn hcall rfl (hisFile _) ⟨fun member hmember => ?_,
    _, ⟨bytes, mode', name, hmanifest', hname, rfl⟩, hnode⟩
  have hextracted := hmembers member hmember
  unfold NativeArchive.Extracted at hextracted ⊢
  split
  · next hdir =>
      rw [if_pos hdir] at hextracted
      exact hdirs _ hextracted
  · next hfile =>
      rw [if_neg hfile] at hextracted
      obtain ⟨executable, hfile⟩ := hextracted
      exact hbytes _ _ _ hfile

/-- A complete directory stays so when a file is made where nothing was. -/
theorem complete_update {path : PathComponents} {node : FileNode} (h : archive.Complete files)
    (hnone : files path = none) :
    archive.Complete (Function.update files path (some node)) := by
  have hkeep : ∀ other found, files other = some found →
      Function.update files path (some node) other = some found := by
    intro other found hfound
    rw [Function.update_of_ne, hfound]
    rintro rfl
    rw [hnone] at hfound
    cases hfound
  obtain ⟨executable, ⟨bytes, mode, name, hmanifest, hname⟩, found, hfound, hmode⟩ := h.executable
  refine ⟨fun member hmember => ?_, executable,
    ⟨bytes, mode, name, hkeep _ _ hmanifest, hname⟩, found, hkeep _ _ hfound, hmode⟩
  refine (h.members member hmember).update ?_
  rintro rfl
  have hextracted := h.members member hmember
  unfold NativeArchive.Extracted at hextracted
  rw [hnone] at hextracted
  split at hextracted
  · cases hextracted
  · obtain ⟨_, hfalse⟩ := hextracted
    cases hfalse

theorem Stable.writeMarker (h : s.Stable archive) (hcall : s.calls[id]? = some .marking)
    (hstep : s.writeMarker archive id = some s') : s'.Stable archive := by
  have hcomplete : archive.Complete s.files := h.reached _ (List.mem_of_getElem? hcall)
  have hunmarked := h.unmarked hcall rfl
  obtain ⟨truncated, htruncated, hstep⟩ := Option.bind_eq_some_iff.mp hstep
  obtain ⟨files, hfiles, rfl⟩ := Option.map_eq_some_iff.mp hstep
  obtain ⟨hnotdir, executable, rfl⟩ := FileTree.truncate_eq htruncated
  obtain ⟨bytes, mode, -, rfl⟩ := FileTree.writeAt_eq hfiles
  rw [Function.update_idem]
  have hnone : s.files archive.marker = none := by
    cases hnode : s.files archive.marker with
    | none => rfl
    | some node =>
        cases node with
        | directory => exact absurd hnode hnotdir
        | file bytes executable =>
            rw [FileTree.isFile, hnode] at hunmarked
            cases hunmarked
  have hmarked : FileTree.isFile (Function.update s.files archive.marker
      (some (.file (overwrite bytes 0 archive.digestLine) mode))) archive.marker = true := by
    rw [FileTree.isFile, Function.update_self]
  have hinactive := h.others_inactive hcall rfl
  have hafter : ∀ (other : Nat) (phase : ResolvePhase),
      (s.calls.set id .returned)[other]? = some phase →
        phase = .returned ∨ s.calls[other]? = some phase ∧ phase.isActive = false := by
    intro other phase hget
    have hget' : (s.proceed id s.files .returned).calls[other]? = some phase := hget
    obtain ⟨-, rfl⟩ | ⟨hne, hbefore⟩ := calls_proceed hget'
    · exact .inl rfl
    · exact .inr ⟨hbefore, hinactive other phase hne hbefore⟩
  have hnoneActive : ∀ phase ∈ s.calls.set id .returned, phase.isActive = false := by
    intro phase hphase
    obtain ⟨other, hget⟩ := List.getElem?_of_mem hphase
    obtain rfl | ⟨-, hphase⟩ := hafter other phase hget
    · rfl
    · exact hphase
  refine ⟨fun phase hphase => ?_, fun first _ phase _ hfirst _ ha _ => ?_,
    fun _ => complete_update hcomplete hnone, fun _ => hnoneActive⟩
  · obtain ⟨other, hget⟩ := List.getElem?_of_mem hphase
    obtain rfl | ⟨hbefore, hinactive⟩ := hafter other phase hget
    · exact hmarked
    · exact reached_of_inactive (h.reached phase (List.mem_of_getElem? hbefore)) hinactive hunmarked
  · rw [hnoneActive phase (List.mem_of_getElem? hfirst)] at ha
    cases ha

theorem Stable.start (h : s.Stable archive) :
    RuntimeStore.Stable archive { s with calls := s.calls ++ [.checking] } := by
  have hold : ∀ (id : Nat) (phase : ResolvePhase), (s.calls ++ [.checking])[id]? = some phase →
      phase.isActive = true → s.calls[id]? = some phase := by
    intro id phase hget hactive
    rw [List.getElem?_append] at hget
    split at hget
    · exact hget
    · obtain rfl := List.mem_singleton.mp (List.mem_of_getElem? hget)
      cases hactive
  refine ⟨fun phase hphase => ?_, fun id id' phase phase' hid hid' ha ha' =>
    h.alone id id' phase phase' (hold id phase hid ha) (hold id' phase' hid' ha') ha ha',
    h.complete, fun hfile phase hphase => ?_⟩
  · rcases List.mem_append.mp hphase with hphase | hphase
    · exact h.reached phase hphase
    · obtain rfl := List.mem_singleton.mp hphase
      trivial
  · rcases List.mem_append.mp hphase with hphase | hphase
    · exact h.inactive hfile phase hphase
    · obtain rfl := List.mem_singleton.mp hphase
      rfl

theorem Stable.step (h : s.Stable archive) (hunambiguous : archive.Unambiguous)
    {event : ResolveEvent} (halone : s.checksAlone event = true)
    (hstep : s.step archive event = some s') : s'.Stable archive := by
  cases event with
  | start =>
      cases hstep
      exact h.start
  | check id =>
      simp only [RuntimeStore.step] at hstep
      split at hstep <;> cases hstep
      exact h.check halone
  | openArchive id =>
      simp only [RuntimeStore.step] at hstep
      split at hstep
      · next hcall => exact h.openArchive hcall hstep
      · cases hstep
  | openMember id =>
      simp only [RuntimeStore.step] at hstep
      split at hstep
      · next hcall => exact h.openMember hunambiguous hcall hstep
      · cases hstep
  | writeChunk id size =>
      simp only [RuntimeStore.step] at hstep
      split at hstep
      · next hcall => exact h.writeChunk hunambiguous hcall hstep
      · cases hstep
  | closeMember id =>
      simp only [RuntimeStore.step] at hstep
      split at hstep
      · next hcall => exact h.closeMember hunambiguous hcall hstep
      · cases hstep
  | readManifest id =>
      simp only [RuntimeStore.step] at hstep
      split at hstep
      · next hcall => exact h.readManifest hcall hstep
      · cases hstep
  | chmod id =>
      simp only [RuntimeStore.step] at hstep
      split at hstep
      · next hcall => exact h.chmod hcall hstep
      · cases hstep
  | writeMarker id =>
      simp only [RuntimeStore.step] at hstep
      split at hstep
      · next hcall => exact h.writeMarker hcall hstep
      · cases hstep
  | stop id =>
      simp only [RuntimeStore.step] at hstep
      split at hstep <;> cases hstep
      exact h.becomes rfl trivial

theorem returned_proceed (hreturned : .returned ∈ s.calls) (hcall : s.calls[id]? = some phase)
    (hne : phase ≠ .returned) : .returned ∈ (s.proceed id files next).calls := by
  obtain ⟨other, hget⟩ := List.getElem?_of_mem hreturned
  refine List.mem_of_getElem? (i := other) ?_
  rw [RuntimeStore.proceed, List.getElem?_set_ne, hget]
  rintro rfl
  exact hne (Option.some.inj (hcall.symm.trans hget))

/-- Once a call has returned, no call is extracting, and what they do changes no file. -/
theorem Stable.quiet (h : s.Stable archive) (hreturned : .returned ∈ s.calls)
    {event : ResolveEvent} (hstep : s.step archive event = some s') :
    event.changesFiles = false ∧ s'.files = s.files ∧ .returned ∈ s'.calls := by
  have hmarked : s.files.isFile archive.marker = true := h.reached _ hreturned
  have hidle : ∀ {id : Nat} {phase : ResolvePhase}, s.calls[id]? = some phase →
      phase.isActive = true → False := by
    intro id phase hcall hactive
    rw [h.inactive hmarked phase (List.mem_of_getElem? hcall)] at hactive
    cases hactive
  cases event with
  | start =>
      cases hstep
      exact ⟨rfl, rfl, List.mem_append_left _ hreturned⟩
  | check id =>
      simp only [RuntimeStore.step] at hstep
      split at hstep
      · next hcall =>
          cases hstep
          exact ⟨rfl, rfl, returned_proceed hreturned hcall (by decide)⟩
      · cases hstep
  | stop id =>
      simp only [RuntimeStore.step] at hstep
      split at hstep
      · cases hstep
      · cases hstep
      · next hne hcall =>
          cases hstep
          exact ⟨rfl, rfl, returned_proceed hreturned hcall fun heq => hne (heq ▸ rfl)⟩
  | openArchive id | openMember id | writeChunk id size | closeMember id | readManifest id
  | chmod id | writeMarker id =>
      simp only [RuntimeStore.step] at hstep
      split at hstep
      · next hcall => exact (hidle hcall rfl).elim
      · cases hstep

end RuntimeStore

/-! ## Runs -/

section Runs

variable {archive : NativeArchive} {s s' : RuntimeStore}

open TransitionSystem in
theorem stable_of_reachable (hunambiguous : archive.Unambiguous)
    (hreach : (nativeRuntime archive).Reachable (fun s event => s.checksAlone event = true) s) :
    s.Stable archive := by
  refine hreach.invariant (RuntimeStore.Stable archive) ?_ ?_
  · rintro s ⟨hfiles, hcalls⟩
    have hmarker : s.files.isFile archive.marker = false := by
      rw [FileTree.isFile, NativeArchive.marker, hfiles _ (List.prefix_append ..)]
    refine ⟨fun phase hphase => ?_, fun id _ phase _ hid => ?_, ?_, ?_⟩
    · rw [hcalls] at hphase
      cases hphase
    · rw [hcalls] at hid
      cases hid
    · rw [hmarker]
      exact nofun
    · rw [hmarker]
      exact nofun
  · intro s event s' _ hstable halone hstep
    exact hstable.step hunambiguous halone hstep

open TransitionSystem in
/-- From the return of a call on the directory is complete, and no step changes a file. -/
theorem returned_runtime_stable (hunambiguous : archive.Unambiguous)
    (hreach : (nativeRuntime archive).Reachable (fun s event => s.checksAlone event = true) s)
    (hreturned : .returned ∈ s.calls)
    (hleads : (nativeRuntime archive).Leads (fun s event => s.checksAlone event = true) s s') :
    archive.Complete s'.files ∧ s'.files = s.files ∧
      ∀ event next, s'.step archive event = some next → event.changesFiles = false := by
  have hkept : s'.files = s.files ∧ .returned ∈ s'.calls := by
    refine hleads.invariant (fun later => later.files = s.files ∧ .returned ∈ later.calls) ?_
      hreach ⟨rfl, hreturned⟩
    rintro earlier event later hearlier ⟨hfiles, hcalls⟩ _ hstep
    obtain ⟨-, hsame, hcalls'⟩ :=
      (stable_of_reachable hunambiguous hearlier).quiet hcalls hstep
    exact ⟨hsame.trans hfiles, hcalls'⟩
  have hstable := stable_of_reachable hunambiguous (hleads.reachable hreach)
  exact ⟨hstable.complete (hstable.reached _ hkept.2), hkept.1,
    fun event next hstep => (hstable.quiet hkept.2 hstep).1⟩

end Runs

/-- A runtime with a manifest and a tool. -/
def sampleRuntime : NativeArchive where
  extracted := ["runtimes", "extracted", "digest"]
  digestLine := [100, 10]
  members := [⟨["manifest.json"], [1]⟩, ⟨["bin", "tool"], [7, 8]⟩]
  executable bytes := if bytes = [1] then some ["bin", "tool"] else none

/-- What a call does after it has missed the marker. -/
def extractionSteps (id : Nat) : List ResolveEvent :=
  [.openArchive id, .openMember id, .writeChunk id 8, .closeMember id, .openMember id,
    .writeChunk id 1, .writeChunk id 8, .closeMember id, .readManifest id, .chmod id,
    .writeMarker id]

def runtimeAfter (check : RuntimeStore → ResolveEvent → Bool) (events : List ResolveEvent) :
    RuntimeStore :=
  (nativeRuntime sampleRuntime).after check { files := fun _ => none } events

theorem sampleRuntime_unambiguous : sampleRuntime.Unambiguous := by
  constructor <;> decide

theorem runtimeAfter_reachable (check : RuntimeStore → ResolveEvent → Bool)
    (events : List ResolveEvent) : (nativeRuntime sampleRuntime).Reachable
      (fun s event => check s event = true) (runtimeAfter check events) :=
  TransitionSystem.Reachable.after
    (TransitionSystem.Reachable.initial (T := nativeRuntime sampleRuntime)
      ⟨fun _ _ => rfl, rfl⟩) events

/-- A call that stops inside a member, a second one that extracts, and a third one. -/
def resolveInTurn : List ResolveEvent :=
  [.start, .check 0, .openArchive 0, .openMember 0, .stop 0, .start, .check 1] ++
    extractionSteps 1 ++ [.start, .check 2]

theorem returned_runtime_stable_inTurn :
    (runtimeAfter RuntimeStore.checksAlone resolveInTurn).calls =
      [.stopped, .returned, .returned] ∧
    sampleRuntime.Complete (runtimeAfter RuntimeStore.checksAlone resolveInTurn).files :=
  ⟨by decide, (returned_runtime_stable sampleRuntime_unambiguous
    (runtimeAfter_reachable RuntimeStore.checksAlone resolveInTurn) (by decide) .refl).1⟩

/-- Two calls miss the marker; one returns, and the other reaches the first member. -/
def resolveTogether : List ResolveEvent :=
  [.start, .start, .check 0, .check 1] ++ extractionSteps 0 ++ [.openArchive 1, .openMember 1]

open TransitionSystem in
/-- A call has returned the directory, and its manifest is empty again. -/
theorem returned_runtime_truncated : ∃ s, (nativeRuntime sampleRuntime).Reachable anyStep s ∧
    .returned ∈ s.calls ∧ ¬ sampleRuntime.Complete s.files := by
  refine ⟨_, (runtimeAfter_reachable (fun _ _ => true) resolveTogether).unguarded, by decide,
    fun hcomplete => ?_⟩
  obtain ⟨executable, hfile⟩ := hcomplete.members ⟨["manifest.json"], [1]⟩ (by decide)
  have hempty : (runtimeAfter (fun _ _ => true) resolveTogether).files
      (sampleRuntime.path ⟨["manifest.json"], [1]⟩) = some (.file [] false) := by decide
  rw [hempty] at hfile
  cases hfile

end QhpcEcosystem
