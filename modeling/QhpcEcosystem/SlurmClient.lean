/-
`SlurmClient` over the texts that the scheduler's commands print.  Whatever they
print, an identifier that it takes from them is one it accepts again and one
that the engine records; on complete listings `find_by_name` finds a job exactly
when there is one, which is the step `search` of the runner.
-/
import QhpcEcosystem.SlurmUniqueness
import QhpcEcosystem.SlurmScript
import QhpcEcosystem.TextLines
import QhpcEcosystem.WorkflowDrafts

namespace QhpcEcosystem

/-! ## Texts -/

/-- `str.splitlines`. -/
def splitlines (text : String) : List String :=
  (stringLines (universalNewlines text.toList)).map String.ofList

/-- What stands before the first occurrence of a character, and what stands
behind it. -/
def partitionAt (separator : Char) : List Char → List Char × Option (List Char)
  | [] => ([], none)
  | c :: rest =>
      if c = separator then ([], some rest)
      else
        let parts := partitionAt separator rest
        (c :: parts.1, parts.2)

/-- `[0-9]+` -/
def isDigits (text : List Char) : Bool := text ≠ [] && text.all Char.isDigit

/-- `JOB_ID`. -/
def isJobId (text : String) : Bool :=
  let parts := partitionAt '_' text.toList
  isDigits parts.1 && parts.2.all isDigits

/-! ## The client -/

structure CommandResult where
  returncode : Int
  stdout : String
  stderr : String := ""
deriving DecidableEq, Repr

structure SlurmClient where
  sbatch : String := "sbatch"
  squeue : String := "squeue"
  sacct : String := "sacct"
  scancel : String := "scancel"
  executor : List String → CommandResult

namespace SlurmClient

/-- `RuntimeError(result.stderr.strip() or message)`. -/
def failure (result : CommandResult) (message : String) : Exn :=
  runtimeError (if stripped result.stderr ≠ "" then stripped result.stderr else message)

/-- `_job_id`. -/
def jobId (value : String) : Except Exn String :=
  if isJobId value then .ok value else .error (valueError ("invalid Slurm job ID: " ++ value))

/-- Run a command, and fail when it does. -/
def execute (client : SlurmClient) (command : List String) (message : String) :
    Except Exn String :=
  let result := client.executor command
  if result.returncode ≠ 0 then .error (failure result message) else .ok result.stdout

/-- `submit` of an existing script under its path on the scheduler. -/
def submit (client : SlurmClient) (schedulerPath : String) : Except Exn String :=
  if schedulerPath = "" ∨ '\x00' ∈ schedulerPath.toList then
    .error (valueError "invalid scheduler script path")
  else do
    let stdout ← client.execute [client.sbatch, "--parsable", schedulerPath] "sbatch failed"
    jobId (String.ofList (partitionAt ';' (stripped stdout).toList).1)

/-- `classify_state`; upper is `str.upper`. -/
def classifyState (upper : String → String) (value : String) : String :=
  let word := (partitionAt '+' (upper (stripped value)).toList).1
  let state := String.ofList (partitionAt ' ' word).1
  if state ∈ ["PENDING", "CONFIGURING", "REQUEUED", "RESIZING"] then "queued"
  else if state ∈ ["RUNNING", "COMPLETING", "STAGE_OUT"] then "running"
  else if state = "COMPLETED" then "succeeded"
  else if state ∈ ["CANCELLED", "PREEMPTED"] then "canceled"
  else if state ∈ ["BOOT_FAIL", "DEADLINE", "FAILED", "NODE_FAIL", "OUT_OF_MEMORY", "REVOKED",
      "TIMEOUT"] then "failed"
  else "unknown"

def status (client : SlurmClient) (upper : String → String) (value : String) :
    Except Exn String := do
  let checked ← jobId value
  let queued ← client.execute [client.squeue, "--noheader", "--format=%T", "--jobs", checked]
    "squeue failed"
  if stripped queued ≠ "" then return classifyState upper queued
  let history ← client.execute [client.sacct, "--noheader", "--parsable2", "--jobs", checked,
    "--format=State"] "sacct failed"
  let first := ((splitlines history).find? fun line => stripped line ≠ "").getD ""
  return classifyState upper (String.ofList (partitionAt '|' first.toList).1)

/-- The identifier in a line of `squeue`. -/
def queuedJob? (line : String) : Option String :=
  if isJobId (stripped line) then some (stripped line) else none

/-- The identifier in a line of `sacct` about a job of the name. -/
def accountedJob? (jobName line : String) : Option String :=
  match partitionAt '|' (stripped line).toList with
  | (identifier, some name) =>
      if String.ofList name = jobName && isJobId (String.ofList identifier) then
        some (String.ofList identifier)
      else none
  | (_, none) => none

def findByName (client : SlurmClient) (jobName : String) : Except Exn (Option String) :=
  if !isSlurmName jobName then .error (valueError "invalid Slurm job name")
  else do
    let queued ← client.execute [client.squeue, "--noheader", "--name", jobName, "--format=%A"]
      "squeue failed"
    match (splitlines queued).findSome? queuedJob? with
    | some candidate => return some candidate
    | none =>
        let history ← client.execute [client.sacct, "--noheader", "--parsable2", "--name",
          jobName, "--format=JobIDRaw,JobName"] "sacct failed"
        return (splitlines history).findSome? (accountedJob? jobName)

def cancel (client : SlurmClient) (value : String) : Except Exn Unit := do
  let checked ← jobId value
  let _ ← client.execute [client.scancel, checked] "scancel failed"

end SlurmClient

/-! ## What the client takes from the texts -/

section Partition

variable {separator : Char} {text first second : List Char}

theorem eq_of_partitionAt_none (h : partitionAt separator text = (first, none)) :
    text = first := by
  induction text generalizing first with
  | nil =>
      cases h
      rfl
  | cons c rest ih =>
      simp only [partitionAt] at h
      split at h
      · cases h
      · obtain ⟨rfl, hnone⟩ := Prod.mk.inj h
        exact congrArg (c :: ·) (ih (Prod.ext rfl hnone))

theorem eq_of_partitionAt_some (h : partitionAt separator text = (first, some second)) :
    text = first ++ separator :: second := by
  induction text generalizing first with
  | nil => cases h
  | cons c rest ih =>
      simp only [partitionAt] at h
      split at h
      · next hc =>
          cases h
          rw [hc]
          rfl
      · obtain ⟨rfl, hsome⟩ := Prod.mk.inj h
        exact congrArg (c :: ·) (ih (Prod.ext rfl hsome))

theorem partitionAt_append_left (h : separator ∉ first) (rest : List Char) :
    partitionAt separator (first ++ rest) =
      (first ++ (partitionAt separator rest).1, (partitionAt separator rest).2) := by
  induction first with
  | nil => rfl
  | cons c first ih =>
      rw [List.mem_cons, not_or] at h
      rw [List.cons_append, partitionAt, if_neg fun heq => h.1 heq.symm, ih h.2, List.cons_append]

theorem partitionAt_append (h : separator ∉ first) :
    partitionAt separator (first ++ separator :: second) = (first, some second) := by
  simp [partitionAt_append_left h, partitionAt]

end Partition

/-- A visible ASCII character. -/
def isVisible (c : Char) : Bool := 33 ≤ c.toNat && c.toNat ≤ 126

theorem isSpace_of_isVisible {c : Char} (h : isVisible c = true) : isSpace c = false := by
  simp only [isVisible, Bool.and_eq_true, decide_eq_true_eq] at h
  simp only [isSpace, List.mem_cons, List.not_mem_nil, or_false]
  grind

theorem isLineBreak_of_isVisible {c : Char} (h : isVisible c = true) :
    isLineBreak c = false := by
  simp only [isVisible, Bool.and_eq_true, decide_eq_true_eq] at h
  simp only [isLineBreak, List.mem_cons, List.not_mem_nil, or_false]
  grind

theorem isVisible_of_isSlurmChar {c : Char} (h : isSlurmChar c = true) : isVisible c = true := by
  simp only [isSlurmChar, Bool.or_eq_true, decide_eq_true_eq, List.mem_cons, List.not_mem_nil,
    or_false] at h
  rcases h with halnum | rfl | rfl | rfl
  · have hletters : ((decide (65 ≤ c.val ∧ c.val ≤ 90) ||
        (decide (97 ≤ c.val) && decide (c.val ≤ 122))) ||
        (decide (48 ≤ c.val) && decide (c.val ≤ 57))) = true := halnum
    simp only [Bool.or_eq_true, Bool.and_eq_true, decide_eq_true_eq, UInt32.le_iff_toNat_le]
      at hletters
    simp only [isVisible, Bool.and_eq_true, decide_eq_true_eq, Char.toNat]
    grind
  · decide
  · decide
  · decide

/-- An identifier is made of digits and an underscore. -/
theorem chars_of_isJobId {text : String} (h : isJobId text = true) :
    text ≠ "" ∧ ∀ c ∈ text.toList, c.isDigit = true ∨ c = '_' := by
  simp only [isJobId, Bool.and_eq_true, isDigits, decide_eq_true_eq, List.all_eq_true] at h
  obtain ⟨⟨hne, hfirst⟩, hsecond⟩ := h
  cases hparts : partitionAt '_' text.toList with
  | mk first rest =>
      rw [hparts] at hne hfirst hsecond
      have hnonempty : text ≠ "" := by
        rintro rfl
        rw [show "".toList = [] from rfl] at hparts
        cases hparts
        exact hne rfl
      refine ⟨hnonempty, fun c hc => ?_⟩
      cases rest with
      | none =>
          rw [eq_of_partitionAt_none hparts] at hc
          exact .inl (hfirst c hc)
      | some second =>
          rw [eq_of_partitionAt_some hparts, List.mem_append, List.mem_cons] at hc
          simp only [Option.all_some, isDigits, Bool.and_eq_true, List.all_eq_true] at hsecond
          rcases hc with hc | hc | hc
          · exact .inl (hfirst c hc)
          · exact .inr hc
          · exact .inl (hsecond.2 c hc)

theorem isVisible_of_isJobId {text : String} (h : isJobId text = true) :
    ∀ c ∈ text.toList, isVisible c = true := by
  intro c hc
  rcases (chars_of_isJobId h).2 c hc with hdigit | rfl
  · refine isVisible_of_isSlurmChar ?_
    simp [isSlurmChar, Char.isAlphanum, hdigit]
  · decide

theorem notMem_of_isJobId {text : String} (h : isJobId text = true) {c : Char}
    (hdigit : c.isDigit = false) (hunderscore : c ≠ '_') : c ∉ text.toList := by
  intro hc
  rcases (chars_of_isJobId h).2 c hc with htrue | heq
  · rw [hdigit] at htrue
    cases htrue
  · exact hunderscore heq

theorem notSpace_of_isJobId {text : String} (h : isJobId text = true) :
    text.toList.any isSpace = false := by
  rw [List.any_eq_false]
  intro c hc
  rw [isSpace_of_isVisible (isVisible_of_isJobId h c hc)]
  exact Bool.false_ne_true

namespace SlurmClient

variable {client : SlurmClient} {handle state : String} {upper : String → String}

/-- The client has taken the identifier from what the scheduler printed. -/
def Takes (client : SlurmClient) (handle : String) : Prop :=
  (∃ path, client.submit path = .ok handle) ∨
    ∃ name, client.findByName name = .ok (some handle)

theorem jobId_eq_ok {value : String} (h : jobId value = .ok handle) :
    value = handle ∧ isJobId handle = true := by
  unfold jobId at h
  split at h
  · cases h
    exact ⟨rfl, ‹_›⟩
  · cases h

theorem isJobId_of_queuedJob? {line : String} (h : queuedJob? line = some handle) :
    isJobId handle = true := by
  unfold queuedJob? at h
  split at h
  · cases h
    assumption
  · cases h

theorem isJobId_of_accountedJob? {name line : String}
    (h : accountedJob? name line = some handle) : isJobId handle = true := by
  unfold accountedJob? at h
  split at h
  · split at h
    · next hboth =>
        cases h
        exact (Bool.and_eq_true _ _ ▸ hboth).2
    · cases h
  · cases h

theorem isJobId_of_findByName {name : String} (h : client.findByName name = .ok (some handle)) :
    isJobId handle = true := by
  simp only [findByName, bind, Except.bind] at h
  split at h
  · cases h
  · split at h
    · cases h
    · split at h
      · next hfound =>
          cases h
          obtain ⟨line, -, hline⟩ := List.exists_of_findSome?_eq_some hfound
          exact isJobId_of_queuedJob? hline
      · split at h
        · cases h
        · have hfound := Except.ok.inj h
          obtain ⟨line, -, hline⟩ := List.exists_of_findSome?_eq_some hfound
          exact isJobId_of_accountedJob? hline

theorem isJobId_of_submit {path : String} (h : client.submit path = .ok handle) :
    isJobId handle = true := by
  simp only [submit, bind, Except.bind] at h
  split at h
  · cases h
  · split at h
    · cases h
    · exact (jobId_eq_ok h).2

theorem Takes.isJobId (h : client.Takes handle) : isJobId handle = true := by
  rcases h with ⟨_, hsubmit⟩ | ⟨_, hfound⟩
  · exact isJobId_of_submit hsubmit
  · exact isJobId_of_findByName hfound

theorem cls_of_execute {command : List String} {message : String} {error : Exn}
    (h : client.execute command message = .error error) : error.cls = .runtimeError := by
  simp only [execute] at h
  split at h
  · cases h
    rfl
  · cases h

/-- The classes of a state are the engine's. -/
theorem classifyState_isSome (upper : String → String) (value : String) :
    (TargetState.ofName? (classifyState upper value)).isSome = true := by
  unfold classifyState
  simp only
  split_ifs <;> decide

/-- An error of `status` is the failure of a command, once the identifier is
one. -/
theorem cls_of_status (hid : isJobId handle = true) {error : Exn}
    (h : client.status upper handle = .error error) : error.cls = .runtimeError := by
  simp only [status, jobId, hid, bind, Except.bind, if_true] at h
  split at h
  · next herror =>
      cases h
      exact cls_of_execute herror
  · split at h
    · cases h
    · split at h
      · next herror =>
          cases h
          exact cls_of_execute herror
      · cases h

theorem cls_of_cancel (hid : isJobId handle = true) {error : Exn}
    (h : client.cancel handle = .error error) : error.cls = .runtimeError := by
  simp only [cancel, jobId, hid, bind, Except.bind, if_true] at h
  split at h
  · next herror =>
      cases h
      exact cls_of_execute herror
  · cases h

theorem isSome_of_status {value : String} (h : client.status upper value = .ok state) :
    (TargetState.ofName? state).isSome = true := by
  simp only [status, bind, Except.bind] at h
  split at h
  · cases h
  · split at h
    · cases h
    · split at h
      · cases h
        exact classifyState_isSome upper _
      · split at h
        · cases h
        · cases h
          exact classifyState_isSome upper _

/-- The engine records an identifier without white space in an admitted state
under every valid lease, and under no other one. -/
theorem recordSubmission_isOk_iff {db : Db} {now : Time} {lease : TaskLease}
    {metadata : Metadata} (hhandle : ¬ (handle = "" ∨ handle.toList.any isSpace))
    (hstate : (TargetState.ofName? state).isSome = true) :
    (∃ result, recordSubmission db now lease handle state metadata = .ok result) ↔
      ∃ row, db.Holds lease row := by
  obtain ⟨target, htarget⟩ := Option.isSome_iff_exists.mp hstate
  simp only [recordSubmission, if_neg hhandle, htarget, bind, Except.bind]
  constructor
  · rintro ⟨result, hresult⟩
    split at hresult
    · cases hresult
    · next row hrow => exact ⟨row, assertLease_eq_ok.mp hrow⟩
  · rintro ⟨row, hholds⟩
    rw [assertLease_eq_ok.mpr hholds]
    exact ⟨_, rfl⟩

/-- The attempt of a recorded submission has the handle and the state. -/
theorem recordSubmission_stores {db db' : Db} {now : Time} {lease : TaskLease}
    {metadata : Metadata} {result : AttemptState}
    (h : recordSubmission db now lease handle state metadata = .ok (result, db')) :
    ∃ row, db'.attempt? lease.attemptId = some row ∧ row.targetHandle = some handle ∧
      row.targetState = TargetState.ofName? state := by
  obtain ⟨row, target, hholds, htarget, -, hchanges⟩ := recordSubmission_ok h
  exact ⟨_, hchanges.held rfl hholds.toLeased, rfl, htarget.symm⟩

/-- Whatever the scheduler prints, an identifier that the client takes from it
goes through: `status` and `cancel` fail on it only when a command fails, and
the engine stores it with the attempt, in the state of a new job or in any state
that `status` gives, exactly under a valid lease. -/
theorem taken_handles_accepted (htaken : client.Takes handle)
    (hstate : state = "queued" ∨ ∃ value, client.status upper value = .ok state) :
    (∀ error, client.status upper handle = .error error ∨ client.cancel handle = .error error →
      error.cls = .runtimeError) ∧
    ∀ (db : Db) now lease metadata,
      ((∃ result, recordSubmission db now lease handle state metadata = .ok result) ↔
        ∃ row, db.Holds lease row) ∧
      ∀ result db', recordSubmission db now lease handle state metadata = .ok (result, db') →
        ∃ row, db'.attempt? lease.attemptId = some row ∧ row.targetHandle = some handle ∧
          row.targetState = TargetState.ofName? state := by
  have hid := htaken.isJobId
  refine ⟨fun error herror => herror.elim (cls_of_status hid) (cls_of_cancel hid), ?_⟩
  intro db now lease metadata
  refine ⟨recordSubmission_isOk_iff ?_ ?_, fun result db' h => recordSubmission_stores h⟩
  · rw [notSpace_of_isJobId hid]
    simpa using (chars_of_isJobId hid).1
  · rcases hstate with rfl | ⟨value, hvalue⟩
    · decide
    · exact isSome_of_status hvalue

/-- A scheduler that accepts every script as job 42. -/
def sampleClient : SlurmClient where
  executor command :=
    if command.head? = some "sbatch" then ⟨0, "42;cluster\n", ""⟩ else ⟨0, "RUNNING\n", ""⟩

theorem taken_handles_accepted_sample :
    sampleClient.submit "/job.sh" = .ok "42" ∧
    ∀ (db : Db) now lease metadata,
      ((∃ result, recordSubmission db now lease "42" "running" metadata = .ok result) ↔
        ∃ row, db.Holds lease row) ∧
      ∀ result db', recordSubmission db now lease "42" "running" metadata = .ok (result, db') →
        ∃ row, db'.attempt? lease.attemptId = some row ∧ row.targetHandle = some "42" ∧
          row.targetState = some .running :=
  have htaken : sampleClient.Takes "42" := .inl ⟨"/job.sh", by decide⟩
  have hstatus : sampleClient.status id "42" = .ok "running" := by decide
  ⟨by decide, (taken_handles_accepted htaken (.inr ⟨"42", hstatus⟩)).2⟩

end SlurmClient

/-! ## Listings -/

/-- A job as the scheduler lists it, with the identifiers and names of its steps. -/
structure ListedJob where
  job : SlurmJob
  queued : Bool
  steps : List (String × String)
deriving DecidableEq, Repr

/-- A text of lines. -/
def textOf (lines : List String) : String :=
  String.ofList (lines.flatMap fun line => line.toList ++ ['\n'])

/-- What `squeue --noheader --name NAME --format=%A` prints. -/
def squeueOutput (listing : List ListedJob) (name : String) : String :=
  textOf ((listing.filter fun listed => listed.queued && listed.job.name = name).map
    fun listed => listed.job.jobId)

/-- The lines of `sacct` about a job: its own, and one for each of its steps. -/
def ListedJob.accounted (listed : ListedJob) : List String :=
  (listed.job.jobId ++ "|" ++ listed.job.name) ::
    listed.steps.map fun step => listed.job.jobId ++ "." ++ step.1 ++ "|" ++ step.2

/-- What `sacct --noheader --parsable2 --name NAME --format=JobIDRaw,JobName`
prints. -/
def sacctOutput (listing : List ListedJob) (name : String) : String :=
  textOf ((listing.filter fun listed => listed.job.name = name).flatMap ListedJob.accounted)

namespace SlurmClient

/-- The scheduler lists its jobs, whose identifiers are ones, and whose steps
have identifiers and names of one line. -/
structure Serves (client : SlurmClient) (listing : List ListedJob) : Prop where
  identifiers : ∀ listed ∈ listing, isJobId listed.job.jobId = true
  steps : ∀ listed ∈ listing, ∀ step ∈ listed.steps,
    ∀ c ∈ step.1.toList ++ step.2.toList, isLineBreak c = false
  queued : ∀ name, isSlurmName name = true → ∃ stderr,
    client.executor [client.squeue, "--noheader", "--name", name, "--format=%A"] =
      ⟨0, squeueOutput listing name, stderr⟩
  accounted : ∀ name, isSlurmName name = true → ∃ stderr,
    client.executor [client.sacct, "--noheader", "--parsable2", "--name", name,
      "--format=JobIDRaw,JobName"] = ⟨0, sacctOutput listing name, stderr⟩

/-- `sbatch` accepts a script as a job, and may name the cluster. -/
def Accepts (client : SlurmClient) (path jobId : String) : Prop :=
  ∃ suffix stderr, (suffix = "" ∨ ∃ cluster, suffix = ";" ++ cluster) ∧
    client.executor [client.sbatch, "--parsable", path] = ⟨0, jobId ++ suffix ++ "\n", stderr⟩

end SlurmClient

section Texts

variable {lines : List String} {first rest : List Char}

theorem splitlines_textOf (h : ∀ line ∈ lines, ∀ c ∈ line.toList, isLineBreak c = false) :
    splitlines (textOf lines) = lines := by
  have hreturn : '\r' ∉ (lines.flatMap fun line => line.toList ++ ['\n']) := by
    intro hmem
    obtain ⟨line, hline, hc⟩ := List.mem_flatMap.mp hmem
    rcases List.mem_append.mp hc with hc | hc
    · exact absurd (h line hline _ hc) (by decide)
    · exact absurd (List.mem_singleton.mp hc) (by decide)
  rw [splitlines, textOf, String.toList_ofList, universalNewlines_of_notMem hreturn]
  clear hreturn
  induction lines with
  | nil => rfl
  | cons line lines ih =>
      rw [List.forall_mem_cons] at h
      rw [List.flatMap_cons, List.append_assoc, List.singleton_append,
        stringLines_append h.1, List.map_cons, ih h.2, String.ofList_toList]

/-- A text that starts with a word keeps it. -/
theorem stripped_append {text : String} (htext : text.toList = first ++ rest) (hne : first ≠ [])
    (h : ∀ c ∈ first, isSpace c = false) :
    (stripped text).toList = first ++ rest.rdropWhile isSpace := by
  rw [stripped, String.toList_ofList, htext, trimmed_append hne h]

theorem stripped_eq_self {text : String} (h : ∀ c ∈ text.toList, isSpace c = false) :
    stripped text = text := by
  rw [stripped, trimmed_eq_self h, String.ofList_toList]

end Texts

namespace SlurmClient

variable {client : SlurmClient} {listing : List ListedJob} {name : String}

theorem queuedJob?_jobId {text : String} (h : isJobId text = true) :
    queuedJob? text = some text := by
  have hstripped : stripped text = text :=
    stripped_eq_self fun c hc => isSpace_of_isVisible (isVisible_of_isJobId h c hc)
  simp [queuedJob?, hstripped, h]

theorem accountedJob?_job {text : String} (h : isJobId text = true)
    (hname : isSlurmName name = true) :
    accountedJob? name (text ++ "|" ++ name) = some text := by
  simp only [isSlurmName, Bool.and_eq_true, List.all_eq_true] at hname
  have hvisible : ∀ c ∈ (text ++ "|" ++ name).toList, isVisible c = true := by
    intro c hc
    simp only [String.toList_append, List.mem_append] at hc
    rcases hc with (hc | hc) | hc
    · exact isVisible_of_isJobId h c hc
    · rw [List.mem_singleton.mp hc]
      decide
    · exact isVisible_of_isSlurmChar (hname.2 c hc)
  have hstripped : stripped (text ++ "|" ++ name) = text ++ "|" ++ name :=
    stripped_eq_self fun c hc => isSpace_of_isVisible (hvisible c hc)
  have hparts : partitionAt '|' (text ++ "|" ++ name).toList = (text.toList, some name.toList) := by
    rw [String.toList_append, String.toList_append, List.append_assoc]
    exact partitionAt_append (notMem_of_isJobId h (by decide) (by decide))
  rw [accountedJob?, hstripped, hparts]
  simp [h]

/-- When the lines about each job that is asked for give its identifier, all of
them give the one of the first such job. -/
theorem findSome?_lines (p : ListedJob → Bool) (lines : ListedJob → List String)
    (f : String → Option String) (h : ∀ listed ∈ listing, p listed = true →
      (lines listed).findSome? f = some listed.job.jobId) :
    ((listing.filter p).flatMap lines).findSome? f =
      (listing.find? p).map fun listed => listed.job.jobId := by
  induction listing with
  | nil => rfl
  | cons listed listing ih =>
      rw [List.forall_mem_cons] at h
      by_cases hp : p listed = true
      · simp [hp, h.1 hp, List.findSome?_append]
      · simp [hp, ih h.2]

theorem findSome?_squeueOutput (hserves : client.Serves listing) :
    (splitlines (squeueOutput listing name)).findSome? queuedJob? = (listing.find? fun listed =>
      listed.queued && listed.job.name = name).map fun listed => listed.job.jobId := by
  rw [squeueOutput, splitlines_textOf, List.map_eq_flatMap]
  · refine findSome?_lines _ _ _ fun listed hlisted _ => ?_
    rw [List.findSome?_cons, queuedJob?_jobId (hserves.identifiers listed hlisted)]
  · intro line hline c hc
    obtain ⟨listed, hlisted, rfl⟩ := List.mem_map.mp hline
    exact isLineBreak_of_isVisible (isVisible_of_isJobId
      (hserves.identifiers listed (List.mem_of_mem_filter hlisted)) c hc)

/-- The lines about a job have no other line break. -/
theorem isLineBreak_accounted (hserves : client.Serves listing) (hname : isSlurmName name = true)
    {listed : ListedJob} (hlisted : listed ∈ listing) (hjob : listed.job.name = name)
    {line : String} (hline : line ∈ listed.accounted) :
    ∀ c ∈ line.toList, isLineBreak c = false := by
  have hid : ∀ c ∈ listed.job.jobId.toList, isLineBreak c = false := fun c hc =>
    isLineBreak_of_isVisible (isVisible_of_isJobId (hserves.identifiers listed hlisted) c hc)
  simp only [isSlurmName, Bool.and_eq_true, List.all_eq_true] at hname
  intro c hc
  rcases List.mem_cons.mp hline with rfl | hstep
  · simp only [String.toList_append, List.mem_append] at hc
    rcases hc with (hc | hc) | hc
    · exact hid c hc
    · rw [List.mem_singleton.mp hc]
      decide
    · rw [hjob] at hc
      exact isLineBreak_of_isVisible (isVisible_of_isSlurmChar (hname.2 c hc))
  · obtain ⟨step, hmem, rfl⟩ := List.mem_map.mp hstep
    simp only [String.toList_append, List.mem_append] at hc
    rcases hc with (((hc | hc) | hc) | hc) | hc
    · exact hid c hc
    · rw [List.mem_singleton.mp hc]
      decide
    · exact hserves.steps listed hlisted step hmem c (List.mem_append_left _ hc)
    · rw [List.mem_singleton.mp hc]
      decide
    · exact hserves.steps listed hlisted step hmem c (List.mem_append_right _ hc)

theorem findSome?_sacctOutput (hserves : client.Serves listing)
    (hname : isSlurmName name = true) :
    (splitlines (sacctOutput listing name)).findSome? (accountedJob? name) =
      (listing.find? fun listed => listed.job.name = name).map fun listed => listed.job.jobId := by
  rw [sacctOutput, splitlines_textOf]
  · refine findSome?_lines _ _ _ fun listed hlisted hjob => ?_
    have hjob : listed.job.name = name := by simpa using hjob
    rw [ListedJob.accounted, hjob, List.findSome?_cons,
      accountedJob?_job (hserves.identifiers listed hlisted) hname]
  · intro line hline
    obtain ⟨listed, hlisted, hmem⟩ := List.mem_flatMap.mp hline
    obtain ⟨hlisted, hjob⟩ := List.mem_filter.mp hlisted
    exact isLineBreak_accounted hserves hname hlisted (by simpa using hjob) hmem

/-- On complete listings `find_by_name` gives the first queued job of the name,
or else the first one ever. -/
theorem findByName_eq (hserves : client.Serves listing) (hname : isSlurmName name = true) :
    client.findByName name = .ok (((listing.find? fun listed =>
      listed.queued && listed.job.name = name).or (listing.find? fun listed =>
        listed.job.name = name)).map fun listed => listed.job.jobId) := by
  obtain ⟨_, hqueued⟩ := hserves.queued name hname
  obtain ⟨_, haccounted⟩ := hserves.accounted name hname
  simp only [findByName, hname, Bool.not_true, Bool.false_eq_true, if_false, bind, Except.bind,
    execute, hqueued, haccounted, ne_eq, not_true_eq_false, findSome?_squeueOutput hserves,
    findSome?_sacctOutput hserves hname]
  cases listing.find? fun listed => listed.queued && listed.job.name = name <;> rfl

/-- `submit` reads the identifier that `sbatch` prints, with or without the name of
the cluster. -/
theorem submit_eq {path jobId : String} (haccepts : client.Accepts path jobId)
    (hid : isJobId jobId = true) (hpath : ¬ (path = "" ∨ '\x00' ∈ path.toList)) :
    client.submit path = .ok jobId := by
  obtain ⟨suffix, stderr, hsuffix, hexecutor⟩ := haccepts
  have hnone : ';' ∉ jobId.toList := notMem_of_isJobId hid (by decide) (by decide)
  have hword : ∀ c ∈ jobId.toList, isSpace c = false := fun c hc =>
    isSpace_of_isVisible (isVisible_of_isJobId hid c hc)
  have hparts : (partitionAt ';' (stripped (jobId ++ suffix ++ "\n")).toList).1 =
      jobId.toList := by
    rcases hsuffix with rfl | ⟨cluster, rfl⟩
    · have hstripped : (stripped (jobId ++ "" ++ "\n")).toList =
          jobId.toList ++ ['\n'].rdropWhile isSpace :=
        stripped_append (by simp) (by simpa using (chars_of_isJobId hid).1) hword
      have hbreak : ['\n'].rdropWhile isSpace = [] := by decide
      rw [hstripped, hbreak, partitionAt_append_left hnone]
      exact List.append_nil _
    · have hfirst : ∀ c ∈ jobId.toList ++ [';'], isSpace c = false := by
        intro c hc
        rcases List.mem_append.mp hc with hc | hc
        · exact hword c hc
        · rw [List.mem_singleton.mp hc]
          decide
      have hstripped : (stripped (jobId ++ (";" ++ cluster) ++ "\n")).toList =
          (jobId.toList ++ [';']) ++ (cluster.toList ++ ['\n']).rdropWhile isSpace :=
        stripped_append (by simp) (by simp) hfirst
      rw [hstripped, List.append_assoc, List.singleton_append, partitionAt_append hnone]
  simp only [submit, if_neg hpath, execute, hexecutor, bind, Except.bind, ne_eq,
    not_true_eq_false, if_false, hparts, String.ofList_toList]
  exact if_pos hid

end SlurmClient

theorem isSlurmName_jobName {target : SlurmTarget}
    (hdigest : ∀ text, (target.hexdigest text).toList.all isSlurmChar = true)
    (attemptId : Uuid) : isSlurmName (target.jobName attemptId) = true := by
  simp only [isSlurmName, SlurmTarget.jobName, Bool.and_eq_true, List.all_eq_true,
    String.toList_append, String.toList_ofList]
  have hprefix : "qhpc-".toList.all isSlurmChar = true := by decide
  refine ⟨by simp, fun c hc => ?_⟩
  rcases List.mem_append.mp hc with hc | hc
  · exact List.all_eq_true.mp hprefix c hc
  · exact List.all_eq_true.mp (hdigest _) c (List.mem_of_mem_take hc)

namespace SlurmState

variable {ι : Type} [DecidableEq ι] {target : SlurmTarget} {profile : ι → WorkerProfile}
  {s : SlurmState ι}

/-- The client over the scheduler's texts takes the steps of the system: while
the listings are complete `find_by_name` finds a job under the name of the
attempt exactly when there is one, and `submit` gives the new job that `sbatch`
has accepted. -/
theorem steps_of_client {client : SlurmClient} {listing : List ListedJob}
    (hserves : client.Serves listing) (hjobs : listing.map ListedJob.job = s.jobs)
    (hdigest : ∀ text, (target.hexdigest text).toList.all isSlurmChar = true) {worker : ι}
    {work : Work} (hpc : s.workers.pcs worker = .submitting work) :
    (s.points worker = .staging → ∃ found,
      client.findByName (target.jobName work.request.attemptId) = .ok found ∧
      (s.step target profile (.search worker found)).isSome = true ∧
      s.findsJobs target (.search worker found) ∧
      (found = none ↔ ∀ job ∈ s.jobs, job.name ≠ target.jobName work.request.attemptId)) ∧
    (s.points worker = .rendering → ∀ path jobId,
      ¬ (path = "" ∨ '\x00' ∈ path.toList) → client.Accepts path jobId →
      isJobId jobId = true → (∀ job ∈ s.jobs, job.jobId ≠ jobId) →
      client.submit path = .ok jobId ∧
        (s.step target profile (.sbatch worker jobId)).isSome = true) := by
  have hname := isSlurmName_jobName hdigest work.request.attemptId
  refine ⟨fun hpoint => ?_, fun hpoint path jobId hpath haccepts hid hfresh => ?_⟩
  · refine ⟨_, SlurmClient.findByName_eq hserves hname, ?_⟩
    simp only [step, hpc, hpoint]
    cases hfound : (listing.find? fun listed => listed.queued &&
        listed.job.name = target.jobName work.request.attemptId).or
          (listing.find? fun listed =>
            listed.job.name = target.jobName work.request.attemptId) with
    | none =>
        have hall : ∀ job ∈ s.jobs, job.name ≠ target.jobName work.request.attemptId := by
          intro job hjob
          rw [← hjobs] at hjob
          obtain ⟨listed, hlisted, rfl⟩ := List.mem_map.mp hjob
          have hnone := List.find?_eq_none.mp (Option.or_eq_none_iff.mp hfound).2 listed hlisted
          simpa using hnone
        have hfinds : s.findsJobs target (.search worker none) := by
          simpa only [findsJobs, hpc] using hall
        exact ⟨rfl, hfinds, fun _ => hall, fun _ => rfl⟩
    | some listed =>
        have hlisted : listed.job ∈ s.jobs ∧
            listed.job.name = target.jobName work.request.attemptId := by
          rw [← hjobs]
          rcases Option.or_eq_some_iff.mp hfound with hqueued | ⟨-, haccounted⟩
          · have hboth := List.find?_some hqueued
            simp only [Bool.and_eq_true, decide_eq_true_eq] at hboth
            exact ⟨List.mem_map_of_mem (List.mem_of_find?_eq_some hqueued), hboth.2⟩
          · exact ⟨List.mem_map_of_mem (List.mem_of_find?_eq_some haccounted),
              by simpa using List.find?_some haccounted⟩
        have hjob : (⟨listed.job.jobId, target.jobName work.request.attemptId⟩ : SlurmJob) ∈
            s.jobs := by
          rw [← hlisted.2]
          exact hlisted.1
        refine ⟨by simp [hjob], trivial, ?_⟩
        constructor
        · intro hnone
          cases hnone
        · intro hall
          exact absurd hlisted.2 (hall _ hlisted.1)
  · refine ⟨SlurmClient.submit_eq haccepts hid hpath, ?_⟩
    simp only [step, hpc, hpoint]
    rw [if_pos (by simpa using hfresh)]
    rfl

/-- A scheduler with these jobs; it accepts every script as job 43. -/
def schedulerClient (listing : List ListedJob) : SlurmClient where
  executor
    | ["squeue", "--noheader", "--name", name, "--format=%A"] =>
        ⟨0, squeueOutput listing name, ""⟩
    | ["sacct", "--noheader", "--parsable2", "--name", name, "--format=JobIDRaw,JobName"] =>
        ⟨0, sacctOutput listing name, ""⟩
    | ["sbatch", "--parsable", _] => ⟨0, "43;cluster\n", ""⟩
    | _ => ⟨1, "", "unknown command"⟩

/-- The job of the first attempt, which runs. -/
def sampleListing : List ListedJob :=
  [⟨⟨"42", "qhpc-66708974e5efa736dfb98996"⟩, true,
    [("batch", "batch"), ("0", "qhpc-66708974e5efa736dfb98996")]⟩]

theorem serves_schedulerClient : (schedulerClient sampleListing).Serves sampleListing where
  identifiers := by
    intro listed hlisted
    rw [List.mem_singleton.mp hlisted]
    decide
  steps := by
    have hfree : ∀ listed ∈ sampleListing, ∀ step ∈ listed.steps,
        (step.1.toList ++ step.2.toList).all (fun c => !isLineBreak c) = true := by decide
    intro listed hlisted step hstep c hc
    simpa using List.all_eq_true.mp (hfree listed hlisted step hstep) c hc
  queued _ _ := ⟨"", rfl⟩
  accounted _ _ := ⟨"", rfl⟩

/-- A worker has submitted, and another one looks for the job of its attempt. -/
def searchingSecond : List (SlurmLabel (Fin 2)) :=
  (clientSteps sampleSubmission).map .worker ++ submitSteps 0 1 "42" ++
    (engineSteps 1 11 4).map .worker ++ [.worker (.submit 1), .read 1]

theorem steps_of_client_sample :
    let s := (slurmSystem (sampleTarget .onSuccess) (sampleProfile .async)).after
      (fun _ _ => true) {} searchingSecond
    ∃ work found, s.workers.pcs 1 = .submitting work ∧
      (schedulerClient sampleListing).findByName
        ((sampleTarget .onSuccess).jobName work.request.attemptId) = .ok found ∧
      (s.step (sampleTarget .onSuccess) (sampleProfile .async) (.search 1 found)).isSome = true := by
  intro s
  have hdigest : ∀ text, ((sampleTarget .onSuccess).hexdigest text).toList.all isSlurmChar =
      true := by
    intro text
    simp only [sampleTarget]
    split_ifs <;> decide
  obtain ⟨work, hwork⟩ := Option.isSome_iff_exists.mp
    (show (s.workers.pcs 1).submitting?.isSome = true by decide)
  have hpc := Pc.submitting?_eq_some.mp hwork
  have hsteps := @steps_of_client (Fin 2) _ (sampleTarget .onSuccess) (sampleProfile .async) s _ _
    serves_schedulerClient (by decide) hdigest 1 work hpc
  obtain ⟨found, hfound, hstep, -⟩ := hsteps.1 (by decide)
  exact ⟨work, found, hpc, hfound, hstep⟩

end SlurmState

end QhpcEcosystem
