/-
The update records of repositories.  A call observes its remote repositories without the
lock and then reads, changes and writes `state.json` in one locked step, so the calls of
all threads and processes interleave between observation and write.
-/
import QhpcEcosystem.KeyedTable
import QhpcEcosystem.TransitionSystem
import Mathlib.Data.List.Sort
import Mathlib.Logic.Function.Basic

namespace QhpcEcosystem

/-! ## Records -/

/-- `RepositoryTarget`, as far as a check or a stage reads it. -/
structure RepositoryTarget where
  componentId : String
  repositoryUrl : String
  currentRepositoryUrl : String
  trackedRef : String
  currentRevision : String
deriving DecidableEq, Repr

/-- Instants are the readings of `_timestamp`. -/
structure CheckRecord where
  baseRevision : String
  baseRepositoryUrl : String
  repositoryUrl : String
  trackedRef : String
  latestRevision : Option String
  checkedAt : Nat
  error : Option String
deriving DecidableEq, Repr

structure StagedRecord where
  baseRevision : String
  baseRepositoryUrl : String
  repositoryUrl : String
  trackedRef : String
  candidateRevision : String
  checkout : String
  stagedAt : Nat
deriving DecidableEq, Repr

/-- The record that `_check_target` makes of what `_remote_revision` returned or raised. -/
def RepositoryTarget.checkRecord (target : RepositoryTarget) (checkedAt : Nat)
    (latest : Except String String) : CheckRecord where
  baseRevision := target.currentRevision
  baseRepositoryUrl := target.currentRepositoryUrl
  repositoryUrl := target.repositoryUrl
  trackedRef := target.trackedRef
  latestRevision := latest.toOption
  checkedAt := checkedAt
  error := match latest with
    | .ok _ => none
    | .error message => some message

/-- `REVISION`. -/
def isRevision (text : String) : Bool :=
  40 ≤ text.length && text.length ≤ 64 && text.toList.all fun c =>
    ('0' ≤ c && c ≤ '9') || ('a' ≤ c && c ≤ 'f') || ('A' ≤ c && c ≤ 'F')

/-- The candidate of `stage` after its checks; `none` when one of them raises. -/
def RepositoryTarget.candidate? (target : RepositoryTarget) (latest : String)
    (candidateRevision : Option String) : Option String :=
  let given := match candidateRevision with
    | some revision => if revision = "" then latest else revision
    | none => latest
  if isRevision given = false then none
  else
    let candidate := given.toLower
    if candidate ≠ latest.toLower then none
    else if candidate = target.currentRevision.toLower then none
    else some candidate

/-! ## Calls -/

/-- An observation of a remote repository; `latest` is set when the remote has answered.
`number` counts the observations, and no step of a call reads it. -/
structure Observation where
  number : Nat
  checkedAt : Nat
  latest : Option (Except String String) := none

structure ObservedTarget where
  target : RepositoryTarget
  observation : Option Observation := none

inductive UpdateCall where
  | check (slots : List ObservedTarget)
  | stage (slot : ObservedTarget) (candidateRevision : Option String)
      (staged : Option StagedRecord)
  | discard (target : RepositoryTarget)

inductive UpdateRequest where
  | check (selected : List RepositoryTarget)
  | stage (target : RepositoryTarget) (candidateRevision : Option String)
  | discard (target : RepositoryTarget)

def UpdateCall.slots : UpdateCall → List ObservedTarget
  | .check slots => slots
  | .stage slot _ _ => [slot]
  | .discard _ => []

/-- The components that a call is for. -/
def UpdateCall.components : UpdateCall → List String
  | .discard target => [target.componentId]
  | call => call.slots.map fun slot => slot.target.componentId

/-- Change the slot at an index. -/
def UpdateCall.modify (call : UpdateCall) (index : Nat) (f : ObservedTarget → ObservedTarget) :
    UpdateCall :=
  match call with
  | .check slots => .check (slots.modify index f)
  | .stage slot candidateRevision staged =>
      .stage (if index = 0 then f slot else slot) candidateRevision staged
  | .discard target => .discard target

/-- A call that starts.  `_select_targets` raises on a selection with duplicates. -/
def UpdateRequest.call? : UpdateRequest → Option UpdateCall
  | .check selected =>
      if (selected.map RepositoryTarget.componentId).Nodup then
        some (.check (selected.map fun target => { target := target })) else none
  | .stage target candidateRevision => some (.stage { target := target } candidateRevision none)
  | .discard target => some (.discard target)

/-- The record of a target whose observation is complete. -/
def ObservedTarget.record? (slot : ObservedTarget) : Option (String × CheckRecord) :=
  match slot.observation with
  | some ⟨_, checkedAt, some latest⟩ =>
      some (slot.target.componentId, slot.target.checkRecord checkedAt latest)
  | _ => none

/-! ## State -/

/-- An observation that was written. -/
structure WrittenCheck where
  component : String
  number : Nat
  checkedAt : Nat
deriving DecidableEq, Repr

/-- `state.json`, the clock and the calls in flight.  `times` are the instants of all
observations in the order in which they started and `written` those that were written;
both record the run. -/
structure UpdateStore where
  checks : Dict String CheckRecord := Table.empty
  staged : Dict String StagedRecord := Table.empty
  clock : Nat := 0
  calls : Nat → Option UpdateCall := fun _ => none
  times : List Nat := []
  written : List WrittenCheck := []

inductive UpdateEvent where
  | tick (now : Nat)
  | start (id : Nat) (request : UpdateRequest)
  | observe (id index : Nat)
  | observed (id index : Nat) (latest : Except String String)
  | prepared (id : Nat) (checkout : String)
  | write (id : Nat)
  | fail (id : Nat)

namespace UpdateStore

def setCall (s : UpdateStore) (id : Nat) (call : Option UpdateCall) : UpdateStore :=
  { s with calls := Function.update s.calls id call }

theorem setCall_calls (s : UpdateStore) (id : Nat) (call : Option UpdateCall) (other : Nat) :
    (s.setCall id call).calls other = if other = id then call else s.calls other :=
  Function.update_apply s.calls id call other

/-- An observation starts: `checked_at = _timestamp()`. -/
def observe (s : UpdateStore) (id index : Nat) (call : UpdateCall) : Option UpdateStore :=
  match call.slots[index]? with
  | some ⟨_, none⟩ =>
      let started := call.modify index fun slot =>
        { slot with observation := some { number := s.times.length, checkedAt := s.clock } }
      some { s.setCall id (some started) with times := s.times ++ [s.clock] }
  | _ => none

/-- The remote answers an observation. -/
def observed (s : UpdateStore) (id index : Nat) (latest : Except String String)
    (call : UpdateCall) : Option UpdateStore :=
  match call.slots[index]? with
  | some ⟨_, some ⟨_, _, none⟩⟩ =>
      let answered := call.modify index fun slot =>
        { slot with observation := slot.observation.map fun observation =>
            { observation with latest := some latest } }
      some (s.setCall id (some answered))
  | _ => none

/-- `_prepare_checkout` returns, and `stage` makes its record. -/
def prepared (s : UpdateStore) (id : Nat) (checkout : String) (call : UpdateCall) :
    Option UpdateStore :=
  match call with
  | .stage slot candidateRevision none =>
      match slot.observation with
      | some ⟨_, _, some (.ok latest)⟩ =>
          (slot.target.candidate? latest candidateRevision).map fun candidate =>
            s.setCall id (some (.stage slot candidateRevision (some {
              baseRevision := slot.target.currentRevision
              baseRepositoryUrl := slot.target.currentRepositoryUrl
              repositoryUrl := slot.target.repositoryUrl
              trackedRef := slot.target.trackedRef
              candidateRevision := candidate
              checkout := checkout
              stagedAt := s.clock })))
      | _ => none
  | _ => none

/-- The checks that a call writes. -/
def writeChecks (s : UpdateStore) (slots : List ObservedTarget)
    (records : List (String × CheckRecord)) : UpdateStore :=
  { s with
    checks := records.foldl Table.set s.checks
    written := s.written ++ slots.filterMap fun slot => slot.observation.map fun observation =>
      ⟨slot.target.componentId, observation.number, observation.checkedAt⟩ }

/-- The locked step of a call, which ends it. -/
def write (s : UpdateStore) (id : Nat) (call : UpdateCall) : Option UpdateStore :=
  match call with
  | .check slots => (slots.mapM ObservedTarget.record?).map fun records =>
      (s.writeChecks slots records).setCall id none
  | .stage slot _ (some staged) => slot.record?.map fun record =>
      { (s.writeChecks [slot] [record]).setCall id none with
        staged := s.staged.set (slot.target.componentId, staged) }
  | .stage _ _ none => none
  | .discard target =>
      some { s.setCall id none with staged := s.staged.remove target.componentId }

def step (s : UpdateStore) : UpdateEvent → Option UpdateStore
  | .tick now => some { s with clock := now }
  | .start id request =>
      match s.calls id with
      | some _ => none
      | none => request.call?.map fun call => s.setCall id (some call)
  | .observe id index => (s.calls id).bind (s.observe id index)
  | .observed id index latest => (s.calls id).bind (s.observed id index latest)
  | .prepared id checkout => (s.calls id).bind (s.prepared id checkout)
  | .write id => (s.calls id).bind (s.write id)
  | .fail id => (s.calls id).map fun _ => s.setCall id none

end UpdateStore

/-- The calls on one state directory, which starts without a `state.json`. -/
def repositoryUpdates : TransitionSystem UpdateStore UpdateEvent where
  Initial s := s = {}
  step := UpdateStore.step

end QhpcEcosystem
