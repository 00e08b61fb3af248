/-
Labelled transition systems whose runs may be restricted by a guard on the
state and the label of each step.  A law about every run is a law about the
guard that admits every step; a law that needs a side condition on some steps
names that condition as its guard.
-/
import Mathlib.Logic.Basic

namespace QhpcEcosystem

universe u v w z

/-- Initial states and a partial step function; `none` means that the label
is not enabled. -/
structure TransitionSystem (σ : Type u) (ι : Type v) where
  Initial : σ → Prop
  step : σ → ι → Option σ

namespace TransitionSystem

variable {σ : Type u} {ι : Type v} {τ : Type w} {κ : Type z}

/-- States reached by steps that all satisfy the guard in the state before
them. -/
inductive Reachable (T : TransitionSystem σ ι) (guard : σ → ι → Prop) : σ → Prop
  | initial {s : σ} : T.Initial s → Reachable T guard s
  | step {s s' : σ} {label : ι} : Reachable T guard s → guard s label →
      T.step s label = some s' → Reachable T guard s'

/-- The guard of unrestricted runs. -/
def anyStep (_ : σ) (_ : ι) : Prop := True

variable {T : TransitionSystem σ ι} {guard guard' : σ → ι → Prop} {s s' : σ}

/-- An inductive invariant holds in every reachable state.  The step case may
use that the state before it is itself reachable. -/
theorem Reachable.invariant (Inv : σ → Prop)
    (hinitial : ∀ s, T.Initial s → Inv s)
    (hstep : ∀ s label s', T.Reachable guard s → Inv s → guard s label →
      T.step s label = some s' → Inv s')
    (hreach : T.Reachable guard s) : Inv s := by
  induction hreach with
  | initial h => exact hinitial _ h
  | step hprev hguard hnext ih => exact hstep _ _ _ hprev ih hguard hnext

/-- A guard that follows in reachable states may replace the guard. -/
theorem Reachable.replace
    (himp : ∀ s label, T.Reachable guard s → guard s label → guard' s label)
    (hreach : T.Reachable guard s) : T.Reachable guard' s := by
  induction hreach with
  | initial h => exact .initial h
  | step hprev hguard hnext ih => exact .step ih (himp _ _ hprev hguard) hnext

theorem Reachable.weaken (himp : ∀ s label, guard s label → guard' s label)
    (hreach : T.Reachable guard s) : T.Reachable guard' s :=
  hreach.replace fun _ _ _ => himp _ _

theorem Reachable.unguarded (hreach : T.Reachable guard s) :
    T.Reachable anyStep s :=
  hreach.weaken fun _ _ _ => trivial

/-- The second state comes later in a run through the first, or is it. -/
inductive Leads (T : TransitionSystem σ ι) (guard : σ → ι → Prop) (s : σ) : σ → Prop
  | refl : Leads T guard s s
  | step {s' s'' : σ} {label : ι} : Leads T guard s s' → guard s' label →
      T.step s' label = some s'' → Leads T guard s s''

theorem Leads.reachable (hleads : T.Leads guard s s') (hreach : T.Reachable guard s) :
    T.Reachable guard s' := by
  induction hleads with
  | refl => exact hreach
  | step _ hguard hnext ih => exact .step ih hguard hnext

theorem Leads.trans {s'' : σ} (hfirst : T.Leads guard s s') (hsecond : T.Leads guard s' s'') :
    T.Leads guard s s'' := by
  induction hsecond with
  | refl => exact hfirst
  | step _ hguard hnext ih => exact .step ih hguard hnext

theorem Leads.unguarded (hleads : T.Leads guard s s') : T.Leads anyStep s s' := by
  induction hleads with
  | refl => exact .refl
  | step _ _ hnext ih => exact .step ih trivial hnext

/-- What every step from a reachable state keeps holds in every later state. -/
theorem Leads.invariant (Inv : σ → Prop)
    (hstep : ∀ s label s', T.Reachable guard s → Inv s → guard s label →
      T.step s label = some s' → Inv s')
    (hreach : T.Reachable guard s) (hleads : T.Leads guard s s') (hinv : Inv s) : Inv s' := by
  induction hleads with
  | refl => exact hinv
  | step hprev hguard hnext ih =>
      exact hstep _ _ _ (hprev.reachable hreach) ih hguard hnext

/-- Execute a list of labels; `none` when one is not enabled or violates the
guard. -/
def run (T : TransitionSystem σ ι) (check : σ → ι → Bool) : σ → List ι → Option σ
  | s, [] => some s
  | s, label :: rest =>
      if check s label then (T.step s label).bind fun s' => T.run check s' rest else none

theorem Reachable.run {check : σ → ι → Bool} {labels : List ι}
    (hreach : T.Reachable (fun s label => check s label = true) s)
    (hrun : T.run check s labels = some s') :
    T.Reachable (fun s label => check s label = true) s' := by
  induction labels generalizing s with
  | nil =>
      cases hrun
      exact hreach
  | cons label rest ih =>
      simp only [TransitionSystem.run] at hrun
      split at hrun
      · next hcheck =>
          obtain ⟨next, hstep, hrest⟩ := Option.bind_eq_some_iff.mp hrun
          exact ih (.step hreach hcheck hstep) hrest
      · cases hrun

/-- The state after a list of labels; the start when they cannot be executed. -/
def after (T : TransitionSystem σ ι) (check : σ → ι → Bool) (s : σ) (labels : List ι) : σ :=
  (T.run check s labels).getD s

theorem Reachable.after {check : σ → ι → Bool}
    (hreach : T.Reachable (fun s label => check s label = true) s) (labels : List ι) :
    T.Reachable (fun s label => check s label = true) (T.after check s labels) := by
  unfold TransitionSystem.after
  cases hrun : T.run check s labels with
  | none => exact hreach
  | some s' => exact hreach.run hrun

theorem Leads.run {check : σ → ι → Bool} {labels : List ι}
    (hrun : T.run check s labels = some s') :
    T.Leads (fun s label => check s label = true) s s' := by
  induction labels generalizing s with
  | nil =>
      cases hrun
      exact .refl
  | cons label rest ih =>
      simp only [TransitionSystem.run] at hrun
      split at hrun
      · next hcheck =>
          obtain ⟨next, hstep, hrest⟩ := Option.bind_eq_some_iff.mp hrun
          exact Leads.trans (.step .refl hcheck hstep) (ih hrest)
      · cases hrun

theorem Leads.after (check : σ → ι → Bool) (s : σ) (labels : List ι) :
    T.Leads (fun s label => check s label = true) s (T.after check s labels) := by
  unfold TransitionSystem.after
  cases hrun : T.run check s labels with
  | none => exact .refl
  | some s' => exact .run hrun

/-- A concrete system whose steps are steps of an abstract one or leave the
abstract state unchanged. -/
structure Refinement (C : TransitionSystem σ ι) (A : TransitionSystem τ κ) where
  abs : σ → τ
  /-- The abstract label of a concrete step; `none` for a stutter. -/
  label : σ → ι → Option κ
  initial : ∀ s, C.Initial s → A.Initial (abs s)
  stutter : ∀ s i s', C.step s i = some s' → label s i = none → abs s' = abs s
  simulate : ∀ s i s' k, C.step s i = some s' → label s i = some k →
    A.step (abs s) k = some (abs s')

/-- Guarded runs of the concrete system are guarded runs of the abstract one,
when the concrete guard implies the abstract guard at every visible step. -/
theorem Refinement.reachable {C : TransitionSystem σ ι} {A : TransitionSystem τ κ}
    (R : Refinement C A) {guardC : σ → ι → Prop} {guardA : τ → κ → Prop}
    (hguard : ∀ s i k, guardC s i → R.label s i = some k → guardA (R.abs s) k)
    (hreach : C.Reachable guardC s) : A.Reachable guardA (R.abs s) := by
  induction hreach with
  | initial h => exact .initial (R.initial _ h)
  | @step s s' i _ hg hstep ih =>
      cases hlabel : R.label s i with
      | none =>
          rw [R.stutter s i s' hstep hlabel]
          exact ih
      | some k =>
          exact .step ih (hguard s i k hg hlabel) (R.simulate s i s' k hstep hlabel)

/-- The system with a component beside its state that every step updates and no
step depends on. -/
def instrument (T : TransitionSystem σ ι) (start : τ) (update : σ → ι → τ → τ) :
    TransitionSystem (σ × τ) ι where
  Initial s := T.Initial s.1 ∧ s.2 = start
  step s label := (T.step s.1 label).map fun s' => (s', update s.1 label s.2)

theorem instrument_step {start : τ} {update : σ → ι → τ → τ} {s s' : σ × τ} {label : ι}
    (h : (T.instrument start update).step s label = some s') :
    T.step s.1 label = some s'.1 ∧ s'.2 = update s.1 label s.2 := by
  obtain ⟨next, hnext, rfl⟩ := Option.map_eq_some_iff.mp h
  exact ⟨hnext, rfl⟩

/-- The runs of the instrumented system are runs of the system. -/
theorem Reachable.of_instrument {start : τ} {update : σ → ι → τ → τ} {s : σ × τ}
    (hreach : (T.instrument start update).Reachable (fun s label => guard s.1 label) s) :
    T.Reachable guard s.1 := by
  induction hreach with
  | initial h => exact .initial h.1
  | step _ hguard hnext ih => exact .step ih hguard (instrument_step hnext).1

end TransitionSystem

end QhpcEcosystem
