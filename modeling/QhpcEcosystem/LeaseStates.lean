/-
Attempts with and without a lease.  A live attempt that no worker holds can be
claimed, as long as a lease is only released once the attempt has a handle or is
being submitted.
-/
import QhpcEcosystem.AttemptChange

namespace QhpcEcosystem

/-- A lease has an expiration, a submitted attempt is in one of the states that
follow a submission, and a live one that no worker holds can be claimed. -/
structure Attempt.Reclaims (row : Attempt) : Prop where
  expires : row.leaseToken ≠ none → row.leaseExpiresAt ≠ none
  submitted : row.state.live = true → row.targetHandle ≠ none →
    row.state ∈ [.submitted, .running, .collecting, .cancelRequested]
  unleased : row.state.live = true → row.leaseToken = none → row.recoverable = true

/-- `claim_task` considers the attempt. -/
def Db.Claimable (db : Db) (attempt : Attempt) : Prop :=
  ∃ row ∈ db.recoverableAttempts, row.attempt = attempt

theorem Db.Integrity.claimable {db : Db} (h : db.Integrity) {attempt : Attempt}
    (hattempt : attempt ∈ db.taskAttempts.rows) (hrecoverable : attempt.recoverable = true) :
    db.Claimable attempt := by
  obtain ⟨task, htask, -⟩ := h.attemptTask attempt hattempt
  obtain ⟨run, hrun⟩ := h.taskRun task (Table.mem_of_row? htask)
  have hjoin : db.join? attempt = some ⟨attempt, task, run⟩ := by
    simp [Db.join?, htask, hrun]
  exact ⟨⟨attempt, task, run⟩,
    mem_recoverableAttempts.mpr ⟨hattempt, hrecoverable, hjoin⟩, rfl⟩

namespace Attempt.Reclaims

variable {row : Attempt}

/-- A live attempt under a lease. -/
theorem leased (hexpires : row.leaseExpiresAt ≠ none) (htoken : row.leaseToken ≠ none)
    (hsubmitted : row.targetHandle ≠ none →
      row.state ∈ [.submitted, .running, .collecting, .cancelRequested]) : row.Reclaims where
  expires _ := hexpires
  submitted _ := hsubmitted
  unleased _ hnone := absurd hnone htoken

theorem fresh (id token : Uuid) (workerId : String) (now expires : Time) (task : Task) :
    (freshAttempt id token workerId now expires task).Reclaims :=
  leased (by simp [freshAttempt]) (by simp [freshAttempt]) fun hsome => absurd rfl hsome

/-- A live attempt that was submitted and has lost its lease. -/
theorem unheld (hnone : row.leaseToken = none) (hhandle : row.targetHandle ≠ none)
    (hstate : row.state ∈ [.submitted, .running, .collecting, .cancelRequested]) :
    row.Reclaims where
  expires htoken := absurd hnone htoken
  submitted _ _ := hstate
  unleased _ _ := by
    obtain ⟨handle, hhandle⟩ := Option.ne_none_iff_exists'.mp hhandle
    simp only [Attempt.recoverable, hnone, hhandle, Option.isNone_none, Bool.true_and]
    exact decide_eq_true hstate

/-- An attempt without a handle that has lost its lease while it was being
submitted. -/
theorem submitting (hnone : row.leaseToken = none) (hhandle : row.targetHandle = none)
    (hstate : row.state = .submitting) : row.Reclaims where
  expires htoken := absurd hnone htoken
  submitted _ hsome := absurd hhandle hsome
  unleased _ _ := by simp [Attempt.recoverable, hnone, hhandle, hstate]

theorem ended (hnone : row.leaseToken = none) (hended : row.state.live = false) :
    row.Reclaims where
  expires htoken := absurd hnone htoken
  submitted hlive := by simp [hended] at hlive
  unleased hlive := by simp [hended] at hlive

/-- The loss of the lease of an attempt with a handle or in submitting. -/
theorem withoutLease (h : row.Reclaims)
    (htarget : row.targetHandle ≠ none ∨ row.state = .submitting) :
    row.withoutLease.Reclaims := by
  by_cases hlive : row.state.live = true
  · by_cases hhandle : row.targetHandle = none
    · exact submitting rfl hhandle (htarget.resolve_left (not_not_intro hhandle))
    · exact unheld rfl hhandle (h.submitted hlive hhandle)
  · have hended : row.state.live = false := by simpa using hlive
    exact ended rfl hended

theorem expiry_keepTarget {expired : ExpiredLease} {row : Attempt}
    (hattempt : expired.attempt = some row) (h : expired.expiry = .keepTarget) :
    row.targetHandle ≠ none ∨ row.state = .submitting := by
  unfold ExpiredLease.expiry at h
  split at h
  · cases h
  · split at h
    · next htarget =>
        simp only [hattempt, Option.any_some, Bool.or_eq_true, decide_eq_true_eq] at htarget
        exact htarget.imp_left fun hsome => Option.isSome_iff_ne_none.mp hsome
    · cases h

/-- The sweep keeps the target of an attempt that was submitted or is being
submitted, and then the attempt can be claimed. -/
theorem sweep {db : Db} (h : row.Reclaims) (hrow : row ∈ db.taskAttempts.rows)
    (now : Time) : ((db.sweepAttempt now).apply row).Reclaims := by
  simp only [Db.sweepAttempt]
  split
  · next expired hexpired =>
      cases hexpiry : expired.expiry with
      | closeCanceled => exact ended rfl rfl
      | reopen => exact ended rfl rfl
      | keepTarget =>
          obtain ⟨hattempt, -⟩ := expiredAttempt?_spec hrow hexpired
          exact h.withoutLease (expiry_keepTarget hattempt hexpiry)
  · exact h

/-- Every change keeps the states, when leases are released only with a handle
or in submitting. -/
theorem change {db : Db} {now : Time} {operation : Operation} {row' : Attempt}
    (h : row.Reclaims) (hrow : row ∈ db.taskAttempts.rows) (htokens : db.Tokens)
    (hchange : db.AttemptChange now operation row row')
    (hrelease : ∀ lease, operation = .releaseLease lease → db.Holds lease row →
      row.targetHandle ≠ none ∨ row.state = .submitting) : row'.Reclaims := by
  have hheld : ∀ {lease : TaskLease}, db.Leased lease row →
      row.leaseToken ≠ none ∧ row.leaseExpiresAt ≠ none := by
    intro lease hleased
    have htoken : row.leaseToken ≠ none := by simp [hleased.token]
    exact ⟨htoken, h.expires htoken⟩
  cases hchange with
  | kept => exact h
  | renewed hholds =>
      obtain ⟨htoken, -⟩ := hheld hholds.toLeased
      exact leased (by simp [Attempt.renew]) htoken
        (h.submitted (htokens.held_live hholds.toLeased))
  | marked hholds hstate =>
      obtain ⟨htoken, hexpires⟩ := hheld hholds.toLeased
      refine leased hexpires htoken fun hsome => ?_
      -- an attempt with a handle is past its submission
      have hsubmitted := h.submitted (htokens.held_live hholds.toLeased) hsome
      rcases hstate with hstate | hstate <;> simp [hstate] at hsubmitted
  | @recorded _ _ _ _ _ target hholds _ =>
      obtain ⟨htoken, hexpires⟩ := hheld hholds.toLeased
      refine leased hexpires htoken fun _ => ?_
      simp only [Attempt.submit]
      split
      · simp
      · cases target <;> simp [submittedState]
  | @observed _ _ _ _ target hholds _ =>
      obtain ⟨htoken, hexpires⟩ := hheld hholds.toLeased
      refine leased hexpires htoken fun hsome => ?_
      have hstate := h.submitted (htokens.held_live hholds.toLeased) hsome
      cases target with
      | queued => simp [Attempt.observe, observedState]
      | running => simp [Attempt.observe, observedState]
      | succeeded => simp [Attempt.observe, observedState]
      | failed => exact hstate
      | canceled => exact hstate
      | unknown => exact hstate
  | released hholds => exact h.withoutLease (hrelease _ rfl hholds)
  | markedCanceled _ => exact ended rfl rfl
  | completed _ _ _ _ => exact ended rfl rfl
  | failed _ _ _ _ => exact ended rfl rfl
  | @expired workerId leaseSeconds admission _ expired hexpired =>
      have hswept := h.sweep hrow now
      simp only [Db.sweepAttempt, hexpired] at hswept
      exact hswept
  | recovered hrecoverable =>
      have hswept := h.sweep hrow now
      have hlive := Attempt.live_of_recoverable _ hrecoverable
      exact leased (by simp [Attempt.lease]) (by simp [Attempt.lease])
        (hswept.submitted hlive)
  | requested _ _ hselected =>
      have hselected : row.state ∈ [.leased, .submitted, .running, .collecting,
          .cancelRequested] := by
        simp only [Attempt.selectedForCancel, Bool.and_eq_true, decide_eq_true_eq]
          at hselected
        exact hselected.2
      simp only [Attempt.requestCancel]
      split
      · next hsome => exact unheld rfl (Option.isSome_iff_ne_none.mp hsome) (by simp)
      · next hnone =>
          have hnone : row.targetHandle = none := by simpa using hnone
          have hlive : row.state.live = true := by
            simp only [List.mem_cons, List.not_mem_nil, or_false] at hselected
            rcases hselected with hstate | hstate | hstate | hstate | hstate <;>
              rw [hstate] <;> rfl
          refine ⟨h.expires, fun _ hsome => absurd hnone hsome, fun _ htoken => ?_⟩
          -- without a lease and a handle the attempt would be in submitting
          have hrecoverable := h.unleased hlive htoken
          have htoken : row.leaseToken = none := htoken
          simp only [Attempt.recoverable, htoken, hnone, Option.isNone_none, Bool.true_and,
            decide_eq_true_eq] at hrecoverable
          simp [hrecoverable] at hselected

end Attempt.Reclaims

end QhpcEcosystem
