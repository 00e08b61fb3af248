/-
When the sweep of `claim_task` takes a lease back.  It compares the written instants,
and their texts follow the instants unless both lie in one second and one of them is
the whole second: then the sweep takes a lease before it has expired, or keeps one
that has.
-/
import QhpcEcosystem.Engine

namespace QhpcEcosystem

/-- The lease of a task expires at an instant: its row and the row of its current
attempt carry no other. -/
structure Db.LeaseExpires (db : Db) (task : Task) (expires : Time) : Prop where
  ofTask : task.leaseExpiresAt = some expires
  ofAttempt : ∀ row, db.numberedAttempt? task.runId task.nodeId task.attempt = some row →
    row.leaseExpiresAt = none ∨ row.leaseExpiresAt = some expires

/-- The comparison of the sweep is the one of the written instants. -/
theorem lapsed_isoformat (expires now : DateTime) :
    lapsed now.instant (some expires.instant) = true ↔
      textLt expires.isoformat now.isoformat = true :=
  (expires.textLt_isoformat now).symm

/-- The sweep finds a running task exactly when its lease has lapsed. -/
theorem Db.LeaseExpires.expired_iff {db : Db} {run : Run} {task : Task} {expires : Time}
    (h : db.LeaseExpires task expires) (hrun : db.run? task.runId = some run)
    (hrunning : task.state = .running) (now : Time) :
    (db.expiredLease? now task).isSome = true ↔ lapsed now (some expires) = true := by
  have hattempt : (db.numberedAttempt? task.runId task.nodeId task.attempt).any
      (fun row => lapsed now row.leaseExpiresAt) = true → lapsed now (some expires) = true := by
    intro hany
    obtain ⟨row, hrow, hlapsed⟩ := (Option.any_eq_true _ _).mp hany
    rcases h.ofAttempt row hrow with hnone | hsome
    · rw [hnone] at hlapsed
      cases hlapsed
    · rwa [hsome] at hlapsed
  simp only [Db.expiredLease?, hrun, hrunning, h.ofTask, decide_true, Bool.true_or, Bool.and_true]
  split
  · next hlapsed =>
      rw [Bool.or_eq_true] at hlapsed
      simpa using hlapsed.elim id hattempt
  · next hlapsed =>
      rw [Bool.or_eq_true, not_or] at hlapsed
      simpa using hlapsed.1

/-- 0001-01-01T00:05 and a number of microseconds. -/
def fiveMinutes (microsecond : Nat) (h : microsecond < 1000000) : DateTime where
  year := 1
  month := 1
  day := 1
  hour := 0
  minute := 5
  second := 0
  microsecond := microsecond
  year_pos := by decide
  year_le := by decide
  month_pos := by decide
  month_le := by decide
  day_pos := by decide
  day_le := by decide
  hour_lt := by decide
  minute_lt := by decide
  second_lt := by decide
  microsecond_lt := h

example : (fiveMinutes 700000 (by decide)).isoformat =
    "0001-01-01T00:05:00.700000Z".toList := by decide

/-- The sample run after a claim with a lease of 300 seconds. -/
def sampleLeased (now : Time) : Db :=
  engine.after (fun _ _ => true) {} (sampleSubmission ++ [(sampleClaim "w1", now)])

theorem sampleLeased_reachable (now : Time) :
    engine.Reachable TransitionSystem.anyStep (sampleLeased now) := by
  have hempty : engine.Reachable (fun _ _ => true = true) {} := .initial rfl
  exact (hempty.after _).unguarded

/-- The task of node "a" holds the lease of that claim. -/
theorem sampleLeased_task (now : Time) (expires : DateTime)
    (hrun : ((sampleLeased now).run? 0).isSome = true)
    (htask : ((sampleLeased now).task? 0 "a").map
      (fun task => (task.runId, task.nodeId, task.attempt, task.state, task.leaseExpiresAt)) =
        some (0, "a", 1, .running, some expires.instant))
    (hattempt : ((sampleLeased now).numberedAttempt? 0 "a" 1).map Attempt.leaseExpiresAt =
      some (some expires.instant)) :
    ∃ run task, (sampleLeased now).task? 0 "a" = some task ∧
      (sampleLeased now).run? task.runId = some run ∧ task.state = .running ∧
      (sampleLeased now).LeaseExpires task expires.instant := by
  obtain ⟨run, hrun⟩ := Option.isSome_iff_exists.mp hrun
  obtain ⟨task, hfound, hfields⟩ := Option.map_eq_some_iff.mp htask
  simp only [Prod.mk.injEq] at hfields
  obtain ⟨hrunId, hnodeId, hnumber, hstate, hexpires⟩ := hfields
  refine ⟨run, task, hfound, by rw [hrunId, hrun], hstate, hexpires, fun row hrow => ?_⟩
  rw [hrunId, hnodeId, hnumber] at hrow
  rw [hrow] at hattempt
  exact .inr (Option.some.inj hattempt)

end QhpcEcosystem
