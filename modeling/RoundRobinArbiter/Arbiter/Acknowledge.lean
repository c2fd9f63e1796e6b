import RoundRobinArbiter.Arbiter.Access

namespace RoundRobinArbiter

open Synchronous

/-- A host sees a non-zero acknowledge only in its own ACK state. -/
def Routed (s : Arbiter p) : Prop := ∀ h, s.ack h ≠ 0 → s.acking h = true

/-- The device answers every access at one of its first `2 ^ TW - 3` edges. -/
def Answered (inputs : Nat → Inputs p) : Prop :=
  ∀ edge h, Arbiter.grantAt inputs edge = some h →
    ∃ k, k + 3 < 2 ^ p.tw ∧ (inputs (edge + 1 + k)).ackBus = true

theorem timeoutD_succ (inputs : Nat → Inputs p) (cycle : Nat) :
    (Arbiter.run inputs (cycle + 1)).timeoutD = (Arbiter.run inputs cycle).timeout := rfl

theorem limit_eq {p : Params} (wide : 2 ≤ p.tw) : 2 ≤ p.limit ∧ p.limit + 2 = 2 ^ p.tw := by
  have four : 2 ^ 2 ≤ 2 ^ p.tw := Nat.pow_le_pow_right (by decide) wide
  rw [Params.limit]
  omega

theorem Refines.counts_on (positive : 0 < p.limit) {s : Arbiter p}
    (refines : Refines s (.access h held elapsed)) :
    (s.posedge i true).timeoutCnt.toNat = elapsed.val + 1 := by
  have power : p.limit = 2 ^ p.tw - 2 := rfl
  have counted := refines.counts h held elapsed rfl
  have bound := elapsed.isLt
  rw [Arbiter.timeoutCnt_counts refines.stm (by omega), counted]

theorem Refines.timeout_next (positive : 0 < p.limit) {s : Arbiter p} {a : Service p}
    (refines : Refines s a) (fires : (s.posedge i true).timeout = true) :
    ∃ h held elapsed, a = .access h held elapsed ∧ elapsed.val + 1 = p.limit := by
  rw [Arbiter.timeout_eq] at fires
  cases ready : a.ready with
  | true =>
    have zero : (0 : BitVec p.tw).toNat = 0 := BitVec.toNat_zero
    rw [Arbiter.timeoutCnt_ready refines.stm ((Service.stm_ready a).trans ready), zero] at fires
    omega
  | false =>
    obtain ⟨h, held, elapsed, rfl⟩ := Service.access_of_not_ready ready
    exact ⟨h, held, elapsed, rfl, (refines.counts_on positive).symm.trans fires⟩

theorem Refines.cleared {s : Arbiter p} {a : Service p} (refines : Refines s a)
    (resting : (s.posedge i true).astmStm = astmIdle) : (s.posedge i true).timeoutCnt = 0 := by
  have situation := ((refines.step i).stm_eq_iff .idle).mp resting
  cases ready : a.ready with
  | true => exact Arbiter.timeoutCnt_ready refines.stm ((Service.stm_ready a).trans ready)
  | false =>
    have edge := Service.edge i a
    generalize a.step i = after at edge situation
    cases edge with
    | proceed waits within => cases situation
    | finish ends => cases situation
    | grant legal chosen => cases ready.symm.trans legal
    | forget legal last alone => cases ready.symm.trans legal
    | rest legal silent => cases ready.symm.trans legal

theorem timeoutCnt_idle {s : Arbiter p} (reached : (Arbiter.machine p).Reachable s)
    (resting : s.astmStm = astmIdle) : s.timeoutCnt = 0 := by
  cases reached with
  | init => rfl
  | @step earlier i before =>
    obtain ⟨a, refines⟩ := (refinement p).reachable before
    exact refines.cleared resting

/-- The timeout fires only one cycle behind the last but one that an access can have. -/
theorem timeout_late (positive : 0 < p.limit) {inputs : Nat → Inputs p}
    (fires : (Arbiter.run inputs cycle).timeout = true) :
    ∃ earlier h held elapsed, cycle = earlier + 1 ∧
      Service.run inputs earlier = .access h held elapsed ∧ elapsed.val + 1 = p.limit := by
  cases cycle with
  | zero =>
    have zero : 0 = p.limit := (Arbiter.timeout_eq _).mp fires
    omega
  | succ cycle =>
    obtain ⟨h, held, elapsed, running, late⟩ :=
      (refines_run inputs cycle).timeout_next positive fires
    exact ⟨cycle, h, held, elapsed, rfl, running, late⟩

private theorem timeoutD_of_unanswered (wide : 2 ≤ p.tw) {inputs : Nat → Inputs p}
    (granted : Arbiter.grantAt inputs edge = some h)
    (silent : ∀ k, k + 3 < 2 ^ p.tw → (inputs (edge + 1 + k)).ackBus = false) :
    ∃ cycle, (Arbiter.run inputs cycle).timeoutD = true := by
  obtain ⟨positive, power⟩ := limit_eq wide
  rw [grantAt_eq] at granted
  obtain ⟨now, count, running⟩ := Service.access_runs_on (Service.grantFrom_access granted)
    (p.limit - 1) (by simp) (fun k below => silent k (by omega))
  have late : now.val + 1 = p.limit := by
    rw [count]
    simp only [Fin.val_zero]
    omega
  have refines := refines_run inputs (edge + 1 + (p.limit - 1))
  rw [show Service.run inputs _ = _ from running] at refines
  have next : (Arbiter.run inputs (edge + 1 + (p.limit - 1) + 1)).timeoutCnt.toNat =
      now.val + 1 := refines.counts_on (by omega)
  refine ⟨edge + 1 + (p.limit - 1) + 2, ?_⟩
  rw [timeoutD_succ, Arbiter.timeout_eq, next, late]

theorem not_routed_of_timeoutD {s : Arbiter p} {a : Service p} (refines : Refines s a)
    (raised : s.timeoutD = true) : ¬Routed s := by
  intro routed
  have own : ∀ h, a = .ack h := by
    intro h
    refine refines.acking_iff.mp (routed h ((s.ack_ne_zero_iff h).mpr (.inr ?_)))
    rw [Arbiter.ack_timeout, raised]
  have master := own .master
  rw [own .slave] at master
  cases master

/-- The acknowledges of a run are routed to the host in its ACK state and to
nobody else exactly when the device answers every access in time. -/
theorem routed_iff_answered (wide : 2 ≤ p.tw) (inputs : Nat → Inputs p) :
    (∀ cycle, Routed (Arbiter.run inputs cycle)) ↔ Answered inputs := by
  constructor
  · intro routed edge h granted
    by_contra late
    obtain ⟨cycle, raised⟩ := timeoutD_of_unanswered wide granted (by
      intro k inside
      by_contra answer
      exact late ⟨k, inside, by simpa using answer⟩)
    exact not_routed_of_timeoutD (refines_run inputs cycle) raised (routed cycle)
  · intro answered cycle h shows
    rcases (Arbiter.ack_ne_zero_iff _ h).mp shows with completes | times
    · exact (refines_run inputs cycle).completion_iff.mp completes
    · rw [Arbiter.ack_timeout] at times
      cases cycle with
      | zero => cases times
      | succ cycle =>
        obtain ⟨positive, power⟩ := limit_eq wide
        obtain ⟨_, _, _, _, _, running, late⟩ := timeout_late (by omega) times
        obtain ⟨edge, _, granted, _, waited⟩ := Service.access_granted running
        rw [← grantAt_eq] at granted
        obtain ⟨k, inside, answer⟩ := answered edge _ granted
        have silent := waited k (by omega)
        rw [answer] at silent
        cases silent

/-- A counter of two bits: an access has at most three cycles. -/
def Params.narrow : Params := ⟨32, 32, 4, 2⟩

theorem routed_iff_answered_narrow :
    (∀ cycle, Routed (Arbiter.run (fun _ => .reads [.slave] true) cycle : Arbiter .narrow)) ↔
      Answered (fun _ => .reads [.slave] true : Nat → Inputs .narrow) :=
  routed_iff_answered (by decide) (fun _ => .reads [.slave] true)

/-- The Slave's access times out and the Master, which never requested, sees it. -/
theorem master_sees_timeout :
    ¬∀ (inputs : Nat → Inputs .narrow) (cycle : Nat), Routed (Arbiter.run inputs cycle) := by
  intro routed
  have own := routed (fun _ => .reads [.slave] false) 4 .master (by decide)
  exact absurd own (by decide)

end RoundRobinArbiter
