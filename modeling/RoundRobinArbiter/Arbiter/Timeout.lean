import RoundRobinArbiter.Arbiter.Acknowledge

/-! The timeout counter and its flag. The counter follows the cycles of one access
and the flag says how long the access was, but for a device that answers at one of
the last two edges: there the counter still runs, or has already run out. -/

namespace RoundRobinArbiter

open Synchronous

/-- The access granted to `h` at `edge` has `length` cycles. -/
structure Lasts (inputs : Nat → Inputs p) (edge : Nat) (h : Host) (length : Nat) : Prop where
  granted : Arbiter.grantAt inputs edge = some h
  runs : ∀ k < length, (Arbiter.run inputs (edge + 1 + k)).accessing h = true
  ends : (Arbiter.run inputs (edge + 1 + length)).acking h = true

/-- The first answer to the access granted at `edge` comes in its cycle `k`, counted
from 0. -/
def AnsweredFirstAt (inputs : Nat → Inputs p) (edge k : Nat) : Prop :=
  (∀ j < k, (inputs (edge + 1 + j)).ackBus = false) ∧ (inputs (edge + 1 + k)).ackBus = true

section Cycles

variable {inputs : Nat → Inputs p} {h : Host} {edge length : Nat}

theorem Arbiter.grantAt_access (granted : Arbiter.grantAt inputs edge = some h) :
    Service.run inputs (edge + 1) = .access h ((inputs edge).host h).request 0 := by
  rw [grantAt_eq] at granted
  exact Service.grantFrom_access granted

private theorem running_since (granted : Arbiter.grantAt inputs edge = some h) (k : Nat)
    (busy : ∀ j ≤ k, (Arbiter.run inputs (edge + 1 + j)).busy = true) :
    (∃ now : Fin (p.limit + 1), now.val = k ∧
      Service.run inputs (edge + 1 + k) = .access h ((inputs edge).host h).request now) ∧
    ∀ j < k, (inputs (edge + 1 + j)).ackBus = false := by
  have running := Arbiter.grantAt_access granted
  obtain ⟨⟨now, count, still⟩, waited⟩ := Service.access_counts running k (by
    intro j below
    have active := busy j below
    rw [(refines_run inputs _).busy, Bool.not_eq_true'] at active
    exact active)
  exact ⟨⟨now, count.trans (Nat.zero_add k), still⟩, waited⟩

private theorem busy_of_accessing {s : Arbiter p} {a : Service p} (refines : Refines s a)
    (running : s.accessing h = true) : s.busy = true := by
  obtain ⟨held, elapsed, rfl⟩ := refines.accessing_iff.mp running
  exact refines.busy

theorem Lasts.cycle (lasts : Lasts inputs edge h length) (below : k < length) :
    (∃ now : Fin (p.limit + 1), now.val = k ∧
      Service.run inputs (edge + 1 + k) = .access h ((inputs edge).host h).request now) ∧
    ∀ j < k, (inputs (edge + 1 + j)).ackBus = false := by
  refine running_since lasts.granted k ?_
  intro j within
  exact busy_of_accessing (refines_run inputs _) (lasts.runs j (by omega))

/-- The last cycle of an access: the only one that can be answered, and the last one
the timeout allows if it is not. -/
theorem Lasts.last (lasts : Lasts inputs edge h length) :
    ∃ last, length = last + 1 ∧
      (∃ now : Fin (p.limit + 1), now.val = last ∧
        Service.run inputs (edge + 1 + last) = .access h ((inputs edge).host h).request now) ∧
      (∀ j < last, (inputs (edge + 1 + j)).ackBus = false) ∧
      ((inputs (edge + 1 + last)).ackBus = true ∨ last = p.limit) := by
  have acked := (refines_run inputs _).acking_iff.mp lasts.ends
  cases length with
  | zero => cases (Arbiter.grantAt_access lasts.granted).symm.trans acked
  | succ last =>
    obtain ⟨⟨now, count, running⟩, waited⟩ := lasts.cycle (Nat.lt_succ_self last)
    refine ⟨last, rfl, ⟨now, count, running⟩, waited, ?_⟩
    rcases Service.access_next running with ⟨_, _, _, _, after⟩ | ⟨stops, _⟩
    · cases after.symm.trans acked
    · exact stops.imp_right count.symm.trans

private theorem lasts_of_grant (granted : Arbiter.grantAt inputs edge = some h) :
    ∃ length, Lasts inputs edge h length := by
  obtain ⟨finish, later, _, acked, own⟩ := Service.access_ends (Arbiter.grantAt_access granted)
  obtain ⟨length, rfl⟩ := Nat.exists_eq_add_of_lt later
  refine ⟨length + 1, granted, ?_, (refines_run inputs _).acking_iff.mpr acked⟩
  intro k below
  obtain ⟨count, running⟩ := own (edge + 1 + k) (Nat.le_add_right _ _) (by omega)
  exact (refines_run inputs _).accessing_iff.mpr ⟨_, count, running⟩

private theorem counts_since (granted : Arbiter.grantAt inputs edge = some h) (k : Nat)
    (busy : ∀ j ≤ k, (Arbiter.run inputs (edge + 1 + j)).busy = true) :
    (Arbiter.run inputs (edge + 1 + k)).timeoutCnt.toNat = k ∧ k ≤ p.limit := by
  obtain ⟨⟨now, count, running⟩, _⟩ := running_since granted k busy
  have refines := refines_run inputs (edge + 1 + k)
  rw [running] at refines
  have bound := now.isLt
  rw [refines.counts _ _ _ rfl]
  omega

theorem Lasts.length_le (lasts : Lasts inputs edge h length) : length ≤ p.limit + 1 := by
  obtain ⟨last, rfl, ⟨now, count, _⟩, _⟩ := lasts.last
  have bound := now.isLt
  omega

theorem Lasts.full (lasts : Lasts inputs edge h length)
    (silent : ∀ k < length, (inputs (edge + 1 + k)).ackBus = false) : length = p.limit + 1 := by
  obtain ⟨last, rfl, _, _, stops⟩ := lasts.last
  rcases stops with answered | full
  · cases (silent last (Nat.lt_succ_self last)).symm.trans answered
  · rw [full]

/-- The flag tells an access of full length from a shorter one. -/
theorem Lasts.flag (lasts : Lasts inputs edge h length) :
    (Arbiter.run inputs (edge + 1 + length)).timeoutD = true ↔ length = p.limit + 1 := by
  obtain ⟨last, rfl, ⟨now, count, running⟩, _, _⟩ := lasts.last
  have refines := refines_run inputs (edge + 1 + last)
  rw [running] at refines
  rw [← Nat.add_assoc, timeoutD_succ, refines.timeout, count]
  omega

theorem AnsweredFirstAt.lasts (answered : AnsweredFirstAt inputs edge k)
    (granted : Arbiter.grantAt inputs edge = some h) (reached : k ≤ p.limit) :
    Lasts inputs edge h (k + 1) := by
  have reach : ∀ j ≤ k, ∃ now : Fin (p.limit + 1), now.val = j ∧
      Service.run inputs (edge + 1 + j) = .access h ((inputs edge).host h).request now := by
    intro j below
    obtain ⟨now, count, running⟩ := Service.access_runs_on (Arbiter.grantAt_access granted) j
      (by rw [Fin.val_zero]; omega) (fun i before => answered.1 i (by omega))
    exact ⟨now, count.trans (Nat.zero_add j), running⟩
  refine ⟨granted, ?_, ?_⟩
  · intro j below
    obtain ⟨now, _, running⟩ := reach j (Nat.le_of_lt_succ below)
    exact (refines_run inputs _).accessing_iff.mpr ⟨_, now, running⟩
  · obtain ⟨now, _, running⟩ := reach k (Nat.le_refl k)
    rcases Service.access_next running with ⟨waits, _⟩ | ⟨_, acked⟩
    · cases answered.2.symm.trans waits
    · exact (refines_run inputs _).acking_iff.mpr acked

/-- The counter stands at its limit in the last cycle an access can have, and behind
an access that was answered one edge before. -/
private theorem timeout_cases (wide : 2 ≤ p.tw) {inputs : Nat → Inputs p}
    (fires : (Arbiter.run inputs cycle).timeout = true) :
    (∃ h held elapsed, Service.run inputs cycle = .access h held elapsed ∧
        elapsed.val = p.limit) ∨
      ∃ edge h k, k + 1 = p.limit ∧ cycle = edge + 1 + k + 1 ∧
        Arbiter.grantAt inputs edge = some h ∧ AnsweredFirstAt inputs edge k := by
  cases ready : (Service.run inputs cycle).ready with
  | false =>
    obtain ⟨h, held, elapsed, running⟩ := Service.access_of_not_ready ready
    have refines := refines_run inputs cycle
    rw [running] at refines
    exact .inl ⟨h, held, elapsed, running, refines.timeout.mp fires⟩
  | true =>
    obtain ⟨positive, power⟩ := limit_eq wide
    -- the access behind the limit would run on, had it not been answered
    obtain ⟨earlier, h, held, elapsed, rfl, running, late⟩ := timeout_late (by omega) fires
    obtain ⟨edge, rfl, granted, _, waited⟩ := Service.access_granted running
    refine .inr ⟨edge, h, elapsed.val, late, rfl, ?_, waited, ?_⟩
    · rw [grantAt_eq]
      exact granted
    · rcases Service.access_next running with ⟨_, _, _, _, after⟩ | ⟨stops, _⟩
      · rw [show Service.run inputs _ = _ from after] at ready
        cases ready
      · exact stops.resolve_right (by omega)

/-- The flag is up in an ACK cycle, or one cycle behind that of an access that was answered
one edge before the timeout. -/
private theorem flag_cases (wide : 2 ≤ p.tw) {inputs : Nat → Inputs p}
    (raised : (Arbiter.run inputs cycle).timeoutD = true) :
    (∃ h, (Arbiter.run inputs cycle).acking h = true) ∨
      ∃ edge h k, k + 1 = p.limit ∧ Arbiter.grantAt inputs edge = some h ∧
        AnsweredFirstAt inputs edge k := by
  cases cycle with
  | zero => cases raised
  | succ cycle =>
    rw [timeoutD_succ] at raised
    rcases timeout_cases wide raised with ⟨h, held, elapsed, running, full⟩ |
      ⟨edge, h, k, late, _, granted, answered⟩
    · refine .inl ⟨h, (refines_run inputs _).acking_iff.mpr ?_⟩
      rcases Service.access_next running with ⟨_, within, _⟩ | ⟨_, acked⟩
      · omega
      · exact acked
    · exact .inr ⟨edge, h, k, late, granted, answered⟩

private theorem unsaturated_of_busy (positive : 0 < p.limit)
    (busy : (Arbiter.run inputs cycle).busy = true) :
    (Arbiter.run inputs cycle).timeoutCnt ≠ BitVec.allOnes p.tw := by
  intro full
  rw [(refines_run inputs cycle).busy, Bool.not_eq_true'] at busy
  obtain ⟨h, held, elapsed, running⟩ := Service.access_of_not_ready busy
  have refines := refines_run inputs cycle
  rw [running] at refines
  have counted := refines.counts h held elapsed rfl
  have bound := elapsed.isLt
  have power : p.limit = 2 ^ p.tw - 2 := rfl
  rw [full, BitVec.toNat_allOnes] at counted
  omega

/-- An answer one edge before the timeout leaves the counter at its limit in the ACK
cycle, and the flag up in the cycle behind it. -/
private theorem AnsweredFirstAt.flag_late (wide : 2 ≤ p.tw) {inputs : Nat → Inputs p}
    (answered : AnsweredFirstAt inputs edge k)
    (granted : Arbiter.grantAt inputs edge = some h) (late : k + 1 = p.limit) :
    (Arbiter.run inputs (edge + 1 + (k + 1) + 1)).timeoutD = true ∧
      ∀ g, (Arbiter.run inputs (edge + 1 + (k + 1) + 1)).acking g = false := by
  obtain ⟨_, power⟩ := limit_eq wide
  have lasts := answered.lasts granted (by omega)
  obtain ⟨⟨now, count, running⟩, _⟩ := lasts.cycle (Nat.lt_succ_self k)
  have refines := refines_run inputs (edge + 1 + k)
  rw [running] at refines
  have next : (Arbiter.run inputs (edge + 1 + (k + 1))).timeoutCnt.toNat = now.val + 1 :=
    refines.counts_on (by omega)
  constructor
  · rw [timeoutD_succ, Arbiter.timeout_eq, next]
    omega
  · intro g
    have acked := (refines_run inputs _).acking_iff.mp lasts.ends
    rw [← Bool.not_eq_true, (refines_run inputs _).acking_iff]
    exact Service.ack_once acked g

end Cycles

/-- The counter shows the cycles of the running access, and the flag those accesses
that ran as long as they can. -/
structure ExactTimeout (inputs : Nat → Inputs p) : Prop where
  counts : ∀ edge h, Arbiter.grantAt inputs edge = some h →
    ∀ k, (∀ j ≤ k, (Arbiter.run inputs (edge + 1 + j)).busy = true) →
      (Arbiter.run inputs (edge + 1 + k)).timeoutCnt.toNat = k ∧ k ≤ 2 ^ p.tw - 2
  idle : ∀ cycle, (Arbiter.run inputs cycle).astmStm = astmIdle →
    (Arbiter.run inputs cycle).timeoutCnt = 0
  flag : ∀ cycle, (Arbiter.run inputs cycle).timeoutD = true →
    ∃ h, (Arbiter.run inputs cycle).acking h = true
  flagged : ∀ edge h length, Lasts inputs edge h length →
    ((Arbiter.run inputs (edge + 1 + length)).timeoutD = true ↔ length = 2 ^ p.tw - 1)
  ends : ∀ edge h, Arbiter.grantAt inputs edge = some h →
    ∃ length, Lasts inputs edge h length ∧ length ≤ 2 ^ p.tw - 1
  unanswered : ∀ edge h length, Lasts inputs edge h length →
    (∀ k < length, (inputs (edge + 1 + k)).ackBus = false) → length = 2 ^ p.tw - 1
  unsaturated : ∀ cycle, (Arbiter.run inputs cycle).busy = true →
    (Arbiter.run inputs cycle).timeoutCnt ≠ BitVec.allOnes p.tw

/-- All of it holds unless some access is first answered one edge before the timeout. -/
theorem exactTimeout_iff (wide : 2 ≤ p.tw) (inputs : Nat → Inputs p) :
    ExactTimeout inputs ↔ ∀ edge h, Arbiter.grantAt inputs edge = some h →
      ¬AnsweredFirstAt inputs edge (2 ^ p.tw - 3) := by
  obtain ⟨positive, power⟩ := limit_eq wide
  constructor
  · intro exact_ edge h granted answered
    obtain ⟨raised, outside⟩ := answered.flag_late wide granted (by omega)
    obtain ⟨g, acked⟩ := exact_.flag _ raised
    cases (outside g).symm.trans acked
  · intro intime
    refine ⟨?_, fun _ => timeoutCnt_idle (Machine.reachable_run _ _ _), ?_, ?_, ?_, ?_, ?_⟩
    · intro edge h granted k busy
      exact counts_since granted k busy
    · intro cycle raised
      rcases flag_cases wide raised with acked | ⟨edge, h, k, late, granted, answered⟩
      · exact acked
      · have same : k = 2 ^ p.tw - 3 := by omega
        exact absurd (same ▸ answered) (intime edge h granted)
    · intro edge h length lasts
      rw [lasts.flag]
      omega
    · intro edge h granted
      obtain ⟨length, lasts⟩ := lasts_of_grant granted
      have bound := lasts.length_le
      exact ⟨length, lasts, by omega⟩
    · intro edge h length lasts silent
      have full := lasts.full silent
      omega
    · intro cycle busy
      exact unsaturated_of_busy (by omega) busy

/-- The Slave reads on and on from a device that answers at one edge. -/
def answerAt (edge : Nat) (cycle : Nat) : Inputs .narrow := .reads [.slave] (cycle == edge)

theorem exactTimeout_iff_answerAt : ExactTimeout (answerAt 1) ↔
    ∀ edge h, Arbiter.grantAt (answerAt 1) edge = some h →
      ¬AnsweredFirstAt (answerAt 1) edge (2 ^ Params.narrow.tw - 3) :=
  exactTimeout_iff (by decide) (answerAt 1)

/-- The access of cycles 1 and 2 is answered, and the flag rises in the idle cycle 4. -/
theorem flag_raised_idle : ¬∀ inputs : Nat → Inputs .narrow, ExactTimeout inputs := by
  intro holds
  obtain ⟨h, acked⟩ := (holds (answerAt 2)).flag 4 (by decide)
  cases h <;> exact absurd acked (by decide)

/-- The timeout bit of an ACK cycle tells whether the device was silent throughout the
access, and an answered access completes without it. -/
def TruthfulFlag (inputs : Nat → Inputs p) : Prop :=
  ∀ edge h length, Lasts inputs edge h length →
    ((((Arbiter.run inputs (edge + 1 + length)).ack h).getLsbD 1 = true ↔
        ∀ k < length, (inputs (edge + 1 + k)).ackBus = false) ∧
      ((∃ k < length, (inputs (edge + 1 + k)).ackBus = true) →
        (Arbiter.run inputs (edge + 1 + length)).ack h = 0b01#2))

private theorem ack_eq_one {s : Arbiter p} {a : Service p} (refines : Refines s a)
    (acked : s.acking h = true) (intime : s.timeoutD = false) : s.ack h = 0b01#2 := by
  have low := refines.completion_iff.mpr acked
  have high := s.ack_timeout h
  rw [intime] at high
  generalize s.ack h = lines at low high
  revert lines
  decide

/-- The flag is truthful unless some access is first answered at the edge of the timeout. -/
theorem truthfulFlag_iff (wide : 2 ≤ p.tw) (inputs : Nat → Inputs p) :
    TruthfulFlag inputs ↔ ∀ edge h, Arbiter.grantAt inputs edge = some h →
      ¬AnsweredFirstAt inputs edge (2 ^ p.tw - 2) := by
  obtain ⟨positive, power⟩ := limit_eq wide
  constructor
  · intro truthful edge h granted answered
    have full : 2 ^ p.tw - 2 = p.limit := rfl
    rw [full] at answered
    have lasts := answered.lasts granted (Nat.le_refl _)
    have raised := lasts.flag.mpr rfl
    rw [← Arbiter.ack_timeout _ h, (truthful edge h _ lasts).1] at raised
    cases (raised p.limit (Nat.lt_succ_self _)).symm.trans answered.2
  · intro intime edge h length lasts
    obtain ⟨last, same, _, waited, _⟩ := lasts.last
    have flag := lasts.flag
    have silent : (∀ k < length, (inputs (edge + 1 + k)).ackBus = false) ↔
        length = p.limit + 1 := by
      constructor
      · exact lasts.full
      · intro full k below
        have end_ : last = 2 ^ p.tw - 2 := by omega
        rcases Nat.eq_or_lt_of_le (show k ≤ last by omega) with here | earlier
        · by_contra answer
          rw [Bool.not_eq_false] at answer
          exact intime edge h lasts.granted (end_ ▸ ⟨waited, here ▸ answer⟩)
        · exact waited k earlier
    refine ⟨?_, ?_⟩
    · rw [Arbiter.ack_timeout, flag, silent]
    · rintro ⟨k, below, answered⟩
      refine ack_eq_one (refines_run inputs _) lasts.ends ?_
      rw [← Bool.not_eq_true, flag, ← silent]
      intro unanswered
      cases (unanswered k below).symm.trans answered

theorem truthfulFlag_iff_answerAt : TruthfulFlag (answerAt 1) ↔
    ∀ edge h, Arbiter.grantAt (answerAt 1) edge = some h →
      ¬AnsweredFirstAt (answerAt 1) edge (2 ^ Params.narrow.tw - 2) :=
  truthfulFlag_iff (by decide) (answerAt 1)

/-- The access of cycles 1 to 3 is answered in its last cycle and reported as timed out. -/
theorem answered_and_flagged : ¬∀ inputs : Nat → Inputs .narrow, TruthfulFlag inputs := by
  intro holds
  have lasts : Lasts (answerAt 3) 0 .slave 3 := by
    refine ⟨by decide, ?_, by decide⟩
    decide
  have answered := (holds (answerAt 3) 0 .slave 3 lasts).2 ⟨2, by decide, by decide⟩
  exact absurd answered (by decide)

end RoundRobinArbiter
