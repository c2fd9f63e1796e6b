import RoundRobinArbiter.Testbench.Pairing

namespace RoundRobinArbiter

namespace Scenario

variable {scenario : Scenario p} {h : Host} {t : Transaction p}

/-- A host sees an acknowledge one cycle after its access is answered, and after a
timeout of whatever access. -/
theorem ack_succ_iff (scenario : Scenario p) (h : Host) (cycle : Nat) :
    (scenario.arbiter (cycle + 1)).ack h ≠ 0 ↔
      ((scenario.arbiter cycle).accessing h = true ∧ (scenario.around cycle).ackBus = true) ∨
        (scenario.arbiter cycle).timeout = true := by
  have now := scenario.refines cycle
  have next := scenario.refines (cycle + 1)
  have flag : (scenario.arbiter (cycle + 1)).timeoutD = (scenario.arbiter cycle).timeout := rfl
  rw [Arbiter.ack_ne_zero_iff, Arbiter.ack_timeout, flag, next.completion_iff, next.acking_iff]
  constructor
  · rintro (acked | times)
    · obtain ⟨held, elapsed, running⟩ := Service.ack_previous acked
      rw [show Service.run scenario.seen cycle = _ from running] at now
      rcases Service.access_next running with ⟨_, _, _, _, runs⟩ | ⟨answered | full, _⟩
      · cases runs.symm.trans acked
      · exact .inl ⟨now.accessing_iff.mpr ⟨held, elapsed, rfl⟩, answered⟩
      · exact .inr (now.timeout.mpr full)
    · exact .inr times
  · rintro (⟨running, answered⟩ | times)
    · obtain ⟨held, elapsed, running⟩ := now.accessing_iff.mp running
      rcases Service.access_next running with ⟨waits, _⟩ | ⟨_, acked⟩
      · cases waits.symm.trans answered
      · exact .inl acked
    · exact .inr times

theorem drives (point : (scenario.driver h cycle).point = .drive t) :
    (scenario.driver h (cycle + 1)).point = .ack t 0 := by
  have next : scenario.driver h (cycle + 1) = (scenario.driver h cycle).step
    ((scenario.arbiter cycle).ack h) ((scenario.arbiter cycle).drd h)
    ((scenario.around cycle).delay h) := rfl
  rw [next, Driver.step, point]

theorem waited (point : (scenario.driver h cycle).point = .ack t count) :
    ∃ drive, cycle = drive + 1 + count ∧ (scenario.driver h drive).point = .drive t ∧
      count < Driver.timeoutLimit ∧
      (∀ k ≤ count, (scenario.driver h (drive + 1 + k)).point = .ack t k) ∧
      ∀ k < count, (scenario.arbiter (drive + 1 + k)).ack h = 0 := by
  obtain ⟨drive, position, drives, all⟩ := waiting_since point
  have on : ∀ k < count, (scenario.arbiter (drive + 1 + k)).ack h = 0 ∧
      k + 1 < Driver.timeoutLimit := by
    intro k below
    rcases (scenario.driver_edge h (drive + 1 + k)).after_ack (all k (Nat.le_of_lt below)) with
      ⟨silent, patient, _⟩ | ⟨_, _, _, gone⟩
    · exact ⟨silent, patient⟩
    · exact absurd (all (k + 1) below) (gone t (k + 1))
  refine ⟨drive, position, drives, ?_, all, fun k below => (on k below).1⟩
  cases count with
  | zero => decide
  | succ count => exact (on count (Nat.lt_succ_self count)).2

private theorem returns_answered (driven : (scenario.driver h drive).point = .drive t)
    (within : k < Driver.timeoutLimit) (answer : (scenario.arbiter (drive + 1 + k)).ack h ≠ 0) :
    ∃ edge, drive < edge ∧
      (∀ cycle, drive < cycle → cycle ≤ edge →
        ∃ count, (scenario.driver h cycle).point = .ack t count) ∧
      (scenario.returns h edge).isSome = true ∧ (scenario.arbiter edge).ack h ≠ 0 := by
  classical
  have some : ∃ k, (scenario.arbiter (drive + 1 + k)).ack h ≠ 0 := ⟨k, answer⟩
  have first := Nat.find_spec some
  have early := Nat.find_min' some answer
  have quiet : ∀ j < Nat.find some, (scenario.arbiter (drive + 1 + j)).ack h = 0 :=
    fun j below => not_not.mp (Nat.find_min some below)
  have waits : ∀ j ≤ Nat.find some, (scenario.driver h (drive + 1 + j)).point = .ack t j :=
    fun j bound => waits_on (drives driven) j (by omega) (fun i below => quiet i (by omega))
  refine ⟨drive + 1 + Nat.find some, by omega, ?_, ?_, first⟩
  · intro cycle after before
    obtain ⟨j, rfl⟩ := Nat.exists_eq_add_of_le after
    exact ⟨j, waits j (by omega)⟩
  · rw [(scenario.driver_edge h _).ends (waits _ (Nat.le_refl _)) (.inl first)]
    rfl

end Scenario

/-- No driver gives up on a request that waits or on an access that runs, and every
driven request ends with an acknowledge. -/
structure Outlasts (scenario : Scenario p) : Prop where
  patient : ∀ h edge t, scenario.returns h edge = some t → (scenario.arbiter edge).ack h = 0 →
    (scenario.arbiter edge).accessing h = false ∧
      ((scenario.driver h edge).port.wants = true → (scenario.arbiter edge).acking h = true)
  answered : ∀ h drive t, (scenario.driver h drive).point = .drive t → t.port.wants = true →
    ∃ edge, drive < edge ∧
      (∀ cycle, drive < cycle → cycle ≤ edge →
        ∃ count, (scenario.driver h cycle).point = .ack t count) ∧
      (scenario.returns h edge).isSome = true ∧ (scenario.arbiter edge).ack h ≠ 0

section Default

variable {scenario : Scenario .default} {h : Host} {t : Transaction .default}

private theorem gives_up (returned : scenario.returns h edge = some t)
    (silent : (scenario.arbiter edge).ack h = 0) :
    ∃ given drive, edge = drive + 1 + 65534 ∧ (scenario.driver h drive).point = .drive given ∧
      (∀ k ≤ 65534, (scenario.driver h (drive + 1 + k)).point = .ack given k) ∧
      ∀ k ≤ 65534, (scenario.arbiter (drive + 1 + k)).ack h = 0 := by
  have step := scenario.driver_edge h edge
  rw [returned] at step
  obtain ⟨given, count, point⟩ := step.return_waits
  obtain ⟨drive, rfl, driven, bound, all, quiet⟩ := Scenario.waited point
  have limit : Driver.timeoutLimit = 65535 := rfl
  rcases step.after_ack point with ⟨_, _, none, _⟩ | ⟨acked | expired, _⟩
  · cases none
  · exact absurd silent acked
  · obtain rfl : count = 65534 := by omega
    refine ⟨given, drive, rfl, driven, all, ?_⟩
    intro k bound
    rcases Nat.eq_or_lt_of_le bound with last | earlier
    · subst last
      exact silent
    · exact quiet k earlier

private theorem accessing_since (running : (scenario.arbiter edge).accessing h = true) :
    ∃ grant, grant < edge ∧ edge ≤ grant + 65535 ∧
      (scenario.driver h grant).port.wants = true := by
  obtain ⟨held, elapsed, running⟩ := (scenario.refines edge).accessing_iff.mp running
  obtain ⟨grant, position, granted, _⟩ := Service.access_granted running
  have bound := elapsed.isLt
  have limit : Params.default.limit = 65534 := rfl
  exact ⟨grant, by omega, by omega, Service.grantFrom_wants granted⟩

private theorem resting_of_idle (driven : (scenario.driver h drive).point = .drive t)
    (all : ∀ k ≤ 65534, (scenario.driver h (drive + 1 + k)).point = .ack t k)
    (idle : t.port.wants = false) :
    (scenario.arbiter (drive + 1 + 65534)).accessing h = false ∧
      (scenario.driver h (drive + 1 + 65534)).port.wants = false := by
  have port : ∀ k ≤ 65534, (scenario.driver h (drive + 1 + k)).port.wants = false := by
    intro k bound
    rw [(scenario.consistent h _).driven t k (all k bound)]
    exact idle
  refine ⟨?_, port 65534 (Nat.le_refl _)⟩
  rw [← Bool.not_eq_true]
  intro running
  obtain ⟨grant, before, recent, wants⟩ := accessing_since running
  rcases Nat.eq_or_lt_of_le (show drive ≤ grant by omega) with here | later
  · subst here
    obtain ⟨other, count, waits⟩ := (scenario.consistent h drive).waits wants
    cases driven.symm.trans waits
  · obtain ⟨k, rfl⟩ := Nat.exists_eq_add_of_le later
    cases wants.symm.trans (port k (by omega))

/-- The driver outlasts the arbiter exactly when, for every driven request, the device
answers the access or a timeout fires before the last edge at which the driver looks. -/
theorem outlasts_iff (scenario : Scenario .default) :
    Outlasts scenario ↔ ∀ h drive t, (scenario.driver h drive).point = .drive t →
      t.port.wants = true → ∃ m, drive ≤ m ∧ m ≤ drive + 65534 ∧
        (((scenario.arbiter m).accessing h = true ∧ (scenario.around m).ackBus = true) ∨
          (scenario.arbiter m).timeout = true) := by
  have limit : Driver.timeoutLimit = 65535 := rfl
  constructor
  · intro outlasts h drive t driven wants
    obtain ⟨edge, after, waits, _, answer⟩ := outlasts.answered h drive t driven wants
    obtain ⟨k, rfl⟩ := Nat.exists_eq_add_of_le after
    obtain ⟨count, point⟩ := waits (drive + 1 + k) after (Nat.le_refl _)
    refine ⟨drive + k, Nat.le_add_right _ _, ?_, ?_⟩
    · -- the driver has been waiting for as many edges as it has counted, since this drive
      obtain ⟨start, position, started, bound, _⟩ := Scenario.waited point
      rcases Nat.lt_or_ge drive start with later | earlier
      · obtain ⟨other, again⟩ := waits start later (by omega)
        cases started.symm.trans again
      · omega
    · rw [← Scenario.ack_succ_iff]
      rw [show drive + k + 1 = drive + 1 + k by omega]
      exact answer
  · intro reacts
    refine ⟨?_, ?_⟩
    · intro h edge t returned silent
      obtain ⟨given, drive, rfl, driven, all, quiet⟩ := gives_up returned silent
      have idle : given.port.wants = false := by
        rw [← Bool.not_eq_true]
        intro wants
        obtain ⟨m, after, before, event⟩ := reacts h drive given driven wants
        obtain ⟨k, rfl⟩ := Nat.exists_eq_add_of_le after
        rw [← Scenario.ack_succ_iff, show drive + k + 1 = drive + 1 + k by omega] at event
        exact event (quiet k (by omega))
      obtain ⟨resting, quiet⟩ := resting_of_idle driven all idle
      exact ⟨resting, fun wants => by cases wants.symm.trans quiet⟩
    · intro h drive t driven wants
      obtain ⟨m, after, before, event⟩ := reacts h drive t driven wants
      obtain ⟨k, rfl⟩ := Nat.exists_eq_add_of_le after
      rw [← Scenario.ack_succ_iff, show drive + k + 1 = drive + 1 + k by omega] at event
      exact Scenario.returns_answered driven (by omega) event

/-- The driver of `unansweredRead` gives up while its own access runs. -/
theorem unanswered_read_outlasted :
    ¬∀ scenario : Scenario .default, scenario.Legal → Outlasts scenario := by
  intro outlasts
  obtain ⟨_, held, now, returned, running⟩ := slave_gives_up
  have idle := ((outlasts unansweredRead unansweredRead_legal).patient .slave _ _ returned
    (slave_unacknowledged 65534 (Nat.le_refl _))).1
  have busy := (unansweredRead.refines (3 + 65534)).accessing_iff.mpr ⟨held, now, running⟩
  cases idle.symm.trans busy

end Default

end RoundRobinArbiter
