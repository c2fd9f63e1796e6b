import RoundRobinArbiter.Testbench.Env
import RoundRobinArbiter.Testbench.Pace
import RoundRobinArbiter.Testbench.Saturation

namespace RoundRobinArbiter

open Synchronous Rotation

private theorem pick_next {wants : Host → Bool} {last : Host} (asks : wants last.next = true) :
    pick (some last) wants = some last.next := by
  cases last <;> exact List.find?_cons_of_pos asks

private theorem Service.step_silent {i : Inputs p} (pointer : Option Host)
    (silent : ∀ h, i.wants h = false) : step i (.idle pointer) = .idle pointer := by
  have nobody : ¬Host.all.any i.wants = true := by simp [silent]
  change arbitrate i pointer = _
  rw [arbitrate, pick_silent silent]
  exact if_neg nobody

namespace Trial

variable {d n k : Nat}

/-- The edges from one access of a host to its next: four accesses, or the delay of its
driver if that takes longer. -/
def period (delay : Nat) : Nat := max 12 (delay + 5)

/-- The edge of the grant number `k`. -/
def schedule (delay k : Nat) : Nat := delay + 2 + k / 4 * period delay + 3 * (k % 4)

theorem schedule_early (first : k < 4) : schedule d k = d + 2 + 3 * k := by
  rw [schedule, Nat.div_eq_of_lt first, Nat.mod_eq_of_lt first, Nat.zero_mul]

theorem schedule_add_four (d k : Nat) : schedule d (k + 4) = schedule d k + period d := by
  have whole : (k + 4) / 4 = k / 4 + 1 := by omega
  rw [schedule, schedule, whole, Nat.add_mod_right, Nat.succ_mul]
  omega

private theorem schedule_inside (inside : k % 4 ≠ 3) : schedule d (k + 1) = schedule d k + 3 := by
  have whole : (k + 1) / 4 = k / 4 := by omega
  have rest : (k + 1) % 4 = k % 4 + 1 := by omega
  rw [schedule, schedule, whole, rest]
  omega

private theorem schedule_behind (last : k % 4 = 3) :
    schedule d (k + 1) + 9 = schedule d k + period d := by
  have whole : (k + 1) / 4 = k / 4 + 1 := by omega
  have rest : (k + 1) % 4 = 0 := by omega
  rw [schedule, schedule, whole, rest, last, Nat.succ_mul]
  omega

theorem schedule_apart (d k : Nat) : schedule d k + 3 ≤ schedule d (k + 1) := by
  have four : 12 ≤ period d := Nat.le_max_left _ _
  by_cases last : k % 4 = 3
  · have behind := schedule_behind (d := d) last
    omega
  · exact Nat.le_of_eq (schedule_inside last).symm

theorem schedule_strictMono (d : Nat) : StrictMono (schedule d) :=
  strictMono_nat_of_lt_succ fun k => Nat.lt_of_lt_of_le (by omega) (schedule_apart d k)

variable {trial : Trial p} {drive grant : Host → Nat → Nat}

/-- What is known of round `k / 4` of the host whose turn it is. -/
def inTurn (edges : Host → Nat → Nat) (k : Nat) : Nat := edges (turn Host.place .slave k) (k / 4)

/-- The rounds of a run with even delays. -/
structure Even (trial : Trial p) (d n : Nat) (drive grant : Host → Nat → Nat) : Prop where
  pace : ∀ h, Paced trial h (drive h) (grant h)
  filled : ∀ h, (trial.mail h).length = n
  positive : 0 < n
  delays : ∀ edge h, ((trial.draws edge).delay h).edges = d

namespace Even

variable (even : Even trial d n drive grant)

include even in
private theorem drive_early (early : k < 4) : inTurn drive k = d + 1 := by
  rw [inTurn, Nat.div_eq_of_lt early, (even.pace _).first (even.filled _ ▸ even.positive),
    even.delays, Nat.add_comm]

include even in
theorem drive_next (below : k + 4 < 4 * n) : inTurn drive (k + 4) = inTurn grant k + 4 + d := by
  have whole : (k + 4) / 4 = k / 4 + 1 := by omega
  have inside : k / 4 + 1 < (trial.mail (turn Host.place .slave k)).length := by
    rw [even.filled]
    omega
  rw [inTurn, turn_add_count, whole, (even.pace _).next _ inside, even.delays]
  rfl

include even in
theorem drive_lt (below : k < 4 * n) : inTurn drive k < inTurn grant k :=
  (even.pace _).after _ (by rw [even.filled]; omega)

include even in
theorem wants (below : k < 4 * n) (behind : inTurn drive k < cycle)
    (within : cycle ≤ inTurn grant k + 3) :
    (trial.scenario.seen cycle).wants (turn Host.place .slave k) = true :=
  (even.pace _).wants _ (by rw [even.filled]; omega) _ behind within

include even in
theorem only (asks : (trial.scenario.seen cycle).wants h = true) : ∃ k < 4 * n,
    turn Host.place .slave k = h ∧ inTurn drive k < cycle ∧ cycle ≤ inTurn grant k + 3 := by
  obtain ⟨i, below, behind, within⟩ := (even.pace h).only cycle asks
  rw [even.filled] at below
  have bound : gap Host.place .slave h < 4 := gap_lt _ _ _
  have own : turn Host.place .slave (4 * i + gap Host.place .slave h) = h := turn_gap _ _ _ _
  have round : (4 * i + gap Host.place .slave h) / 4 = i := by omega
  refine ⟨4 * i + gap Host.place .slave h, by omega, own, ?_⟩
  rw [inTurn, inTurn, own, round]
  exact ⟨behind, within⟩

include even in
theorem granted_iff (below : k < 4 * n) (behind : inTurn drive k < cycle)
    (within : cycle ≤ inTurn grant k + 3) :
    trial.scenario.grantAt cycle = some (turn Host.place .slave k) ↔ cycle = inTurn grant k :=
  (even.pace _).granted _ (by rw [even.filled]; omega) _ behind within

include even in
private theorem undriven (slow : period d = d + 5) (start : 4 ≤ k)
    (onTime : ∀ j < k, inTurn grant j = schedule d j) (later : k ≤ j) (below : j < 4 * n) :
    schedule d j ≤ inTurn drive j + 1 := by
  induction j using Nat.strong_induction_on with
  | _ j ih =>
    obtain ⟨i, rfl⟩ := Nat.exists_eq_add_of_le' (Nat.le_trans start later)
    have before : schedule d i ≤ inTurn grant i := by
      rcases Nat.lt_or_ge i k with known | unknown
      · exact Nat.le_of_eq (onTime i known).symm
      · have driven := ih i (by omega) unknown (by omega)
        have after := even.drive_lt (show i < 4 * n by omega)
        omega
    rw [even.drive_next below, schedule_add_four, slow]
    omega

include even in
theorem drive_before (onTime : ∀ j < k, inTurn grant j = schedule d j) (below : k < 4 * n) :
    inTurn drive k < schedule d k := by
  rcases Nat.lt_or_ge k 4 with early | late
  · rw [even.drive_early early, schedule_early early]
    omega
  · obtain ⟨i, rfl⟩ := Nat.exists_eq_add_of_le' late
    have long : d + 5 ≤ period d := Nat.le_max_right _ _
    rw [even.drive_next below, onTime i (by omega), schedule_add_four]
    omega

end Even

/-- The arbiter before the grant number `k`: behind the host before it, or without a pointer
behind a pause, which only a new round can end. -/
def Awaits (trial : Trial p) (d k : Nat) : Prop :=
  ((Service.run trial.scenario.seen (schedule d k)).ready = true ∧ ∃ last,
    last.next = turn Host.place .slave k ∧
      (Service.run trial.scenario.seen (schedule d k)).pointer = some last) ∨
  (4 ≤ k ∧ period d = d + 5 ∧ (∀ j < k, schedule d j + 3 < schedule d k) ∧
    Service.run trial.scenario.seen (schedule d k) = .idle none)

/-- The first `k` grants come on schedule. -/
structure Scheduled (trial : Trial p) (d : Nat) (grant : Host → Nat → Nat) (k : Nat) : Prop where
  onTime : ∀ j < k, inTurn grant j = schedule d j
  grants : ∀ cycle < schedule d k, ∀ h, trial.scenario.grantAt cycle = some h →
    ∃ j < k, cycle = schedule d j
  awaits : Awaits trial d k

namespace Scheduled

variable (even : Even trial d n drive grant) (scheduled : Scheduled trial d grant k)

include even scheduled in
private theorem grant_after (below : k < 4 * n) : schedule d k ≤ inTurn grant k := by
  by_contra early
  have granted := (even.granted_iff below (even.drive_lt below) (Nat.le_add_right _ 3)).mpr rfl
  obtain ⟨j, before, edge⟩ := scheduled.grants _ (Nat.lt_of_not_le early) _ granted
  have same := (even.granted_iff (show j < 4 * n by omega)
    (even.drive_lt (by omega)) (Nat.le_add_right _ 3)).mpr rfl
  rw [scheduled.onTime j before, ← edge, granted] at same
  -- that is the grant of an earlier round, before this one is driven
  have rest := turn_eq_turn _ (Option.some.inj same)
  obtain ⟨i, rfl⟩ := Nat.exists_eq_add_of_le' (show 4 ≤ k by omega)
  have driven := even.drive_lt below
  rw [even.drive_next below, scheduled.onTime i (by omega), edge] at driven
  have order := (schedule_strictMono d).le_iff_le.mpr (show j ≤ i by omega)
  omega

include even scheduled in
theorem asks (below : k < 4 * n) :
    (trial.scenario.seen (schedule d k)).wants (turn Host.place .slave k) = true :=
  even.wants below (even.drive_before scheduled.onTime below)
    (Nat.le_add_right_of_le (scheduled.grant_after even below))

include even scheduled in
theorem grant_now (below : k < 4 * n) :
    trial.scenario.grantAt (schedule d k) = some (turn Host.place .slave k) := by
  have asks := scheduled.asks even below
  rw [Scenario.grantAt_seen]
  change (Service.run trial.scenario.seen (schedule d k)).grant _ = _
  rcases scheduled.awaits with ⟨ready, last, next, pointer⟩ | ⟨late, slow, apart, idle⟩
  · rw [← next] at asks ⊢
    rw [Service.grant_eq_some_iff, pointer]
    exact ⟨ready, pick_next asks⟩
  · rw [idle]
    refine Service.grant_eq_some_iff.mpr ⟨rfl, pick_lone (Option.some_ne_none _).symm asks ?_⟩
    intro g other
    obtain ⟨j, inside, rfl, behind, within⟩ := even.only other
    rcases Nat.lt_trichotomy j k with before | same | later
    · rw [scheduled.onTime j before] at within
      exact absurd within (Nat.not_le_of_lt (apart j before))
    · rw [same]
    · have driven := even.undriven slow late scheduled.onTime (Nat.le_of_lt later) inside
      have order := schedule_strictMono d later
      omega

include even scheduled in
theorem onTime_now (below : k < 4 * n) : ∀ j < k + 1, inTurn grant j = schedule d j := by
  intro j before
  rcases Nat.eq_or_lt_of_le (Nat.le_of_lt_succ before) with rfl | earlier
  · exact ((even.granted_iff below (even.drive_before scheduled.onTime below)
      (Nat.le_add_right_of_le (scheduled.grant_after even below))).mp
        (scheduled.grant_now even below)).symm
  · exact scheduled.onTime j earlier

include even scheduled in
private theorem pause_silent (below : k < 4 * n) (late : 3 ≤ k) (slow : period d = d + 5)
    (behind : schedule d k + 3 ≤ cycle) (before : cycle < schedule d (k + 1))
    (asks : (trial.scenario.seen cycle).wants h = true) :
    h = turn Host.place .slave k ∧ cycle = schedule d k + 3 := by
  have onTime := scheduled.onTime_now even below
  obtain ⟨j, inside, rfl, driven, within⟩ := even.only asks
  rcases Nat.lt_trichotomy j k with earlier | rfl | later
  · rw [scheduled.onTime j earlier] at within
    have order := schedule_strictMono d earlier
    omega
  · rw [onTime j (Nat.lt_succ_self j)] at within
    exact ⟨rfl, Nat.le_antisymm within behind⟩
  · have early := even.undriven slow (Nat.succ_le_succ late) onTime later inside
    have order := (schedule_strictMono d).le_iff_le.mpr later
    change schedule d (k + 1) ≤ _ at order
    omega

include even scheduled in
/-- A pause costs the arbiter its pointer. -/
private theorem pause_idle (room : 2 < p.limit) (below : k < 4 * n) (late : 3 ≤ k)
    (slow : period d = d + 5) (more : Nat)
    (within : schedule d k + 3 + (more + 1) ≤ schedule d (k + 1)) :
    Service.run trial.scenario.seen (schedule d k + 3 + (more + 1)) = .idle none := by
  have access := access_of_grant (Nat.lt_of_succ_lt room) (scheduled.grant_now even below)
  have quiet : ∀ cycle h, schedule d k + 3 ≤ cycle → cycle < schedule d (k + 1) →
      (trial.scenario.seen cycle).wants h = true →
        h = turn Host.place .slave k ∧ cycle = schedule d k + 3 :=
    fun _ _ behind before asks => scheduled.pause_silent even below late slow behind before asks
  induction more with
  | zero =>
    have step : Service.run trial.scenario.seen (schedule d k + 3 + 1) =
        (Service.run trial.scenario.seen (schedule d k + 3)).step
          (trial.scenario.seen (schedule d k + 3)) := rfl
    rw [Nat.zero_add, step, access.acked]
    refine Service.step_forget rfl rfl fun g => ⟨?_, ?_⟩
    · exact fun asks => (quiet _ g (Nat.le_refl _) within asks).1
    · rintro rfl
      have now := scheduled.onTime_now even below k (Nat.lt_succ_self k)
      have driven := even.drive_before scheduled.onTime below
      exact even.wants below (by omega) (by omega)
  | succ more ih =>
    have step : Service.run trial.scenario.seen (schedule d k + 3 + (more + 1 + 1)) =
        (Service.run trial.scenario.seen (schedule d k + 3 + (more + 1))).step
          (trial.scenario.seen (schedule d k + 3 + (more + 1))) := rfl
    rw [step, ih (by omega)]
    refine Service.step_silent none fun g => ?_
    rw [← Bool.not_eq_true]
    intro asks
    have first := (quiet _ g (by omega) (by omega) asks).2
    omega

include even scheduled in
theorem next (room : 2 < p.limit) (below : k < 4 * n) : Scheduled trial d grant (k + 1) := by
  have now := scheduled.grant_now even below
  have access := access_of_grant (Nat.lt_of_succ_lt room) now
  have pause : schedule d (k + 1) ≠ schedule d k + 3 → 3 ≤ k ∧ period d = d + 5 := by
    intro longer
    have last : k % 4 = 3 := by
      by_contra inside
      exact longer (schedule_inside inside)
    have behind := schedule_behind (d := d) last
    refine ⟨by omega, ?_⟩
    unfold period at behind ⊢
    omega
  refine ⟨scheduled.onTime_now even below, ?_, ?_⟩
  · intro cycle before h granted
    rcases Nat.lt_or_ge cycle (schedule d k) with earlier | since
    · obtain ⟨j, inside, edge⟩ := scheduled.grants cycle earlier h granted
      exact ⟨j, Nat.lt_succ_of_lt inside, edge⟩
    · rcases Nat.eq_or_lt_of_le since with here | later
      · exact ⟨k, Nat.lt_succ_self k, here.symm⟩
      · rw [Scenario.grantAt_seen] at granted
        rcases Nat.lt_or_ge cycle (schedule d k + 3) with busy | free
        · obtain ⟨elapsed, running⟩ := access.running cycle (by omega)
          cases granted.symm.trans (Service.grantFrom_running running)
        · obtain ⟨late, slow⟩ := pause (by omega)
          obtain ⟨rfl, rfl⟩ := scheduled.pause_silent even below late slow free before
            (Service.grantFrom_wants granted)
          exact absurd granted (Service.ack_not_granted access.acked)
  · by_cases straight : schedule d (k + 1) = schedule d k + 3
    · refine .inl ?_
      rw [straight, access.acked]
      exact ⟨rfl, _, (Host.next_eq _).symm, rfl⟩
    · obtain ⟨late, slow⟩ := pause straight
      have apart := schedule_apart d k
      refine .inr ⟨by omega, slow, ?_, ?_⟩
      · intro j before
        have order := (schedule_strictMono d).le_iff_le.mpr (Nat.le_of_lt_succ before)
        omega
      · obtain ⟨more, edge⟩ := Nat.exists_eq_add_of_lt (Nat.lt_of_le_of_ne apart (Ne.symm straight))
        rw [edge]
        exact scheduled.pause_idle even room below late slow more (Nat.le_of_eq edge.symm)

end Scheduled

namespace Even

variable (even : Even trial d n drive grant)

include even in
theorem silent (early : cycle < schedule d 0) (h : Host) :
    (trial.scenario.seen cycle).wants h = false := by
  refine (even.pace h).silent ?_
  rw [(even.pace h).first (even.filled h ▸ even.positive), even.delays]
  rw [schedule_early (by decide)] at early
  omega

include even in
private theorem unmoved (early : cycle ≤ schedule d 0) :
    Service.run trial.scenario.seen cycle = .idle (some .master) := by
  induction cycle with
  | zero => rfl
  | succ cycle ih =>
    have step : Service.run trial.scenario.seen (cycle + 1) =
        (Service.run trial.scenario.seen cycle).step (trial.scenario.seen cycle) := rfl
    rw [step, ih (Nat.le_of_succ_le early)]
    exact Service.step_silent _ (even.silent early)

include even in
theorem scheduled (room : 2 < p.limit) (k : Nat) (within : k ≤ 4 * n) :
    Scheduled trial d grant k := by
  induction k with
  | zero =>
    refine ⟨fun j before => absurd before (Nat.not_lt_zero j), ?_, .inl ?_⟩
    · intro cycle before h granted
      rw [Scenario.grantAt_seen] at granted
      cases (even.silent before h).symm.trans (Service.grantFrom_wants granted)
    · rw [even.unmoved (Nat.le_refl _)]
      exact ⟨rfl, .master, rfl, rfl⟩
  | succ k ih => exact (ih (Nat.le_of_succ_le within)).next even room within

include even in
theorem grant_iff (room : 2 < p.limit) (cycle : Nat) (h : Host) :
    trial.scenario.grantAt cycle = some h ↔
      ∃ k < 4 * n, cycle = schedule d k ∧ h = turn Host.place .slave k := by
  have all := even.scheduled room (4 * n) (Nat.le_refl _)
  constructor
  · intro granted
    have asks := granted
    rw [Scenario.grantAt_seen] at asks
    obtain ⟨k, below, rfl, driven, within⟩ := even.only (Service.grantFrom_wants asks)
    refine ⟨k, below, ?_, rfl⟩
    rw [← all.onTime k below]
    exact (even.granted_iff below driven within).mp granted
  · rintro ⟨k, below, rfl, rfl⟩
    exact (even.scheduled room k (Nat.le_of_lt below)).grant_now even below

include even in
theorem acked_iff (room : 2 < p.limit) (cycle : Nat) (h : Host) :
    trial.scenario.ackedHost cycle = some h ↔
      ∃ k < 4 * n, cycle = schedule d k + 3 ∧ h = turn Host.place .slave k := by
  rw [Scenario.ackedHost_iff]
  constructor
  · intro acked
    obtain ⟨edge, later, granted, runs⟩ := Service.ack_granted acked
    rw [← Scenario.grantAt_seen] at granted
    have access := access_of_grant (Nat.lt_of_succ_lt room) granted
    obtain ⟨k, below, rfl, rfl⟩ := (even.grant_iff room edge h).mp granted
    refine ⟨k, below, ?_, rfl⟩
    rcases Nat.lt_trichotomy cycle (schedule d k + 3) with early | same | late
    · obtain ⟨now, running⟩ := access.running cycle (by omega)
      cases acked.symm.trans running
    · exact same
    · obtain ⟨now, running⟩ := runs (schedule d k + 3) (by omega) late
      cases access.acked.symm.trans running
  · rintro ⟨k, below, rfl, rfl⟩
    exact (access_of_grant (Nat.lt_of_succ_lt room)
      ((even.grant_iff room _ _).mpr ⟨k, below, rfl, rfl⟩)).acked

include even in
theorem allDone_iff (room : 2 < p.limit) (legal : trial.scenario.Legal) (int : n < 2 ^ 31)
    (cycle : Nat) : (Scoreboard.run trial.scenario.wires cycle).allDone n = true ↔
      schedule d (4 * n - 1) + 4 ≤ cycle := by
  have positive := even.positive
  have increasing : StrictMono fun k => schedule d k + 3 :=
    fun j k before => Nat.add_lt_add_right (schedule_strictMono d before) 3
  rw [allDone_iff_rotation room legal n even.filled int]
  constructor
  · intro rotation
    by_contra early
    have some := (even.acked_iff room _ _).mpr ⟨4 * n - 1, by omega, rfl, rfl⟩
    have grown := log_prefix trial.scenario.ackedHost
      (show cycle ≤ schedule d (4 * n - 1) + 3 by omega)
    have most := acked_log_le room legal n even.filled (schedule d (4 * n - 1) + 3 + 1)
    have whole := grown.length_le
    rw [log, some, List.length_append] at most
    rw [rotation, List.length_map, List.length_range] at whole
    simp only [Option.toList_some, List.length_singleton] at most
    omega
  · intro past
    refine log_scheduled increasing (even.acked_iff room) (Nat.le_refl _) ?_ fun _ below _ => below
    intro k below
    have order := (schedule_strictMono d).le_iff_le.mpr (show k ≤ 4 * n - 1 by omega)
    change schedule d k + 3 < cycle
    omega

end Even

private theorem test_unfinished (trial : Trial p) (large : 2 ^ 31 ≤ n) :
    (trial.test n).completed = none := by
  rcases trial.test_ends n with ⟨edge, _, all, _⟩ | ⟨_, same⟩
  · have enough := Scoreboard.allDone_eq_true.mp all .slave
    have small := ((trial.env edge).scoreboard.numTransactions .slave).toInt_lt
    omega
  · rw [same]

/-- Where all drivers draw the same delay every time, the whole bench follows its schedule:
the accesses are granted in the rotation, at edges that the delay fixes, and the test ends by
itself behind the last one, unless the watchdog strikes before. -/
theorem even_delays (room : 2 < p.limit) (legal : trial.scenario.Legal) (positive : 0 < n)
    (filled : ∀ h, (trial.mail h).length = n)
    (same : ∀ edge h, ((trial.draws edge).delay h).edges = d) :
    (∀ cycle h, trial.scenario.grantAt cycle = some h ↔
      ∃ k < 4 * n, cycle = schedule d k ∧ h = turn Host.place .slave k) ∧
    (n < 2 ^ 31 → ∀ cycle, (Scoreboard.run trial.scenario.wires cycle).allDone n = true ↔
      schedule d (4 * n - 1) + 4 ≤ cycle) ∧
    (trial.test n).completed =
      if schedule d (4 * n - 1) + 4 < Env.watchdogEdges then some (schedule d (4 * n - 1) + 4)
      else none := by
  have paces : ∀ h, ∃ drive grant, Paced trial h drive grant := paced room legal
  choose drive grant pace using paces
  have even : Even trial d n drive grant := ⟨pace, filled, positive, same⟩
  refine ⟨even.grant_iff room, even.allDone_iff room legal, ?_⟩
  have edges : Env.watchdogEdges = 9995 := rfl
  rcases Nat.lt_or_ge n (2 ^ 31) with int | large
  · have enough : ∀ cycle, (trial.env cycle).scoreboard.allDone n = true ↔
        schedule d (4 * n - 1) + 4 ≤ cycle := by
      intro cycle
      rw [env_scoreboard]
      exact even.allDone_iff room legal int cycle
    have ends := Env.wait_eq enough Env.watchdogEdges 0 (Nat.zero_le _)
    rw [Nat.zero_add] at ends
    rw [test, ends]
    split
    · rename_i found
      rw [found]
    · rename_i found
      rw [found]
  · have late : (4 * n - 1) / 4 * 12 ≤ (4 * n - 1) / 4 * period d :=
      Nat.mul_le_mul_left _ (Nat.le_max_left _ _)
    rw [trial.test_unfinished large, schedule, if_neg (by omega)]

theorem oneEach_even_delays :
    (∀ cycle h, oneEach.scenario.grantAt cycle = some h ↔
      ∃ k < 4 * 1, cycle = schedule 1 k ∧ h = turn Host.place .slave k) ∧
    (1 < 2 ^ 31 → ∀ cycle, (Scoreboard.run oneEach.scenario.wires cycle).allDone 1 = true ↔
      schedule 1 (4 * 1 - 1) + 4 ≤ cycle) ∧
    (oneEach.test 1).completed =
      if schedule 1 (4 * 1 - 1) + 4 < Env.watchdogEdges then some (schedule 1 (4 * 1 - 1) + 4)
      else none :=
  even_delays (by decide) oneEach_legal Nat.one_pos (fun _ => rfl) fun _ _ => rfl

end Trial

end RoundRobinArbiter
