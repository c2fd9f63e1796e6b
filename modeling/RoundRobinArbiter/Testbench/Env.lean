import RoundRobinArbiter.Testbench.Turns

/-! The environment and the test, after `arbiter_env.sv` and `arbiter_tb.sv`. The test ends
when the scoreboard has counted enough, or when the watchdog of the test bench strikes, and
reports in the same way either way. -/

namespace RoundRobinArbiter

open Synchronous Rotation

/-- The verdict that `report` of the scoreboard prints behind `Test`. -/
def Scoreboard.verdict (s : Scoreboard) : String :=
  if s.totalErrors = 0 then "PASSED" else "FAILED"

/-- The components of the environment. The generator has filled the mailboxes before the
first edge. -/
structure Env (p : Params) where
  testbench : Testbench p
  monitor : Monitor p
  scoreboard : Scoreboard

namespace Env

def wires (s : Env p) : Interface p :=
  { s.testbench.bench.arbiter.outputs s.testbench.responder.dataBusRd with
    host := fun h => (s.testbench.bench.driver h).port }

def machine (mail : Host → List (Transaction p)) : Machine (Draws p) (Env p) where
  init := { testbench := (Testbench.machine mail).init, monitor := .start, scoreboard := .start }
  step draws s :=
    { testbench := (Testbench.machine mail).step draws s.testbench
      monitor := s.monitor.step s.wires
      scoreboard := s.scoreboard.step (s.monitor.puts s.wires) }

/-- What `report` prints: the statistics of the scoreboard with its verdict, and those of
the responder. -/
structure Report where
  transactions : Host → BitVec 32
  errors : Host → BitVec 32
  totalErrors : BitVec 32
  verdict : String
  totalTransactionsHandled : BitVec 32

def report (s : Env p) : Report where
  transactions := s.scoreboard.numTransactions
  errors := s.scoreboard.numErrors
  totalErrors := s.scoreboard.totalErrors
  verdict := s.scoreboard.verdict
  totalTransactionsHandled := s.testbench.responder.numTransactions

/-- `wait_for_completion` from an edge on, with the edges that are left until the watchdog
strikes: the edge at which the loop breaks. -/
def waitForCompletion (states : Nat → Env p) (numTransactions edge : Nat) : Nat → Option Nat
  | 0 => none
  | left + 1 =>
    if (states edge).scoreboard.allDone numTransactions then some edge
    else waitForCompletion states numTransactions (edge + 1) left

/-- The edges from 55 on, every 10 units of time, before the watchdog strikes at 100000. -/
def watchdogEdges : Nat := (100000 - 55 + 9) / 10

/-- How a test has ended. -/
structure Ending where
  /-- The edge at which `run` of the environment returned, if it did. -/
  completed : Option Nat
  report : Report

end Env

namespace Trial

variable (trial : Trial p)

def env : Nat → Env p := (Env.machine trial.mail).run trial.draws

/-- The test of `arbiter_tb`. -/
def test (numTransactions : Nat) : Env.Ending :=
  match Env.waitForCompletion trial.env numTransactions 0 Env.watchdogEdges with
  | some edge => ⟨some edge, (trial.env edge).report⟩
  | none => ⟨none, (trial.env Env.watchdogEdges).report⟩

theorem env_testbench (cycle : Nat) : (trial.env cycle).testbench = trial.run cycle :=
  @Machine.run_of_step _ _ (Testbench.machine trial.mail) (fun k => (trial.env k).testbench)
    trial.draws rfl (fun _ => rfl) cycle

private theorem env_wires (cycle : Nat) : (trial.env cycle).wires = trial.scenario.wires cycle := by
  rw [Env.wires, env_testbench, Scenario.wires, Scenario.arbiter, ← bench_run]
  simp only [Scenario.driver, ← bench_run]
  rfl

theorem env_monitor (cycle : Nat) :
    (trial.env cycle).monitor = Monitor.run trial.scenario.wires cycle := by
  refine @Machine.run_of_step _ _ (Monitor.machine p) (fun k => (trial.env k).monitor)
    trial.scenario.wires rfl ?_ cycle
  intro cycle
  rw [← env_wires]
  rfl

theorem env_scoreboard (cycle : Nat) :
    (trial.env cycle).scoreboard = Scoreboard.run trial.scenario.wires cycle := by
  refine @Machine.run_of_step _ _ (Scoreboard.machine p) (fun k => (trial.env k).scoreboard)
    (Monitor.putAt trial.scenario.wires) rfl ?_ cycle
  intro cycle
  rw [Monitor.putAt, ← env_wires, ← env_monitor]
  rfl

end Trial

namespace Env

variable {states : Nat → Env p}

theorem wait_breaks (found : waitForCompletion states n edge left = some last) :
    (states last).scoreboard.allDone n = true ∧ edge ≤ last ∧ last < edge + left := by
  induction left generalizing edge with
  | zero => cases found
  | succ left ih =>
    rw [waitForCompletion] at found
    split at found
    · rename_i done
      cases found
      exact ⟨done, Nat.le_refl _, by omega⟩
    · obtain ⟨done, after, before⟩ := ih found
      exact ⟨done, by omega, by omega⟩

private theorem wait_vain (none : waitForCompletion states n edge left = none) (cycle : Nat)
    (after : edge ≤ cycle) (before : cycle < edge + left) :
    (states cycle).scoreboard.allDone n = false := by
  induction left generalizing edge with
  | zero => omega
  | succ left ih =>
    rw [waitForCompletion] at none
    split at none
    · cases none
    · rename_i unfinished
      rcases Nat.eq_or_lt_of_le after with rfl | later
      · exact Bool.not_eq_true _ ▸ unfinished
      · exact ih none later (by omega)

theorem wait_eq (enough : ∀ cycle, (states cycle).scoreboard.allDone n = true ↔ last ≤ cycle)
    (left edge : Nat) (early : edge ≤ last) : waitForCompletion states n edge left =
      if last < edge + left then some last else none := by
  induction left generalizing edge with
  | zero => exact (if_neg (Nat.not_lt_of_le early)).symm
  | succ left ih =>
    rw [waitForCompletion]
    rcases Nat.eq_or_lt_of_le early with rfl | later
    · rw [if_pos ((enough _).mpr (Nat.le_refl _)), if_pos (by omega)]
    · rw [if_neg fun done => Nat.not_le_of_lt later ((enough _).mp done), ih (edge + 1) later]
      congr 1
      exact propext (by omega)

end Env

private theorem Driver.queue_given {drivers : Nat → Driver p}
    {returns : Nat → Option (Transaction p)} {ack : Nat → BitVec 2} {drd : Nat → BitVec p.dw}
    (edges : ∀ edge, Edge (ack edge) (drd edge) (drivers edge) (drivers (edge + 1))
      (returns edge)) (cycle : Nat) : (drivers cycle).queue <:+ (drivers 0).queue := by
  induction cycle with
  | zero => exact List.suffix_refl _
  | succ cycle ih =>
    rcases (edges cycle).queue with ⟨_, same⟩ | ⟨head, _, split⟩
    · exact same ▸ ih
    · exact (split ▸ List.suffix_cons head _).trans ih

namespace Traffic

variable {traffic : Traffic p}

/-- No mailbox holds a request that the checks of the scoreboard refuse. -/
def WellFormed (traffic : Traffic p) : Prop :=
  ∀ h, ∀ t ∈ traffic.mail h, t.port.wants = true → ¬Scoreboard.Malformed t.port

theorem totalErrors_zero (sound : traffic.WellFormed) (cycle : Nat) :
    (traffic.scoreboard cycle).totalErrors = 0 := by
  refine Scoreboard.totalErrors_zero ?_ cycle
  intro edge h wants malformed
  change (traffic.driver h edge).port.wants = true at wants
  change Scoreboard.Malformed (traffic.driver h edge).port at malformed
  obtain ⟨t, count, point⟩ := (traffic.consistent h edge).waits wants
  have shows := (traffic.consistent h edge).driven t count point
  rw [shows] at wants malformed
  refine sound h t ((Driver.queue_given (traffic.driver_edge h) edge).mem ?_) wants malformed
  rw [Driver.queue, point]
  exact List.mem_cons_self

/-- The verdict does not depend on the device under test: with well-formed requests the test
passes whatever is acknowledged, answered or served when. -/
theorem never_fails (sound : traffic.WellFormed) (cycle : Nat) :
    (traffic.scoreboard cycle).verdict = "PASSED" :=
  if_pos (totalErrors_zero sound cycle)

theorem unansweredTraffic_passes :
    (unansweredTraffic.scoreboard 100000).verdict = "PASSED" := by
  refine never_fails ?_ 100000
  intro h t member _
  change t ∈ (if h = .slave then [slaveRead] else []) at member
  split at member
  · obtain rfl := List.mem_singleton.mp member
    decide
  · cases member

end Traffic

/-- The arbiter of a composed run as the device under test. -/
def Scenario.traffic (scenario : Scenario p) : Traffic p where
  mail := scenario.mail
  delay edge := (scenario.around edge).delay
  dut edge := (scenario.arbiter edge).outputs (scenario.around edge).dataBusRd

namespace Scenario

variable (scenario : Scenario p)

theorem traffic_driver (h : Host) (cycle : Nat) :
    scenario.traffic.driver h cycle = scenario.driver h cycle := by
  induction cycle with
  | zero => rfl
  | succ cycle ih =>
    have step : scenario.driver h (cycle + 1) = (scenario.driver h cycle).step
      ((scenario.arbiter cycle).ack h) ((scenario.arbiter cycle).drd h)
      ((scenario.around cycle).delay h) := rfl
    rw [step, ← ih]
    rfl

theorem traffic_wires : scenario.traffic.wires = scenario.wires := by
  funext cycle
  rw [Traffic.wires, wires]
  simp only [traffic_driver]
  rfl

end Scenario

namespace Monitor

private theorem errors_kept {m : Monitor p} (w : Interface p)
    (patient : ∀ h t count, m.stage = .respond h t count → count + 1 < timeoutLimit) :
    (m.step w).errors = m.errors := by
  cases point : m.point with
  | reset =>
    rw [step_reset point]
    exact (scan_keeps _ _ _).2
  | watch =>
    rw [step_watch point]
    exact (scan_keeps _ _ _).2
  | collect h t => rw [step_collect point]
  | respond h t count =>
    have shows : m.stage = .respond h t count := by rw [stage, point]
    rw [errors_step point, if_neg (Nat.not_le.mpr (patient h t count shows))]
    rfl

end Monitor

namespace Trial

variable {trial : Trial p}

private theorem monitor_errors (room : 2 < p.limit) (legal : trial.scenario.Legal) (cycle : Nat) :
    (Monitor.run trial.scenario.wires cycle).errors = 0 := by
  induction cycle with
  | zero => rfl
  | succ cycle ih =>
    have step : Monitor.run trial.scenario.wires (cycle + 1) =
        (Monitor.run trial.scenario.wires cycle).step (trial.scenario.wires cycle) := rfl
    rw [step, Monitor.errors_kept, ih]
    intro h t count stage
    have follows := inTime room legal cycle
    rw [show Monitor.stageAt trial.scenario.wires cycle = .respond h t count from stage] at follows
    obtain ⟨given, waited, point, longer⟩ := follows
    have short := waits_short room (legal.waits point).wants point
    have limit : Monitor.timeoutLimit = 65535 := rfl
    omega

theorem wellFormed (legal : trial.scenario.Legal) : trial.scenario.traffic.WellFormed := by
  intro h t member _ malformed
  obtain ⟨ops, be⟩ := legal h t member
  rcases malformed with ⟨read, write⟩ | none
  · exact ops (read.trans write.symm)
  · exact be none

theorem env_verdict (legal : trial.scenario.Legal) (cycle : Nat) :
    (trial.env cycle).report.verdict = "PASSED" := by
  have sound := Traffic.totalErrors_zero (wellFormed legal) cycle
  rw [Traffic.scoreboard, Scenario.traffic_wires, ← env_scoreboard] at sound
  exact if_pos sound

theorem recorded_add_queue (trial : Trial p) (h : Host) (cycle : Nat) :
    Monitor.recorded trial.scenario.wires h cycle + (trial.scenario.driver h cycle).queue.length ≤
      (trial.mail h).length := by
  have counted := (Traffic.lagging trial.scenario.traffic h cycle).counted
  have all := Driver.returned_add_queue (trial.scenario.traffic.driver_edge h) cycle
  rw [Scenario.traffic_wires, Traffic.finished, ← length_log] at counted
  rw [Scenario.traffic_driver, Scenario.traffic_driver] at all
  change _ + _ = (trial.mail h).length at all
  rw [← all]
  exact Nat.add_le_add_right counted _

private theorem report_transactions (h : Host) (cycle : Nat) :
    (trial.env cycle).report.transactions h =
      .ofNat 32 (Monitor.recorded trial.scenario.wires h cycle) := by
  rw [Env.report, env_scoreboard]
  exact Scoreboard.numTransactions_run _ _ _

private theorem env_handled (room : 2 < p.limit) (legal : trial.scenario.Legal)
    (empty : ∀ h, (trial.scenario.driver h cycle).queue = []) :
    (trial.env cycle).report.totalTransactionsHandled =
      .ofNat 32 (Host.total fun h => (trial.mail h).length) := by
  rw [Env.report, env_testbench]
  exact responder_done room legal empty

theorem test_ends (trial : Trial p) (n : Nat) :
    (∃ edge < Env.watchdogEdges, (trial.env edge).scoreboard.allDone n = true ∧
      trial.test n = ⟨some edge, (trial.env edge).report⟩) ∨
    (∀ cycle < Env.watchdogEdges, (trial.env cycle).scoreboard.allDone n = false) ∧
      trial.test n = ⟨none, (trial.env Env.watchdogEdges).report⟩ := by
  rw [test]
  cases found : Env.waitForCompletion trial.env n 0 Env.watchdogEdges with
  | some edge =>
    obtain ⟨done, _, before⟩ := Env.wait_breaks found
    exact .inl ⟨edge, by omega, done, rfl⟩
  | none =>
    refine .inr ⟨?_, rfl⟩
    intro cycle before
    exact Env.wait_vain found cycle (Nat.zero_le _) (by omega)

/-- With up to 399 legal transactions for every host the test passes, and the device has
been asked for all of them, however it ends; but it ends by itself only where all have
completed in the rotation. -/
theorem test_legal (room : 2 < p.limit) (legal : trial.scenario.Legal) (n : Nat)
    (filled : ∀ h, (trial.mail h).length = n) (short : n ≤ 399) :
    (trial.test n).report.verdict = "PASSED" ∧
      (trial.test n).report.totalTransactionsHandled.toInt = 4 * n ∧
      ((trial.test n).completed.isSome = true ↔
        ∀ h, ((trial.test n).report.transactions h).toInt = n) ∧
      ((trial.test n).completed.isSome = true ↔
        log trial.scenario.ackedHost Env.watchdogEdges =
          (List.range (4 * n)).map (turn Host.place .slave)) := by
  have edges : Env.watchdogEdges = 9995 := rfl
  have int : n < 2 ^ 31 := by omega
  have sum : (Host.total fun h => (trial.mail h).length) = 4 * n := by
    simp only [filled, Host.total, Host.all, List.foldl_cons, List.foldl_nil]
    omega
  have handled : ∀ cycle, (∀ h, (trial.scenario.driver h cycle).queue = []) →
      (trial.env cycle).report.totalTransactionsHandled.toInt = 4 * n := by
    intro cycle empty
    rw [env_handled room legal empty, sum, toInt_ofNat_eq (by omega)]
    omega
  have shown : ∀ h cycle, ((trial.env cycle).report.transactions h).toInt =
      Monitor.recorded trial.scenario.wires h cycle := by
    intro h cycle
    have bound := filled h ▸ trial.recorded_add_queue h cycle
    rw [report_transactions, toInt_ofNat_eq (by omega)]
  have done : ∀ cycle, (∀ h, ((trial.env cycle).report.transactions h).toInt = n) →
      (trial.env cycle).scoreboard.allDone n = true := fun cycle counted =>
    Scoreboard.allDone_eq_true.mpr fun h => Int.le_of_eq (counted h).symm
  rcases trial.test_ends n with ⟨edge, before, all, same⟩ | ⟨vain, same⟩
  · have full : ∀ h, ((trial.env edge).report.transactions h).toInt = n ∧
        (trial.scenario.driver h edge).queue = [] := by
      intro h
      have bound := filled h ▸ trial.recorded_add_queue h edge
      have least : (n : Int) ≤ ((trial.env edge).report.transactions h).toInt :=
        Scoreboard.allDone_eq_true.mp all h
      rw [shown] at least ⊢
      exact ⟨by omega, List.length_eq_zero_iff.mp (by omega)⟩
    have rotation := rotation_of_allDone room legal n filled (env_scoreboard trial edge ▸ all)
      (show n * 25 < Env.watchdogEdges by omega)
    rw [same]
    refine ⟨env_verdict legal edge, handled edge fun h => (full h).2, ?_, ?_⟩
    · exact ⟨fun _ h => (full h).1, fun _ => rfl⟩
    · exact ⟨fun _ => rotation, fun _ => rfl⟩
  · have unfinished := vain 9994 (by omega)
    have drained : ∀ h, (trial.scenario.driver h Env.watchdogEdges).queue = [] := fun h =>
      (bench_drains room legal h _ (by rw [filled]; omega)).queue
    have settled : log trial.scenario.ackedHost Env.watchdogEdges =
        log trial.scenario.ackedHost 9994 :=
      acked_log_settled room legal n filled (by omega) (by omega)
    have unrotated : log trial.scenario.ackedHost Env.watchdogEdges ≠
        (List.range (4 * n)).map (turn Host.place .slave) := by
      intro rotation
      rw [settled, ← allDone_iff_rotation room legal n filled int, ← env_scoreboard,
        unfinished] at rotation
      cases rotation
    rw [same]
    refine ⟨env_verdict legal _, handled _ drained, ?_, ?_⟩
    · refine ⟨fun completed => absurd completed Bool.false_ne_true, ?_⟩
      intro counted
      have all := done Env.watchdogEdges counted
      rw [env_scoreboard, allDone_iff_rotation room legal n filled int] at all
      exact absurd all unrotated
    · exact ⟨fun completed => absurd completed Bool.false_ne_true,
        fun rotation => absurd rotation unrotated⟩

theorem oneEach_test_legal :
    (oneEach.test 1).report.verdict = "PASSED" ∧
      (oneEach.test 1).report.totalTransactionsHandled.toInt = 4 * (1 : Nat) ∧
      ((oneEach.test 1).completed.isSome = true ↔
        ∀ h, ((oneEach.test 1).report.transactions h).toInt = (1 : Nat)) ∧
      ((oneEach.test 1).completed.isSome = true ↔
        log oneEach.scenario.ackedHost Env.watchdogEdges =
          (List.range (4 * 1)).map (turn Host.place .slave)) :=
  test_legal (by decide) oneEach_legal 1 (fun _ => rfl) (by decide)

/-- With legal transactions no component ever calls `$error`. -/
theorem env_silent (room : 2 < p.limit) (legal : trial.scenario.Legal) (cycle : Nat) :
    (trial.env cycle).monitor.errors = 0 ∧ (trial.env cycle).scoreboard.totalErrors = 0 ∧
      ∀ h, ((trial.env cycle).testbench.bench.driver h).errors = 0 := by
  have sound := Traffic.totalErrors_zero (wellFormed legal) cycle
  rw [Traffic.scoreboard, Scenario.traffic_wires] at sound
  rw [env_monitor, env_scoreboard, env_testbench]
  refine ⟨monitor_errors room legal cycle, sound, ?_⟩
  intro h
  have none := driver_errors room legal h cycle
  rwa [Scenario.driver, ← bench_run] at none

theorem oneEach_env_silent : (oneEach.env 9).monitor.errors = 0 ∧
    (oneEach.env 9).scoreboard.totalErrors = 0 ∧
      ∀ h, ((oneEach.env 9).testbench.bench.driver h).errors = 0 :=
  env_silent (by decide) oneEach_legal 9

end Trial

namespace Generator

variable (g : Generator) (draws : Nat → Draws p)

private theorem never_busy (cycle : Nat) :
    ((g.trial draws).scenario.arbiter cycle).busy = false := by
  rw [((g.trial draws).scenario.refines cycle).busy, Bool.not_eq_false', ← Bool.not_eq_false]
  intro busy
  obtain ⟨h, held, elapsed, running⟩ := Service.access_of_not_ready busy
  obtain ⟨edge, _, granted, _⟩ := Service.access_granted running
  rw [← Scenario.grantAt_seen, never_granted] at granted
  cases granted

private theorem responder_start (cycle : Nat) : (g.trial draws).responder cycle = .start := by
  induction cycle with
  | zero => rfl
  | succ cycle ih =>
    have step : (g.trial draws).responder (cycle + 1) = ((g.trial draws).responder cycle).step
      ((g.trial draws).bench cycle).arbiter.rdBus ((g.trial draws).bench cycle).arbiter.wrBus
      (draws cycle).urandom := rfl
    have idle := never_busy g draws cycle
    rw [Scenario.arbiter, ← Trial.bench_run, Arbiter.busy, Bool.or_eq_false_iff] at idle
    rw [step, ih, idle.1, idle.2]
    rfl

private theorem scoreboard_start (cycle : Nat) :
    Scoreboard.run (g.trial draws).scenario.wires cycle = .start := by
  induction cycle with
  | zero => rfl
  | succ cycle ih =>
    have watches := @Monitor.watches_on _ (g.trial draws).scenario.wires .slave rfl
      (fun cycle => never_requests cycle) cycle
    rw [Scoreboard.run_succ, ih, watches.2]
    rfl

/-- The test with the transactions that the generator makes: unless there are none, the
watchdog ends it, and it passes without having seen one. -/
theorem test_generated : (g.trial draws).test g.numTransactions =
    { completed := if g.numTransactions = 0 then some 0 else none
      report := ⟨fun _ => 0, fun _ => 0, 0, "PASSED", 0⟩ } := by
  have report : ∀ cycle, ((g.trial draws).env cycle).report =
      ⟨fun _ => 0, fun _ => 0, 0, "PASSED", 0⟩ := by
    intro cycle
    rw [Env.report, Trial.env_scoreboard, Trial.env_testbench, scoreboard_start]
    have unused : ((g.trial draws).run cycle).responder = .start := responder_start g draws cycle
    rw [unused]
    rfl
  have done : ∀ cycle, ((g.trial draws).env cycle).scoreboard.allDone g.numTransactions = true ↔
      g.numTransactions = 0 := by
    intro cycle
    rw [Trial.env_scoreboard, scoreboard_start, Scoreboard.allDone_eq_true]
    change (∀ _ : Host, (g.numTransactions : Int) ≤ 0) ↔ _
    exact ⟨fun all => by have one := all .slave; omega, fun none h => by omega⟩
  rcases (g.trial draws).test_ends g.numTransactions with ⟨edge, _, all, same⟩ | ⟨vain, same⟩
  · have none := (done edge).mp all
    have first : (g.trial draws).test g.numTransactions =
        ⟨some 0, ((g.trial draws).env 0).report⟩ := by
      rw [Trial.test]
      have breaks : Env.waitForCompletion (g.trial draws).env g.numTransactions 0
          Env.watchdogEdges = some 0 := if_pos ((done 0).mpr none)
      rw [breaks]
    rw [first, report, if_pos none]
  · have some : g.numTransactions ≠ 0 := by
      intro none
      cases (vain 0 (by decide)).symm.trans ((done 0).mpr none)
    rw [same, report, if_neg some]

end Generator

end RoundRobinArbiter

