import RoundRobinArbiter.Arbiter.Observation
import RoundRobinArbiter.Synchronous.Polling
import RoundRobinArbiter.Testbench.Driver

/-! The four drivers composed with the arbiter and an arbitrary device. Every part
samples the values before an edge, and what it drives is visible from that edge
on. The arbiter of a composed run is a run of the arbiter on what it sees. -/

namespace RoundRobinArbiter

open Synchronous

/-- The index of a host in the arrays of the test bench. -/
def Host.number (h : Host) : BitVec 32 := BitVec.ofNat 32 (Host.place h).val

structure Bench (p : Params) where
  arbiter : Arbiter p
  driver : Host → Driver p

/-- What surrounds arbiter and drivers at an edge: the device, and the delays the
drivers draw. -/
structure Surroundings (p : Params) where
  ackBus : Bool
  dataBusRd : BitVec p.dw
  delay : Host → Delay

namespace Bench

/-- What the arbiter sees at an edge. -/
def inputs (s : Bench p) (around : Surroundings p) : Inputs p where
  host h := (s.driver h).port
  dataBusRd := around.dataBusRd
  ackBus := around.ackBus

def machine (mail : Host → List (Transaction p)) : Machine (Surroundings p) (Bench p) where
  init := { arbiter := .reset, driver := fun h => .start (mail h) }
  step around s :=
    { arbiter := s.arbiter.posedge (s.inputs around) true
      driver := fun h =>
        (s.driver h).step (s.arbiter.ack h) (s.arbiter.drd h) (around.delay h) }

end Bench

/-- What a composed run depends on: the mailboxes and what happens at each edge. -/
structure Scenario (p : Params) where
  mail : Host → List (Transaction p)
  around : Nat → Surroundings p

/-- Every mailbox holds legal transactions only. -/
def Scenario.Legal (scenario : Scenario p) : Prop :=
  ∀ h, ∀ trans ∈ scenario.mail h, trans.Legal

namespace Scenario

variable (scenario : Scenario p)

def run : Nat → Bench p := (Bench.machine scenario.mail).run scenario.around

def arbiter (cycle : Nat) : Arbiter p := (scenario.run cycle).arbiter

def driver (h : Host) (cycle : Nat) : Driver p := (scenario.run cycle).driver h

def seen (cycle : Nat) : Inputs p := (scenario.run cycle).inputs (scenario.around cycle)

def grantAt (edge : Nat) : Option Host :=
  Arbiter.granted (scenario.arbiter edge) (scenario.arbiter (edge + 1))

/-- The transaction with which `drive_transaction` of a host returns at an edge. -/
def returns (h : Host) (edge : Nat) : Option (Transaction p) :=
  (scenario.driver h edge).returns ((scenario.arbiter edge).ack h) ((scenario.arbiter edge).drd h)

theorem arbiter_run (cycle : Nat) : scenario.arbiter cycle = Arbiter.run scenario.seen cycle :=
  (Arbiter.machine p).run_of_step rfl (fun _ => rfl) cycle

theorem grantAt_seen (edge : Nat) : scenario.grantAt edge = Service.grantAt scenario.seen edge := by
  rw [← grantAt_eq, grantAt, arbiter_run, arbiter_run]
  rfl

theorem refines (cycle : Nat) :
    Refines (scenario.arbiter cycle) (Service.run scenario.seen cycle) := by
  rw [arbiter_run]
  exact refines_run scenario.seen cycle

theorem seen_host (cycle : Nat) (h : Host) :
    (scenario.seen cycle).host h = (scenario.driver h cycle).port := rfl

theorem driver_edge (h : Host) (edge : Nat) :
    Driver.Edge ((scenario.arbiter edge).ack h) ((scenario.arbiter edge).drd h)
      (scenario.driver h edge) (scenario.driver h (edge + 1)) (scenario.returns h edge) :=
  Driver.edge _ _ _ ((scenario.around edge).delay h)

theorem consistent (h : Host) (cycle : Nat) : (scenario.driver h cycle).Consistent := by
  induction cycle with
  | zero => exact .start _
  | succ cycle ih => exact (scenario.driver_edge h cycle).consistent ih

variable {scenario}

theorem legal_of_one {t : Transaction p} (mail : ∀ h, scenario.mail h = if h = g then [t] else [])
    (legal : t.Legal) : scenario.Legal := by
  intro h other member
  rw [mail] at member
  split at member
  · obtain rfl := List.mem_singleton.mp member
    exact legal
  · cases member

private theorem queue_mail (h : Host) (cycle : Nat) :
    ∀ t ∈ (scenario.driver h cycle).queue, t ∈ scenario.mail h := by
  induction cycle with
  | zero => exact fun _ member => member
  | succ cycle ih =>
    intro t member
    rcases (scenario.driver_edge h cycle).queue with ⟨_, same⟩ | ⟨head, _, split⟩
    · exact ih t (same ▸ member)
    · refine ih t ?_
      rw [split]
      exact List.mem_cons_of_mem head member

theorem waits_mail {t : Transaction p} (point : (scenario.driver h cycle).point = .ack t count) :
    t ∈ scenario.mail h := by
  refine queue_mail h cycle t ?_
  rw [Driver.queue, point]
  exact List.mem_cons_self

theorem Legal.waits (legal : scenario.Legal) {t : Transaction p}
    (point : (scenario.driver h cycle).point = .ack t count) : t.Legal :=
  legal h t (waits_mail point)

/-- What has been taken off a queue does not come back. -/
theorem queue_empty (empty : (scenario.driver h cycle).queue = []) (more : Nat) :
    (scenario.driver h (cycle + more)).queue = [] := by
  induction more with
  | zero => exact empty
  | succ more ih =>
    rcases (scenario.driver_edge h (cycle + more)).queue with ⟨_, same⟩ | ⟨head, _, split⟩
    · exact same.trans ih
    · cases ih.symm.trans split

theorem not_waiting (empty : (scenario.driver h cycle).queue = []) (t : Transaction p)
    (count : Nat) : (scenario.driver h cycle).point ≠ .ack t count := by
  intro point
  rw [Driver.queue, point] at empty
  cases empty

theorem silent_of_empty (empty : (scenario.driver h cycle).queue = []) :
    (scenario.driver h cycle).port.wants = false := by
  rw [← Bool.not_eq_true]
  intro wants
  obtain ⟨t, count, point⟩ := (scenario.consistent h cycle).waits wants
  exact not_waiting empty t count point

/-- A driver in `wait_for_ack` drove its transaction as many edges ago as it has
counted, and has waited for nothing else since. -/
theorem waiting_since {trans : Transaction p}
    (point : (scenario.driver h cycle).point = .ack trans count) :
    ∃ drive, cycle = drive + 1 + count ∧ (scenario.driver h drive).point = .drive trans ∧
      ∀ k ≤ count, (scenario.driver h (drive + 1 + k)).point = .ack trans k := by
  induction count generalizing cycle with
  | zero =>
    cases cycle with
    | zero => cases point
    | succ cycle =>
      rcases (scenario.driver_edge h cycle).before_ack point with ⟨drives, _⟩ | ⟨_, ahead, _⟩
      · refine ⟨cycle, rfl, drives, ?_⟩
        intro k none
        obtain rfl := Nat.le_zero.mp none
        exact point
      · cases ahead
  | succ count ih =>
    cases cycle with
    | zero => cases point
    | succ cycle =>
      rcases (scenario.driver_edge h cycle).before_ack point with ⟨_, fresh⟩ | ⟨_, same, waits⟩
      · cases fresh
      · cases same
        obtain ⟨drive, position, drives, all⟩ := ih waits
        refine ⟨drive, by omega, drives, ?_⟩
        intro k bound
        rcases Nat.eq_or_lt_of_le bound with last | earlier
        · subst last
          rw [← Nat.add_assoc, ← position]
          exact point
        · exact all k (Nat.le_of_lt_succ earlier)

theorem waits_on {trans : Transaction p}
    (point : (scenario.driver h cycle).point = .ack trans 0) (more : Nat)
    (patient : more < Driver.timeoutLimit)
    (silent : ∀ k < more, (scenario.arbiter (cycle + k)).ack h = 0) :
    (scenario.driver h (cycle + more)).point = .ack trans more := by
  have turn : ∀ cycle count, (scenario.driver h cycle).point = .ack trans count →
      ¬(scenario.arbiter cycle).ack h ≠ 0 → count + 1 < Driver.timeoutLimit →
      (scenario.driver h (cycle + 1)).point = .ack trans (count + 1) := by
    intro cycle count waits quiet within
    exact ((scenario.driver_edge h cycle).goes_on waits (not_not.mp quiet) within).2
  exact counts_on turn point more patient (fun k below => not_not.mpr (silent k below))

end Scenario

end RoundRobinArbiter
