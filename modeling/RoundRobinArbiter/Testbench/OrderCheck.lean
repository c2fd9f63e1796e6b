import RoundRobinArbiter.Testbench.Scoreboard

namespace RoundRobinArbiter

open Synchronous

/-- A host is acknowledged: its own request is there and its acknowledge is not zero. -/
def Interface.acked (w : Interface p) (h : Host) : Prop := w.wants h = true ∧ w.ack h ≠ 0

/-- Every host holds its request until its own acknowledge. -/
def HoldsRequests (wires : Nat → Interface p) : Prop :=
  ∀ k h, (wires k).wants h = true → (wires k).ack h = 0 →
    (wires (k + 1)).host h = (wires k).host h

/-- At edge `n` a host is acknowledged although another one, strictly between the host
acknowledged last and this one in cyclic order, has been requesting since before that
last acknowledge. -/
def OutOfOrder (wires : Nat → Interface p) (n : Nat) : Prop :=
  ∃ last chosen waiting r s, r < s ∧ s < n ∧
    (wires s).acked last ∧ (∀ k, s < k → k < n → ∀ h, ¬(wires k).acked h) ∧
    (wires n).acked chosen ∧
    Rotation.ahead Host.place last waiting < Rotation.ahead Host.place last chosen ∧
    ∀ k, r ≤ k → k ≤ n → (wires k).wants waiting = true ∧ (wires k).ack waiting = 0

/-- Every transaction acknowledged before a cycle was detected, not later than it was
acknowledged, and has been forwarded and processed. -/
def Processed (wires : Nat → Interface p) (cycle : Nat) : Prop :=
  ∀ n < cycle, ∀ h, (wires n).acked h → ∃ edge finish, edge ≤ n ∧ finish < cycle ∧
    Monitor.Forwards wires h edge finish ∧
    ∀ k, edge ≤ k → k < n → (wires k).wants h = true ∧ (wires k).ack h = 0

/-- Once everything acknowledged is processed, an acknowledge out of order shows as an
error of the scoreboard. -/
def OrderChecked (wires : Nat → Interface p) : Prop :=
  ∀ cycle, (∃ n < cycle, OutOfOrder wires n) → Processed wires cycle →
    0 < (Scoreboard.run wires cycle).totalErrors.toInt

/-- The order check compares the scoreboard with the monitor, which keep to the same
rotation, and never fails; the errors are the malformed requests that were followed to their
end. Among well-formed requests an acknowledge out of order is therefore never noticed. -/
theorem orderChecked_iff (wires : Nat → Interface p) :
    (∀ edge h t, Monitor.putAt wires edge = some (h, t) →
      (Scoreboard.run wires edge).expectedHost = h) ∧
    (∀ h cycle, (Scoreboard.run wires cycle).numErrors h = .ofNat 32
      (Nat.count (fun edge => Monitor.putHost wires edge = some h ∧
        Scoreboard.refused wires edge = true) cycle)) ∧
    (∀ cycle, (Scoreboard.run wires cycle).totalErrors = .ofNat 32
      (Nat.count (fun edge => Scoreboard.refused wires edge = true) cycle)) ∧
    ((∀ edge h, (wires edge).wants h = true → ¬Scoreboard.Malformed ((wires edge).host h)) →
      (OrderChecked wires ↔
        ∀ cycle, Processed wires cycle → ∀ n < cycle, ¬OutOfOrder wires n)) := by
  refine ⟨fun _ _ _ => Scoreboard.expected_put, Scoreboard.numErrors_run wires,
    Scoreboard.totalErrors_run wires, fun sound => ?_⟩
  constructor
  · intro checked cycle processed n before violated
    have positive := checked cycle ⟨n, before, violated⟩ processed
    rw [Scoreboard.totalErrors_zero sound] at positive
    exact absurd positive (by decide)
  · rintro ordered cycle ⟨n, before, violated⟩ processed
    exact absurd violated (ordered cycle processed n before)

/-- Slave, Test and Extra request from cycle 1 on. The Slave is acknowledged in cycle 3,
the Test host never, and the Extra host in the cycle in which the monitor, which has
given the Test host up, looks for it. -/
def skippingAsks : Host → Nat → Bool
  | .master, _ => false
  | .slave, k => decide (1 ≤ k ∧ k ≤ 3)
  | .test, k => decide (1 ≤ k)
  | .extra, k => decide (1 ≤ k ∧ k ≤ 65541)

def skipping (k : Nat) : Interface .default where
  host h := if skippingAsks h k then .reading 0 else .silent
  drd _ := 0
  ack h := if (h = .slave ∧ k = 3) ∨ (h = .extra ∧ k = 65541) then 1 else 0
  addBus := 0
  byteEn := 0
  wrBus := false
  rdBus := false
  dataBusWr := 0
  dataBusRd := 0
  cpuBus := false

theorem skipping_wants (h : Host) (k : Nat) : (skipping k).wants h = skippingAsks h k := by
  change (if skippingAsks h k = true then .reading 0 else .silent : HostPort .default).wants = _
  cases skippingAsks h k <;> rfl

theorem skipping_ack (h : Host) (k : Nat) :
    (skipping k).ack h = 0 ↔ ¬((h = .slave ∧ k = 3) ∨ (h = .extra ∧ k = 65541)) := by
  simp only [skipping]
  split <;> simp_all

private theorem skipping_acked (acked : (skipping k).acked h) :
    (h = .slave ∧ k = 3) ∨ (h = .extra ∧ k = 65541) := by
  by_contra other
  exact acked.2 ((skipping_ack h k).mpr other)

private theorem skipping_holds : HoldsRequests skipping := by
  intro k h wants silent
  rw [skipping_wants] at wants
  rw [skipping_ack] at silent
  have same : skippingAsks h (k + 1) = skippingAsks h k := by
    cases h <;> simp_all [skippingAsks] <;> omega
  simp only [skipping, same]

private theorem skipping_sound (wants : (skipping k).wants h = true) :
    ¬Scoreboard.Malformed ((skipping k).host h) := by
  rw [skipping_wants] at wants
  have port : (skipping k).host h = .reading 0 := if_pos wants
  rw [port]
  decide

open Monitor in
/-- The monitor takes the Slave's transaction, waits for the Test host in vain, and comes to
the Extra host in time for its acknowledge. -/
private theorem skipping_stages :
    (∃ t, stageAt skipping 3 = .respond .slave t 0) ∧
      ∃ t, stageAt skipping 65541 = .respond .extra t 0 := by
  have zero : stageAt skipping 0 = .watch .slave := rfl
  have one : stageAt skipping 1 = .watch .slave := by rw [stageAt_succ, zero]; rfl
  have two : stageAt skipping 2 =
      .collect .slave (Transaction.collected ((skipping 1).host .slave)) := by
    rw [stageAt_succ, one]
    rfl
  have three : stageAt skipping 3 = .respond .slave (observed skipping .slave 1) 0 := by
    rw [stageAt_succ, two]
    rfl
  have four : stageAt skipping 4 =
      .collect .test (Transaction.collected ((skipping 3).host .test)) := by
    rw [stageAt_succ, three]
    rfl
  have five : stageAt skipping 5 = .respond .test (observed skipping .test 3) 0 := by
    rw [stageAt_succ, four]
    rfl
  have waits := waits_on five 65534 (by decide) (by
    intro k _
    rw [skipping_ack]
    simp)
  have chained : stageAt skipping (5 + 65534 + 1) =
      .collect .extra (Transaction.collected ((skipping (5 + 65534)).host .extra)) := by
    rw [stageAt_succ, waits]
    rfl
  have last : stageAt skipping (5 + 65534 + 1 + 1) =
      .respond .extra (observed skipping .extra (5 + 65534)) 0 := by
    rw [stageAt_succ, chained]
    rfl
  exact ⟨⟨_, three⟩, _, last⟩

private theorem skipping_processed : Processed skipping 65542 := by
  obtain ⟨⟨_, slave⟩, _, extra⟩ := skipping_stages
  intro n _ h acked
  rcases skipping_acked acked with ⟨rfl, rfl⟩ | ⟨rfl, rfl⟩
  · refine ⟨1, 3, by decide, by decide, Monitor.forwards_at_once slave (by decide), ?_⟩
    intro k after before
    rw [skipping_wants, skipping_ack]
    simp [skippingAsks]
    omega
  · refine ⟨65539, 65541, by decide, by decide, Monitor.forwards_at_once extra (by decide), ?_⟩
    intro k after before
    rw [skipping_wants, skipping_ack]
    simp [skippingAsks]
    omega

private theorem skipping_outOfOrder : OutOfOrder skipping 65541 := by
  refine ⟨.slave, .extra, .test, 1, 3, by decide, by decide, ⟨by decide, by decide⟩, ?_,
    ⟨by decide, by decide⟩, by decide, ?_⟩
  · intro k after before h acked
    rcases skipping_acked acked with ⟨_, same⟩ | ⟨_, same⟩ <;> omega
  · intro k after _
    rw [skipping_wants, skipping_ack]
    simp [skippingAsks, after]

theorem skipping_orderChecked_iff :
    OrderChecked skipping ↔
      ∀ cycle, Processed skipping cycle → ∀ n < cycle, ¬OutOfOrder skipping n :=
  (orderChecked_iff skipping).2.2.2 fun _ _ => skipping_sound

/-- The Extra host is served before the Test host, all that was acknowledged is processed,
and no error is counted. -/
theorem skipped_host_unnoticed :
    ¬∀ wires : Nat → Interface .default, HoldsRequests wires → OrderChecked wires := by
  intro holds
  have errors := holds skipping skipping_holds 65542 ⟨65541, by decide, skipping_outOfOrder⟩
    skipping_processed
  rw [Scoreboard.totalErrors_zero fun _ _ => skipping_sound] at errors
  exact absurd errors (by decide)

end RoundRobinArbiter
