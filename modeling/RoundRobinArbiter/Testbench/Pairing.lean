import RoundRobinArbiter.Arbiter.Handshake
import RoundRobinArbiter.Testbench.Bench

/-! Transactions and accesses. A driver takes any non-zero acknowledge for its own
and gives up after `timeoutLimit` edges, while the arbiter shows every timeout to
all hosts and never cancels an access. As long as drivers return in their own ACK
cycle only, they obey the handshake and every transaction is one access. -/

namespace RoundRobinArbiter

/-- One call of `drive_transaction`: `given` is driven at `drive` and `returned` comes
back at `edge`. Between the two the host is granted once, at `grant`; its access
carries `given`, and `returned` holds what the ACK cycle `finish` of it showed. -/
structure Pairing (scenario : Scenario p) (h : Host) (given returned : Transaction p)
    (drive grant finish edge : Nat) : Prop where
  driven : (scenario.driver h drive).point = .drive given
  waits : ∀ cycle, drive < cycle → cycle ≤ edge →
    ∃ count, (scenario.driver h cycle).point = .ack given count
  order : drive < grant ∧ grant + 1 < finish ∧ finish ≤ edge
  granted : ∀ k, drive ≤ k → k ≤ edge → (scenario.grantAt k = some h ↔ k = grant)
  carries : ∀ cycle, grant < cycle → cycle < finish →
    (scenario.arbiter cycle).accessing h = true ∧
      (scenario.arbiter cycle).lines = given.port.lines ∧
      (scenario.arbiter cycle).rdBus = given.rd ∧ (scenario.arbiter cycle).wrBus = given.wr
  acked : (scenario.arbiter finish).acking h = true
  answer : returned = { given with
    ack := (scenario.arbiter finish).ack h
    rdData := if given.rd then (scenario.arbiter finish).drd h else given.rdData }

/-- The transaction returned at an edge belongs to one access of its own. -/
def Paired (scenario : Scenario p) (h : Host) (returned : Transaction p) (edge : Nat) : Prop :=
  ∃ given drive grant finish, Pairing scenario h given returned drive grant finish edge

/-- Where `timeout_d` is up or the patience of the driver is used up while the driver
waits, the arbiter is in the driver's own ACK state. -/
def Undisturbed (s : Bench p) (h : Host) : Prop :=
  ∀ trans count, (s.driver h).point = .ack trans count →
    s.arbiter.timeoutD = true ∨ Driver.timeoutLimit ≤ count + 1 → s.arbiter.acking h = true

section Composed

variable {scenario : Scenario p} {h : Host} {trans : Transaction p}

theorem ack_of_acking (acked : (scenario.arbiter cycle).acking h = true) :
    (scenario.arbiter cycle).ack h ≠ 0 := by
  rw [Arbiter.ack_ne_zero_iff]
  exact .inl ((scenario.refines cycle).completion_iff.mpr acked)

theorem not_acking_between {other : Transaction p}
    (before : (scenario.driver h cycle).point = .ack trans count)
    (after : (scenario.driver h (cycle + 1)).point = .ack other later) :
    (scenario.arbiter cycle).acking h ≠ true := by
  intro acked
  rcases (scenario.driver_edge h cycle).after_ack before with ⟨quiet, _⟩ | ⟨_, _, _, gone⟩
  · exact ack_of_acking acked quiet
  · exact gone other later after

theorem Pairing.acking {given returned : Transaction p}
    (pairing : Pairing scenario h given returned drive grant finish edge) :
    (scenario.arbiter edge).acking h = true := by
  obtain ⟨first, second, third⟩ := pairing.order
  rcases Nat.eq_or_lt_of_le third with last | earlier
  · exact last ▸ pairing.acked
  · obtain ⟨_, before⟩ := pairing.waits finish (by omega) third
    obtain ⟨_, after⟩ := pairing.waits (finish + 1) (by omega) earlier
    exact absurd pairing.acked (not_acking_between before after)

theorem return_acking (undisturbed : Undisturbed (scenario.run edge) h)
    (returned : scenario.returns h edge = some trans) :
    (scenario.arbiter edge).acking h = true := by
  have step := scenario.driver_edge h edge
  rw [returned] at step
  obtain ⟨given, count, point⟩ := step.return_waits
  rcases step.after_ack point with ⟨_, _, none, _⟩ | ⟨acked | expired, _⟩
  · cases none
  · rcases (Arbiter.ack_ne_zero_iff _ h).mp acked with completes | times
    · exact (scenario.refines edge).completion_iff.mp completes
    · rw [Arbiter.ack_timeout] at times
      exact undisturbed given count point (.inl times)
  · exact undisturbed given count point (.inr expired)

theorem waits_or_acked (undisturbed : Undisturbed (scenario.run cycle) h)
    (point : (scenario.driver h cycle).point = .ack trans count) :
    ((scenario.driver h (cycle + 1)).port = (scenario.driver h cycle).port ∧
        (scenario.driver h (cycle + 1)).point = .ack trans (count + 1)) ∨
      (scenario.arbiter cycle).acking h = true := by
  rcases (scenario.driver_edge h cycle).after_ack point with
    ⟨_, _, _, port, next⟩ | ⟨_, returned, _⟩
  · exact .inl ⟨port, next⟩
  · exact .inr (return_acking undisturbed returned)

theorem handshake_of_undisturbed (legal : scenario.Legal)
    (undisturbed : ∀ cycle, Undisturbed (scenario.run cycle) h) :
    Handshake scenario.seen h where
  exclusive cycle both := by
    have wants : (scenario.driver h cycle).port.wants = true := by
      rw [HostPort.wants, Bool.or_eq_true]
      exact .inl both.1
    obtain ⟨trans, count, point⟩ := (scenario.consistent h cycle).waits wants
    have port := (scenario.consistent h cycle).driven trans count point
    rw [Scenario.seen_host, port] at both
    exact (legal.waits point).ops (both.1.trans both.2.symm)
  holds cycle asks unfinished := by
    obtain ⟨trans, count, point⟩ := (scenario.consistent h cycle).waits asks
    rcases (scenario.driver_edge h cycle).after_ack point with ⟨_, _, _, port, _⟩ |
      ⟨_, returned, _⟩
    · exact port
    · have acked := return_acking (undisturbed cycle) returned
      rw [← scenario.arbiter_run, (scenario.refines cycle).completion_iff.mpr acked] at unfinished
      cases unfinished
  releases cycle asks finished := by
    rw [← scenario.arbiter_run, (scenario.refines cycle).completion_iff] at finished
    obtain ⟨trans, count, point⟩ := (scenario.consistent h cycle).waits asks
    rcases (scenario.driver_edge h cycle).after_ack point with ⟨quiet, _⟩ | ⟨_, _, dropped, _⟩
    · exact absurd quiet (ack_of_acking finished)
    · exact dropped

/-- An undisturbed driver returns every transaction with its own access. -/
theorem paired_of_undisturbed (legal : scenario.Legal)
    (undisturbed : ∀ cycle, Undisturbed (scenario.run cycle) h)
    (returned : scenario.returns h edge = some trans) : Paired scenario h trans edge := by
  have obeys := handshake_of_undisturbed legal undisturbed
  have acking := return_acking (undisturbed edge) returned
  have step := scenario.driver_edge h edge
  rw [returned] at step
  obtain ⟨given, count, point⟩ := step.return_waits
  obtain ⟨drive, position, driven, counts⟩ := Scenario.waiting_since point
  have waits : ∀ cycle, drive < cycle → cycle ≤ edge →
      ∃ count, (scenario.driver h cycle).point = .ack given count := by
    intro cycle after before
    obtain ⟨k, rfl⟩ := Nat.exists_eq_add_of_le after
    exact ⟨k, counts k (by omega)⟩
  have acked := (scenario.refines edge).acking_iff.mp acking
  obtain ⟨grant, inside, granted, access⟩ := Service.ack_granted acked
  have quiet : ∀ cycle, drive < cycle → cycle < edge →
      Service.run scenario.seen cycle ≠ .ack h := by
    intro cycle after before answered
    obtain ⟨_, now⟩ := waits cycle after (Nat.le_of_lt before)
    obtain ⟨_, next⟩ := waits (cycle + 1) (Nat.lt_succ_of_lt after) before
    exact not_acking_between now next ((scenario.refines cycle).acking_iff.mpr answered)
  have started : drive < grant := by
    by_contra early
    -- the host would be asking while its driver has not driven yet
    have asks : (scenario.seen drive).wants h = true := by
      rcases Nat.eq_or_lt_of_le (Nat.le_of_not_lt early) with same | before
      · exact same ▸ Service.grantFrom_wants granted
      · obtain ⟨_, busy⟩ := access drive before (by omega)
        exact obeys.served_wants drive (Service.owner_eq_some_iff.mpr (.inl ⟨_, _, busy⟩))
    obtain ⟨other, count, waiting⟩ := (scenario.consistent h drive).waits asks
    cases driven.symm.trans waiting
  refine ⟨given, drive, grant, edge, driven, waits, ⟨started, inside, Nat.le_refl _⟩, ?_, ?_,
    acking, ?_⟩
  · intro k after before
    rw [Scenario.grantAt_seen]
    exact Service.granted_once acked quiet granted (by omega) access k after before
  · intro cycle after before
    obtain ⟨now, running⟩ := access cycle after before
    obtain ⟨_, asking⟩ := waits grant started (by omega)
    have refines := scenario.refines cycle
    rw [running, Scenario.seen_host, (scenario.consistent h grant).driven given _ asking] at refines
    have carries := refines.carries
    have one := (legal.waits asking).ops
    refine ⟨refines.accessing_iff.mpr ⟨_, _, rfl⟩, refines.lines _ _ _ rfl,
      carries.2.2.2.2.1, carries.2.2.2.2.2.trans ?_⟩
    cases read : given.rd <;> cases write : given.wr <;> simp_all [Transaction.port]
  · rcases step.after_ack point with ⟨_, _, none, _⟩ | ⟨_, answer, _⟩
    · cases none
    · rw [Option.some.inj answer, Transaction.respond, if_pos (ack_of_acking acking)]

/-- Every returned transaction is paired with an access of its own exactly in the
runs in which no waiting driver is disturbed. -/
theorem paired_iff_undisturbed (legal : scenario.Legal) :
    (∀ h edge returned, scenario.returns h edge = some returned →
      Paired scenario h returned edge) ↔
        ∀ h cycle, Undisturbed (scenario.run cycle) h := by
  constructor
  · intro paired h cycle trans count point disturbs
    rcases (scenario.driver_edge h cycle).after_ack point with ⟨quiet, patient, _⟩ |
      ⟨_, returned, _⟩
    · rcases disturbs with times | expired
      · refine absurd quiet ((Arbiter.ack_ne_zero_iff _ h).mpr (.inr ?_))
        rw [Arbiter.ack_timeout]
        exact times
      · omega
    · obtain ⟨_, _, _, _, pairing⟩ := paired h cycle _ returned
      exact pairing.acking
  · intro undisturbed h edge returned
    exact paired_of_undisturbed legal (undisturbed h)

end Composed

/-- A read of the Slave as the generator would number and address it. -/
def slaveRead : Transaction .default :=
  { Transaction.new true 1 with addr := 0x10000000, rd := true, be := 1 }

/-- The Slave has one read, and the device never answers. -/
def unansweredRead : Scenario .default where
  mail h := if h = .slave then [slaveRead] else []
  around _ := { ackBus := false, dataBusRd := 0, delay := fun _ => ⟨1, by decide, by decide⟩ }

theorem unansweredRead_legal : unansweredRead.Legal :=
  Scenario.legal_of_one (fun _ => rfl) ⟨by decide, by decide⟩

theorem paired_iff_undisturbed_unansweredRead :
    (∀ h edge returned, unansweredRead.returns h edge = some returned →
      Paired unansweredRead h returned edge) ↔
        ∀ h cycle, Undisturbed (unansweredRead.run cycle) h :=
  paired_iff_undisturbed unansweredRead_legal

theorem slave_access_runs (k : Nat) (room : k ≤ 65534) :
    ∃ held now, now.val = k ∧
      Service.run unansweredRead.seen (4 + k) = .access .slave held now := by
  have granted : Service.grantAt unansweredRead.seen 3 = some .slave := by
    rw [← Scenario.grantAt_seen]
    decide
  obtain ⟨now, count, running⟩ := Service.access_runs_on (Service.grantFrom_access granted) k
    (by rw [Fin.val_zero, Nat.zero_add]; exact room) (fun _ _ => rfl)
  exact ⟨_, now, by rw [count, Fin.val_zero, Nat.zero_add], running⟩

theorem slave_unacknowledged (k : Nat) (room : k ≤ 65534) :
    (unansweredRead.arbiter (3 + k)).ack .slave = 0 := by
  cases k with
  | zero => decide
  | succ k =>
    obtain ⟨held, now, _, running⟩ := slave_access_runs k (by omega)
    rw [show 3 + (k + 1) = 4 + k by omega]
    by_contra acked
    rcases (Arbiter.ack_ne_zero_iff _ _).mp acked with completes | times
    · have refines := unansweredRead.refines (4 + k)
      cases running.symm.trans (refines.acking_iff.mp (refines.completion_iff.mp completes))
    · rw [Arbiter.ack_timeout, show 4 + k = 3 + k + 1 by omega] at times
      change (unansweredRead.arbiter (3 + k)).timeout = true at times
      cases k with
      | zero => exact absurd times (by decide)
      | succ k =>
        obtain ⟨held, now, count, running⟩ := slave_access_runs k (by omega)
        have refines := unansweredRead.refines (4 + k)
        rw [running] at refines
        rw [show 3 + (k + 1) = 4 + k by omega, refines.timeout, count] at times
        have limit : Params.default.limit = 65534 := rfl
        omega

theorem slave_gives_up : ∃ returned held now,
    unansweredRead.returns .slave (3 + 65534) = some returned ∧
      Service.run unansweredRead.seen (3 + 65534) = .access .slave held now := by
  have driven : (unansweredRead.driver .slave 3).point = .ack slaveRead 0 := rfl
  have waits := Scenario.waits_on driven 65534 (by decide)
    (fun k below => slave_unacknowledged k (Nat.le_of_lt below))
  obtain ⟨held, now, _, running⟩ := slave_access_runs 65533 (by decide)
  have returned := (unansweredRead.driver_edge .slave (3 + 65534)).ends waits (.inr (by decide))
  exact ⟨_, held, now, returned, running⟩

/-- The driver returns while its own access is still running. -/
theorem unanswered_read_unpaired :
    ¬∀ scenario : Scenario .default, scenario.Legal → ∀ h edge returned,
      scenario.returns h edge = some returned → Paired scenario h returned edge := by
  intro paired
  obtain ⟨_, held, now, returned, running⟩ := slave_gives_up
  obtain ⟨_, _, _, _, pairing⟩ := paired unansweredRead unansweredRead_legal _ _ _ returned
  have acked := (unansweredRead.refines (3 + 65534)).acking_iff.mp pairing.acking
  cases running.symm.trans acked

end RoundRobinArbiter
