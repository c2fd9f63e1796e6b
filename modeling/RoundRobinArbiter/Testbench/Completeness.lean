import RoundRobinArbiter.Testbench.Counting
import RoundRobinArbiter.Testbench.Pairing

namespace RoundRobinArbiter

open Synchronous

/-- What the arbiter drives of `arbiter_if`, with the read data of the device. -/
def Arbiter.outputs (s : Arbiter p) (dataBusRd : BitVec p.dw) : Outputs p where
  drd := s.drd
  ack := s.ack
  addBus := s.addBus
  byteEn := s.byteEn
  wrBus := s.wrBus
  rdBus := s.rdBus
  dataBusWr := s.dataBusWr
  dataBusRd := dataBusRd
  cpuBus := s.cpuBus

/-- A completed transaction as both sides tell it: write data of a write, read data of
a read. -/
structure Completion (p : Params) where
  addr : BitVec p.aw
  rd : Bool
  wr : Bool
  be : BitVec p.bw
  cpu : Bool
  data : Option (BitVec p.dw)
  rdData : Option (BitVec p.dw)
  deriving DecidableEq

def HostPort.completion (port : HostPort p) (drd : BitVec p.dw) : Completion p where
  addr := port.addr
  rd := port.rd
  wr := port.wr
  be := port.be
  cpu := port.cpu
  data := if port.wr then some port.dwr else none
  rdData := if port.rd then some drd else none

def Transaction.completion (t : Transaction p) : Completion p where
  addr := t.addr
  rd := t.rd
  wr := t.wr
  be := t.be
  cpu := t.cpu
  data := if t.wr then some t.data else none
  rdData := if t.rd then some t.rdData else none

theorem Transaction.completion_collected (port : HostPort p) (bus : Interface p)
    {w : Interface p} (answer : w.ack h ≠ 0) :
    (((Transaction.collected port).collectSlave bus).receive w h).completion =
      port.completion (w.drd h) := by
  obtain ⟨addr, rd, wr, be, dwr, cpu⟩ := port
  rw [Transaction.receive, if_pos answer]
  cases wr <;> cases rd <;> rfl

namespace Scenario

variable (scenario : Scenario p)

def wires (cycle : Nat) : Interface p :=
  { (scenario.arbiter cycle).outputs (scenario.around cycle).dataBusRd with
    host := fun h => (scenario.driver h cycle).port }

/-- The transaction of a host that an ACK pulse completes in a cycle. -/
def completed (h : Host) (cycle : Nat) : Option (Completion p) :=
  if (scenario.arbiter cycle).acking h then
    some ((scenario.driver h cycle).port.completion ((scenario.arbiter cycle).drd h))
  else none

/-- The transaction that the monitor puts into the mailbox of a host at an edge. -/
def forwarded (h : Host) (edge : Nat) : Option (Completion p) :=
  match Monitor.putAt scenario.wires edge with
  | some (g, t) => if g = h then some t.completion else none
  | none => none

/-- In the ACK cycle of a host the monitor looks for the response to that host. -/
def Attended (cycle : Nat) : Prop :=
  ∀ h, (scenario.arbiter cycle).acking h = true →
    ∃ t count, Monitor.stageAt scenario.wires cycle = .respond h t count

/-- The device answers every access before it times out. -/
def AnsweredBefore : Prop :=
  ∀ edge h, scenario.grantAt edge = some h →
    ∃ k < p.limit, (scenario.around (edge + 1 + k)).ackBus = true

/-- Whenever the monitor is not collecting, the mailbox of every host has held exactly
the transactions that completed on the interface, in their order. -/
def MonitorComplete : Prop :=
  ∀ cycle, (∃ g, Monitor.stageAt scenario.wires cycle = .watch g) →
    ∀ h, log (scenario.forwarded h) cycle = log (scenario.completed h) cycle

variable {scenario}

/-- The driver of a host that the monitor follows requests, and has been waiting for longer. -/
def Tracked (scenario : Scenario p) (h : Host) (cycle : Nat) : Prop :=
  ∀ edges, (Monitor.stageAt scenario.wires cycle).following h = some edges →
    (scenario.driver h cycle).port.wants = true ∧
      ∃ t count, (scenario.driver h cycle).point = .ack t count ∧ edges ≤ count

section Runs

variable (undisturbed : ∀ h cycle, (scenario.driver h cycle).port.wants = true →
  Undisturbed (scenario.run cycle) h)
variable (attended : ∀ cycle, scenario.Attended cycle)

include attended in
private theorem puts_of_acking (acked : (scenario.arbiter cycle).acking h = true) :
    ∃ t count, Monitor.stageAt scenario.wires cycle = .respond h t count ∧
      Monitor.putAt scenario.wires cycle = some (h, t.receive (scenario.wires cycle) h) := by
  obtain ⟨t, count, stage⟩ := attended cycle h acked
  exact ⟨t, count, stage, Monitor.put_of_stops stage (.inl (ack_of_acking acked))⟩

include undisturbed attended in
private theorem Tracked.step (tracked : Tracked scenario h cycle) :
    Tracked scenario h (cycle + 1) := by
  intro edges follows
  have unacked : (Monitor.putAt scenario.wires cycle).map Prod.fst ≠ some h →
      (scenario.arbiter cycle).acking h ≠ true := by
    intro other acked
    obtain ⟨t, count, _, put⟩ := puts_of_acking attended acked
    exact other (by rw [put]; rfl)
  rcases (Monitor.stage_edge scenario.wires cycle).following h with ⟨_, ended, _⟩ | ⟨other, next⟩
  · cases ended.symm.trans follows
  · rcases next with none | ⟨first, wants⟩ | ⟨earlier, before, after⟩
    · cases none.symm.trans follows
    · cases first.symm.trans follows
      obtain ⟨t, count, point⟩ := (scenario.consistent h cycle).waits wants
      obtain ⟨port, next⟩ :=
        (waits_or_acked (undisturbed h cycle wants) point).resolve_right (unacked other)
      exact ⟨port ▸ wants, t, count + 1, next, Nat.succ_le_succ (Nat.zero_le count)⟩
    · cases after.symm.trans follows
      obtain ⟨wants, t, count, point, longer⟩ := tracked earlier before
      obtain ⟨port, next⟩ :=
        (waits_or_acked (undisturbed h cycle wants) point).resolve_right (unacked other)
      exact ⟨port ▸ wants, t, count + 1, next, Nat.succ_le_succ longer⟩

include undisturbed attended in
theorem tracked (h : Host) (cycle : Nat) : Tracked scenario h cycle := by
  induction cycle with
  | zero => exact nofun
  | succ cycle ih => exact ih.step undisturbed attended

include undisturbed attended in
private theorem acking_of_puts (put : Monitor.putAt scenario.wires cycle = some (h, t)) :
    (scenario.arbiter cycle).acking h = true := by
  rcases (Monitor.stage_edge scenario.wires cycle).following h with
    ⟨_, _, count, follows, stops⟩ | ⟨other, _⟩
  · obtain ⟨wants, t, waited, point, longer⟩ := tracked undisturbed attended h cycle _ follows
    rcases (scenario.driver_edge h cycle).after_ack point with ⟨silent, patient, _⟩ |
      ⟨_, returned, _⟩
    · rcases stops with acked | expired
      · exact absurd silent acked
      · have same : Driver.timeoutLimit = Monitor.timeoutLimit := rfl
        omega
    · exact return_acking (undisturbed h cycle wants) returned
  · exact absurd (by rw [put]; rfl) other

include undisturbed attended in
private theorem followed_port (stage : Monitor.stageAt scenario.wires cycle = .respond h t count) :
    ∃ edge, (scenario.driver h edge).port = (scenario.driver h cycle).port ∧
      t = Monitor.observed scenario.wires h edge := by
  obtain ⟨edge, position, _, _, same, _⟩ := Monitor.respond_detected stage
  refine ⟨edge, ?_, same⟩
  have follows : (Monitor.stageAt scenario.wires cycle).following h = some (count + 2) := by
    rw [stage]
    exact if_pos rfl
  obtain ⟨_, given, waited, point, longer⟩ := tracked undisturbed attended h cycle _ follows
  obtain ⟨drive, since, _, all⟩ := Scenario.waiting_since point
  obtain ⟨k, reached⟩ : ∃ k, edge = drive + 1 + k := ⟨edge - (drive + 1), by omega⟩
  have then_ := all k (by omega)
  rw [← reached] at then_
  rw [(scenario.consistent h edge).driven given k then_,
    (scenario.consistent h cycle).driven given waited point]

include undisturbed attended in
private theorem forwarded_eq (h : Host) (cycle : Nat) :
    scenario.forwarded h cycle = scenario.completed h cycle := by
  unfold forwarded completed
  by_cases acked : (scenario.arbiter cycle).acking h = true
  · obtain ⟨t, count, stage, put⟩ := puts_of_acking attended acked
    obtain ⟨edge, kept, rfl⟩ := followed_port undisturbed attended stage
    have shown : (scenario.wires cycle).ack h ≠ 0 := ack_of_acking acked
    rw [put, if_pos acked, ← kept]
    have done := Transaction.completion_collected ((scenario.wires edge).host h)
      (scenario.wires (edge + 1)) shown
    simp only [↓reduceIte, Monitor.observed, done]
    rfl
  · rw [if_neg acked]
    cases put : Monitor.putAt scenario.wires cycle with
    | none => rfl
    | some item =>
      obtain ⟨g, t⟩ := item
      have other : g ≠ h := by
        rintro rfl
        exact acked (acking_of_puts undisturbed attended put)
      exact if_neg other

end Runs

end Scenario

/-- As long as no driver that waits with a request is disturbed and every host completes under
the eyes of the monitor, the monitor records every completion, once and in order. -/
theorem monitor_complete {scenario : Scenario p}
    (undisturbed : ∀ h cycle, (scenario.driver h cycle).port.wants = true →
      Undisturbed (scenario.run cycle) h)
    (attended : ∀ cycle, scenario.Attended cycle) : scenario.MonitorComplete := by
  intro cycle _ h
  exact congrArg (fun event => log event cycle)
    (funext (Scenario.forwarded_eq undisturbed attended h))

/-- A read of a host at an address of its own. -/
def ownRead (h : Host) : Transaction .default :=
  { Transaction.new true h.number with addr := h.number <<< 28, rd := true, be := 1 }

theorem ownRead_legal (h : Host) : (ownRead h).Legal := by
  refine ⟨Bool.noConfusion, ?_⟩
  change (1 : BitVec 4) ≠ 0
  decide

/-- Every host reads once, and the device answers when the monitor has just seen the access. -/
def attendedReads : Scenario .default where
  mail h := [ownRead h]
  around edge := { unansweredRead.around edge with ackBus := edge % 3 == 2 }

private theorem attendedReads_empty (h : Host) (more : Nat) :
    (attendedReads.driver h (16 + more)).queue = [] :=
  Scenario.queue_empty (by cases h <;> rfl) more

private theorem attendedReads_rests (more : Nat) :
    Service.run attendedReads.seen (16 + more) = .idle none := by
  induction more with
  | zero => rfl
  | succ more ih =>
    have next : Service.run attendedReads.seen (16 + (more + 1)) =
        (Service.run attendedReads.seen (16 + more)).step (attendedReads.seen (16 + more)) := rfl
    have silent : ∀ h, (attendedReads.seen (16 + more)).wants h = false :=
      fun h => Scenario.silent_of_empty (attendedReads_empty h more)
    rw [next, ih, Service.step_ready rfl, Service.arbitrate, pick_silent silent]
    simp [silent, Service.pointer]

private theorem attendedReads_undisturbed (h : Host) (cycle : Nat) :
    Undisturbed (attendedReads.run cycle) h := by
  intro t count point disturbs
  rcases Nat.lt_or_ge cycle 16 with early | late
  · have quiet : ∀ k < 16, (attendedReads.arbiter k).timeoutD = false := by decide
    rcases disturbs with times | expired
    · cases (quiet cycle early).symm.trans times
    · obtain ⟨drive, position, _⟩ := Scenario.waiting_since point
      have limit : Driver.timeoutLimit = 65535 := rfl
      omega
  · obtain ⟨more, rfl⟩ := Nat.exists_eq_add_of_le late
    exact absurd point (Scenario.not_waiting (attendedReads_empty h more) t count)

private theorem attendedReads_attended (cycle : Nat) : attendedReads.Attended cycle := by
  intro h acked
  rcases Nat.lt_or_ge cycle 16 with early | late
  · have four : ∀ k < 16, ∀ h ∈ Host.all, (attendedReads.arbiter k).acking h = true →
        k = 6 ∧ h = .slave ∨ k = 9 ∧ h = .test ∨ k = 12 ∧ h = .extra ∨ k = 15 ∧ h = .master := by
      decide
    rcases four cycle early h (Host.mem_all h) acked with
      ⟨rfl, rfl⟩ | ⟨rfl, rfl⟩ | ⟨rfl, rfl⟩ | ⟨rfl, rfl⟩
    · exact ⟨_, _, rfl⟩
    · exact ⟨_, _, rfl⟩
    · exact ⟨_, _, rfl⟩
    · exact ⟨_, _, rfl⟩
  · obtain ⟨more, rfl⟩ := Nat.exists_eq_add_of_le late
    cases (attendedReads_rests more).symm.trans ((attendedReads.refines _).acking_iff.mp acked)

theorem attendedReads_complete : attendedReads.MonitorComplete :=
  monitor_complete (fun h cycle _ => attendedReads_undisturbed h cycle) attendedReads_attended

/-- A read of the Master as the generator would number and address it. -/
def masterRead : Transaction .default :=
  { Transaction.new true 0 with addr := 0, rd := true, be := 1 }

/-- Only the Master has a transaction, and the device answers at once. -/
def masterAlone : Scenario .default where
  mail h := if h = .master then [masterRead] else []
  around edge := { unansweredRead.around edge with ackBus := true }

private theorem masterAlone_legal : masterAlone.Legal :=
  Scenario.legal_of_one (fun _ => rfl) ⟨by decide, by decide⟩

/-- The monitor watches the Slave, which has nothing to do, and never sees the Master's
transaction. -/
theorem master_unseen : ¬∀ scenario : Scenario .default, scenario.Legal →
    scenario.AnsweredBefore → scenario.MonitorComplete := by
  intro complete
  have answered : masterAlone.AnsweredBefore := fun _ _ _ => ⟨0, by decide, rfl⟩
  have idle : ∀ cycle, (masterAlone.wires cycle).wants .slave = false := by
    intro cycle
    have empty : (masterAlone.driver .slave (0 + cycle)).queue = [] :=
      Scenario.queue_empty rfl cycle
    rw [Nat.zero_add] at empty
    exact Scenario.silent_of_empty empty
  have start : Monitor.stageAt masterAlone.wires 0 = .watch .slave := rfl
  have watches := Monitor.watches_on start idle
  have same := complete masterAlone masterAlone_legal answered 7 ⟨.slave, (watches 7).1⟩ .master
  have none : log (masterAlone.forwarded .master) 7 = [] :=
    log_eq_nil (fun edge => by rw [Scenario.forwarded, (watches edge).2]) 7
  have acked : (masterAlone.arbiter 6).acking .master = true := by decide
  have last : masterAlone.completed .master 6 = some _ := if_pos acked
  rw [none, log, last] at same
  exact List.append_ne_nil_of_right_ne_nil _ (List.cons_ne_nil _ _) same.symm

end RoundRobinArbiter
