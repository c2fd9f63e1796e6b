import RoundRobinArbiter.Coverage.Bins
import RoundRobinArbiter.Testbench.Turns

namespace RoundRobinArbiter

open Synchronous Coverage

/-- What `sample_coverage` takes of a transaction. -/
structure CoverSample where
  hostId : Host
  rd : Bool
  wr : Bool
  addr : BitVec 32
  be : BitVec 4
  ack : BitVec 2

namespace CoverSample

def hostCp : Bins CoverSample := Host.all.map fun h s => s.hostId == h

/-- `op_cp`, but for its illegal bin. -/
def opCp : Bins CoverSample := [fun s => s.rd && !s.wr, fun s => !s.rd && s.wr]

/-- One of the four ranges into which `ranges[4]` splits the addresses. -/
def inRange (i : Nat) (s : CoverSample) : Bool := s.addr.toNat / 2 ^ 30 == i

def addrCp : Bins CoverSample := [inRange 0, inRange 1, inRange 2, inRange 3]

/-- `be_cp`, but for its default bin. -/
def beCp : Bins CoverSample :=
  [fun s => s.be == 0b0001, fun s => s.be == 0b0010, fun s => s.be == 0b0100,
    fun s => s.be == 0b1000, fun s => s.be == 0b1111]

def ackCp : Bins CoverSample :=
  [fun s => s.ack == 0b01, fun s => s.ack == 0b10, fun s => s.ack == 0b11]

def hostOpCross : Bins CoverSample := cross hostCp opCp

def addrBeCross : Bins CoverSample := cross addrCp beCp

def arbiterCg : List (Bins CoverSample) :=
  [hostCp, opCp, addrCp, beCp, ackCp, hostOpCross, addrBeCross]

end CoverSample

def Scoreboard.sampleCoverage (put : Host × Transaction .default) : CoverSample where
  hostId := put.1
  rd := put.2.rd
  wr := put.2.wr
  addr := put.2.addr
  be := put.2.be
  ack := put.2.ack

/-- What the covergroup has sampled before a cycle. -/
def Scoreboard.samples (wires : Nat → Interface .default) (cycle : Nat) : List CoverSample :=
  (log (Monitor.putAt wires) cycle).map sampleCoverage

namespace CoverSample

variable {samples : List CoverSample}

/-- A sample that the constraints and the responder allow. -/
structure Attainable (s : CoverSample) : Prop where
  low : s.addr.toNat < 2 ^ 30
  normal : s.ack = 0b01

private theorem addr_first (attainable : ∀ s ∈ samples, s.Attainable) :
    covered addrCp samples ≤ 1 := by
  refine covered_first ?_
  intro bin member s sampled
  have low := (attainable s sampled).low
  have range : s.addr.toNat / 2 ^ 30 = 0 := Nat.div_eq_of_lt low
  simp only [List.mem_cons, List.not_mem_nil, or_false] at member
  rcases member with rfl | rfl | rfl <;> rw [inRange, range] <;> rfl

private theorem ack_first (attainable : ∀ s ∈ samples, s.Attainable) :
    covered ackCp samples ≤ 1 := by
  refine covered_first ?_
  intro bin member s sampled
  have normal := (attainable s sampled).normal
  simp only [List.mem_cons, List.not_mem_nil, or_false] at member
  rcases member with rfl | rfl <;> simp [normal]

private theorem addrBe_first (attainable : ∀ s ∈ samples, s.Attainable) :
    covered addrBeCross samples ≤ 5 := by
  have pairs := covered_cross_le addrCp beCp samples
  have first := addr_first attainable
  have five : beCp.length = 5 := rfl
  rw [five] at pairs
  rw [addrBeCross]
  omega

private theorem overall_le (attainable : ∀ s ∈ samples, s.Attainable) :
    overall arbiterCg samples ≤ 100 * 29 / 42 := by
  have whole : ∀ bins : Bins CoverSample, percent bins samples ≤ 100 := by
    intro bins
    have bound : percent bins samples ≤ 100 / (1 : Nat) :=
      percent_le Nat.one_pos (by rw [Nat.mul_one]; exact covered_le bins samples)
    simpa using bound
  have host := whole hostCp
  have op := whole opCp
  have be := whole beCp
  have hostOp := whole hostOpCross
  have addr : percent addrCp samples ≤ 100 / (4 : Nat) :=
    percent_le (by decide) (Nat.mul_le_mul_right 4 (addr_first attainable))
  have ack : percent ackCp samples ≤ 100 / (3 : Nat) :=
    percent_le (by decide) (Nat.mul_le_mul_right 3 (ack_first attainable))
  have addrBe : percent addrBeCross samples ≤ 100 / (4 : Nat) :=
    percent_le (by decide) (Nat.mul_le_mul_right 4 (addrBe_first attainable))
  rw [overall]
  simp only [arbiterCg, List.foldl_cons, List.foldl_nil, List.length_cons, List.length_nil]
  norm_num at addr ack addrBe ⊢
  linarith

/-- Five reads and writes of each host reach the ceiling. -/
example : overall arbiterCg
    ([0b0001, 0b0010, 0b0100, 0b1000, 0b1111].flatMap fun be => Host.all.flatMap fun h =>
      [⟨h, true, false, 0, be, 0b01⟩, ⟨h, false, true, 0, be, 0b01⟩]) = 100 * 29 / 42 := by
  decide +kernel

end CoverSample

theorem Transaction.AddrUnique.low {t : Transaction .default} (unique : t.AddrUnique)
    (own : t.hostId = Host.number h) : t.addr.toNat < 2 ^ 30 := by
  have nibble : t.addr.extractLsb' 28 4 = (Host.number h).extractLsb' 0 4 := own ▸ unique
  have small : ((Host.number h).extractLsb' 0 4).toNat < 4 := by
    cases h <;> decide
  rw [← nibble, BitVec.extractLsb'_toNat, Nat.shiftRight_eq_div_pow] at small
  have bound : t.addr.toNat < 2 ^ 32 := t.addr.isLt
  omega

private theorem Transaction.receive_addr (t : Transaction p) (w : Interface p) (h : Host) :
    (t.receive w h).addr = t.addr := by
  unfold receive
  split <;> rfl

private theorem Transaction.receive_ack {t : Transaction p} {w : Interface p}
    (answer : w.ack h ≠ 0) : (t.receive w h).ack = w.ack h := by
  rw [receive, if_pos answer]

namespace Trial

variable {trial : Trial .default}

/-- The mailboxes hold what the constraints of the transaction class allow. -/
def Constrained (trial : Trial .default) : Prop :=
  ∀ h, ∀ t ∈ trial.mail h, t.Legal ∧ t.AddrUnique ∧ t.hostId = Host.number h

private theorem attainable_put (constrained : trial.Constrained)
    (put : Monitor.putAt trial.scenario.wires edge = some item) :
    (Scoreboard.sampleCoverage item).Attainable := by
  have room : 2 < Params.default.limit := by decide
  have legal : trial.scenario.Legal := fun h t member => (constrained h t member).1
  obtain ⟨h, t⟩ := item
  have acked := acked_of_put room legal put
  obtain ⟨start, forwards, rfl⟩ := Monitor.put_forwards put
  have shown : (trial.scenario.wires edge).ack h = 1 := ack_normal room acked
  obtain ⟨given, count, point⟩ := (trial.scenario.consistent h start).waits forwards.wants
  have port : (trial.scenario.wires start).host h = given.port :=
    (trial.scenario.consistent h start).driven given count point
  have addr : (Monitor.observed trial.scenario.wires h start).addr = given.addr :=
    congrArg HostPort.addr port
  obtain ⟨_, unique, own⟩ := constrained h given (Scenario.waits_mail point)
  refine ⟨?_, ?_⟩
  · change ((Monitor.observed _ h start).receive (trial.scenario.wires edge) h).addr.toNat < _
    rw [Transaction.receive_addr, addr]
    exact unique.low own
  · exact (Transaction.receive_ack (by rw [shown]; decide)).trans shown

/-- Whatever is generated within the constraints, and however long the test runs, no sample
hits the timeout or the error bin of `ack_cp` or the upper three ranges of `addr_cp`, and the
coverage stays below 69.05%. -/
theorem coverage_ceiling (constrained : trial.Constrained) (cycle : Nat) :
    (∀ s ∈ Scoreboard.samples trial.scenario.wires cycle,
      s.ack = 0b01 ∧ s.addr.toNat < 2 ^ 30) ∧
    percent CoverSample.addrBeCross (Scoreboard.samples trial.scenario.wires cycle) ≤ 25 ∧
    overall CoverSample.arbiterCg (Scoreboard.samples trial.scenario.wires cycle) ≤
      100 * 29 / 42 := by
  have attainable : ∀ s ∈ Scoreboard.samples trial.scenario.wires cycle, s.Attainable := by
    intro s member
    obtain ⟨item, logged, rfl⟩ := List.mem_map.mp member
    obtain ⟨edge, _, put⟩ := mem_log.mp logged
    exact attainable_put constrained put
  refine ⟨fun s member => ⟨(attainable s member).normal, (attainable s member).low⟩, ?_,
    CoverSample.overall_le attainable⟩
  have bound : percent CoverSample.addrBeCross (Scoreboard.samples trial.scenario.wires cycle) ≤
      100 / (4 : Nat) :=
    percent_le (by decide) (Nat.mul_le_mul_right 4 (CoverSample.addrBe_first attainable))
  norm_num at bound
  exact bound

private theorem oneEach_constrained : oneEach.Constrained := by
  intro h t member
  obtain rfl := List.mem_singleton.mp member
  refine ⟨oneEach_legal h _ (List.mem_singleton.mpr rfl), ?_, rfl⟩
  change (h.number <<< 28).extractLsb' 28 4 = h.number.extractLsb' 0 4
  cases h <;> decide

theorem oneEach_coverage_ceiling :
    (∀ s ∈ Scoreboard.samples oneEach.scenario.wires 30, s.ack = 0b01 ∧ s.addr.toNat < 2 ^ 30) ∧
    percent CoverSample.addrBeCross (Scoreboard.samples oneEach.scenario.wires 30) ≤ 25 ∧
    overall CoverSample.arbiterCg (Scoreboard.samples oneEach.scenario.wires 30) ≤ 100 * 29 / 42 :=
  coverage_ceiling oneEach_constrained 30

end Trial

end RoundRobinArbiter
