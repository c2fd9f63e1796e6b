import RoundRobinArbiter.Testbench.Completeness
import RoundRobinArbiter.Testbench.Responder

namespace RoundRobinArbiter

open Synchronous

/-- What is drawn at random at an edge. -/
structure Draws (p : Params) where
  delay : Host → Delay
  urandom : BitVec p.dw

/-- The drivers and the arbiter with the responder as the device. -/
structure Testbench (p : Params) where
  bench : Bench p
  responder : Responder p

/-- A run of the whole bench is fixed by the mailboxes and by what is drawn. -/
structure Trial (p : Params) where
  mail : Host → List (Transaction p)
  draws : Nat → Draws p

namespace Testbench

def around (s : Testbench p) (draws : Draws p) : Surroundings p where
  ackBus := s.responder.ackBus
  dataBusRd := s.responder.dataBusRd
  delay := draws.delay

def machine (mail : Host → List (Transaction p)) : Machine (Draws p) (Testbench p) where
  init := { bench := (Bench.machine mail).init, responder := .start }
  step draws s :=
    { bench := (Bench.machine mail).step (s.around draws) s.bench
      responder := s.responder.step s.bench.arbiter.rdBus s.bench.arbiter.wrBus draws.urandom }

end Testbench

namespace Trial

variable (trial : Trial p)

def run : Nat → Testbench p := (Testbench.machine trial.mail).run trial.draws

def bench (cycle : Nat) : Bench p := (trial.run cycle).bench

def responder (cycle : Nat) : Responder p := (trial.run cycle).responder

def scenario : Scenario p where
  mail := trial.mail
  around cycle := (trial.run cycle).around (trial.draws cycle)

def demand (cycle : Nat) : Demand p where
  host h := ((trial.bench cycle).driver h).port
  urandom := (trial.draws cycle).urandom

def served (cycle : Nat) : Served p := ⟨(trial.bench cycle).arbiter, trial.responder cycle⟩

theorem bench_run (cycle : Nat) : trial.bench cycle = trial.scenario.run cycle :=
  (Bench.machine trial.mail).run_of_step rfl (fun _ => rfl) cycle

theorem served_run (cycle : Nat) : trial.served cycle = Served.run .reset trial.demand cycle :=
  (Served.machine .reset).run_of_step rfl (fun _ => rfl) cycle

theorem arbiter_eq (cycle : Nat) :
    trial.scenario.arbiter cycle = Served.arbiterAt .reset trial.demand cycle := by
  rw [Served.arbiterAt, ← served_run, Scenario.arbiter, ← bench_run]
  rfl

theorem responder_eq (cycle : Nat) :
    trial.responder cycle = Served.responderAt .reset trial.demand cycle := by
  rw [Served.responderAt, ← served_run]
  rfl

private theorem seen_eq : trial.scenario.seen = Served.seen .reset trial.demand := by
  funext cycle
  rw [Scenario.seen, ← bench_run, Served.seen, ← served_run]
  rfl

theorem view_eq (cycle : Nat) : Service.run trial.scenario.seen cycle =
    Served.view (some .master) .reset trial.demand cycle := by
  rw [seen_eq]
  rfl

theorem grantAt_eq (edge : Nat) :
    trial.scenario.grantAt edge = Served.grantAt .reset trial.demand edge := by
  rw [Scenario.grantAt, Served.grantAt, arbiter_eq, arbiter_eq]

theorem phase (room : 1 < p.limit) (cycle : Nat) :
    Phase (Served.grants .reset trial.demand cycle) (Served.acks .reset trial.demand cycle)
      (Service.run trial.scenario.seen cycle) (trial.responder cycle) := by
  rw [view_eq, responder_eq]
  exact Served.phase trial.demand .reset room cycle

section Cycles

variable {trial}

/-- No timeout is ever shown, so that an acknowledge is a host's own. -/
theorem ack_iff (room : 2 < p.limit) (h : Host) (cycle : Nat) :
    (trial.scenario.arbiter cycle).ack h ≠ 0 ↔
      Service.run trial.scenario.seen cycle = .ack h := by
  have quiet : (trial.scenario.arbiter cycle).timeoutD = false := by
    cases cycle with
    | zero => rfl
    | succ cycle =>
      have never : (Served.arbiterAt .reset trial.demand cycle).timeout = false :=
        Served.timeout_never .reset room rfl cycle
      rw [← arbiter_eq] at never
      exact never
  rw [Arbiter.ack_ne_zero_iff, Arbiter.ack_timeout, quiet,
    (trial.scenario.refines cycle).completion_iff, (trial.scenario.refines cycle).acking_iff]
  simp

/-- The access granted to `h` at an edge, with the word that the responder draws for it:
two cycles of the access, and the ACK cycle, in which the word has been taken back. -/
structure Access (trial : Trial p) (h : Host) (grant : Nat) : Prop where
  running : ∀ cycle, cycle = grant + 1 ∨ cycle = grant + 2 → ∃ now,
    Service.run trial.scenario.seen cycle =
      .access h ((trial.scenario.driver h grant).port).request now
  acked : Service.run trial.scenario.seen (grant + 3) = .ack h
  loaded : ((trial.scenario.driver h grant).port).rd = true →
    (trial.scenario.arbiter (grant + 3)).drd h = (trial.draws (grant + 1)).urandom
  cleared : (trial.responder (grant + 3)).dataBusRd = 0

private theorem word_drawn (room : 1 < p.limit)
    (running : Service.run trial.scenario.seen cycle = .access h held 0)
    (read : (trial.scenario.arbiter cycle).rdBus = true) :
    (trial.responder (cycle + 1)).dataBusRd = (trial.draws cycle).urandom := by
  have phase := trial.phase room cycle
  rw [running] at phase
  have step : trial.responder (cycle + 1) = (trial.responder cycle).step
    (trial.bench cycle).arbiter.rdBus (trial.bench cycle).arbiter.wrBus
    (trial.draws cycle).urandom := rfl
  have bus : (trial.bench cycle).arbiter.rdBus = true := by
    rw [bench_run]
    exact read
  rw [step, Responder.step, phase.watching.1, bus]
  rfl

theorem access_of_grant (room : 1 < p.limit) (granted : trial.scenario.grantAt grant = some h) :
    Access trial h grant := by
  have served : Served.grantAt .reset trial.demand grant = some h :=
    (trial.grantAt_eq grant).symm.trans granted
  obtain ⟨held, now, one, two, acked⟩ := Served.view_granted .reset room served
  rw [← view_eq] at one two acked
  rw [Scenario.grantAt_seen] at granted
  obtain rfl : held = ((trial.scenario.driver h grant).port).request := by
    cases one.symm.trans (Service.grantFrom_access granted)
    rfl
  have second := trial.phase room (grant + 2)
  have third := trial.phase room (grant + 3)
  rw [two] at second
  rw [acked] at third
  refine ⟨?_, acked, ?_, third.cleared rfl⟩
  · rintro cycle (rfl | rfl)
    · exact ⟨0, one⟩
    · exact ⟨now, two⟩
  · intro read
    have shown := trial.scenario.refines (grant + 1)
    rw [one] at shown
    have direction : (trial.scenario.arbiter (grant + 1)).rdBus = true := by
      rw [shown.carries.2.2.2.2.1, read]
    have answer : (trial.scenario.seen (grant + 2)).ackBus = true := by
      refine second.answers.2.mpr ?_
      rcases Service.access_next one with ⟨_, _, next, one_, running⟩ | ⟨_, early⟩
      · cases two.symm.trans running
        exact one_
      · cases two.symm.trans early
    -- the arbiter loads the word at the second edge
    have loaded : (trial.scenario.arbiter (grant + 3)).drd h =
        (trial.scenario.seen (grant + 2)).dataBusRd := by
      rw [trial.scenario.arbiter_run]
      exact if_pos answer
    rw [loaded, ← word_drawn room one direction]
    rfl

private theorem grant_near (room : 1 < p.limit)
    (running : (trial.scenario.arbiter (edge + 1)).accessing h = true) :
    ∃ grant, (grant = edge ∨ grant + 1 = edge) ∧ trial.scenario.grantAt grant = some h := by
  obtain ⟨held, elapsed, running⟩ := (trial.scenario.refines (edge + 1)).accessing_iff.mp running
  have phase := trial.phase room (edge + 1)
  rw [running] at phase
  have short := phase.answers.1
  obtain ⟨grant, position, granted, _⟩ := Service.access_granted running
  refine ⟨grant, by omega, ?_⟩
  rw [Scenario.grantAt_seen]
  exact granted

private theorem port_near (near : grant = edge ∨ grant + 1 = edge)
    (granted : trial.scenario.grantAt grant = some h)
    (wants : (trial.scenario.driver h edge).port.wants = true) :
    (trial.scenario.driver h grant).port = (trial.scenario.driver h edge).port := by
  rcases near with rfl | rfl
  · rfl
  · rw [Scenario.grantAt_seen] at granted
    obtain ⟨t, count, point⟩ :=
      (trial.scenario.consistent h grant).waits (Service.grantFrom_wants granted)
    rcases (trial.scenario.driver_edge h grant).after_ack point with ⟨_, _, _, kept, _⟩ |
      ⟨_, _, dropped, _⟩
    · exact kept.symm
    · cases wants.symm.trans dropped

section Forwarded

variable {finish : Nat} (room : 2 < p.limit)
variable (forwards : Monitor.Forwards trial.scenario.wires h edge finish)
variable (near : grant = edge ∨ grant + 1 = edge)

include room forwards near in
private theorem put_acked (access : Access trial h grant) : finish = grant + 3 := by
  have later := forwards.later
  have acked : (trial.scenario.arbiter (grant + 3)).ack h ≠ 0 := (ack_iff room h _).mpr access.acked
  rcases Nat.lt_trichotomy finish (grant + 3) with early | same | late
  · -- the second cycle of the access shows no acknowledge
    obtain rfl : finish = grant + 2 := by omega
    obtain ⟨now, running⟩ := access.running (grant + 2) (.inr rfl)
    have limit : Monitor.timeoutLimit = 65535 := rfl
    rcases forwards.stops with shown | expired
    · cases running.symm.trans ((ack_iff room h _).mp shown)
    · omega
  · exact same
  · obtain ⟨k, reached⟩ := Nat.exists_eq_add_of_le (show edge + 2 ≤ grant + 3 by omega)
    have silent := forwards.silent k (by omega)
    rw [← reached] at silent
    exact absurd silent acked

end Forwarded

end Cycles

end Trial

private theorem HostPort.wr_of_exclusive {port : HostPort p} (wants : port.wants = true)
    (exclusive : ¬(port.rd = true ∧ port.wr = true)) : (!port.rd) = port.wr := by
  rw [HostPort.wants] at wants
  cases read : port.rd <;> cases write : port.wr <;> simp_all

/-- The device side of a transaction of `h` detected at `edge` is that of its own access,
and agrees with the host side. -/
structure OneAccess (scenario : Scenario p) (h : Host) (edge : Nat) (t : Transaction p) :
    Prop where
  own : (scenario.arbiter (edge + 1)).accessing h = true
  addr : t.addBus = t.addr
  be : t.byteEn = t.be
  cpu : t.cpuBus = t.cpu
  wr : t.wrBus = t.wr
  rd : t.rdBus = t.rd
  data : t.wr = true → t.dataBusWr = t.data
  rdData : t.rd = true → t.dataBusRd = t.rdData

namespace Trial

variable {trial : Trial p}

/-- Next to the grant the two sides of a transaction agree but for a request in both
directions, and for a word other than the one the responder leaves behind. -/
theorem oneAccess_near (room : 2 < p.limit) {finish : Nat}
    (forwards : Monitor.Forwards trial.scenario.wires h edge finish)
    (near : grant = edge ∨ grant + 1 = edge) (granted : trial.scenario.grantAt grant = some h) :
    OneAccess trial.scenario h edge
        ((Monitor.observed trial.scenario.wires h edge).receive
          (trial.scenario.wires finish) h) ↔
      ¬((trial.scenario.driver h edge).port.rd = true ∧
          (trial.scenario.driver h edge).port.wr = true) ∧
        ((trial.scenario.driver h edge).port.rd = true →
          (trial.draws (grant + 1)).urandom = 0) := by
  have access := access_of_grant (by omega) granted
  have kept := port_near near granted forwards.wants
  obtain rfl := put_acked room forwards near access
  have answer : (trial.scenario.wires (grant + 3)).ack h ≠ 0 := (ack_iff room h _).mpr access.acked
  obtain ⟨now, running⟩ := access.running (edge + 1) (by omega)
  have shown := trial.scenario.refines (edge + 1)
  rw [running, kept] at shown
  obtain ⟨addr, be, cpu, dwr, rd, wr⟩ := shown.carries
  have loaded := access.loaded
  rw [kept] at loaded
  have left : (trial.scenario.wires (grant + 3)).dataBusRd = 0 := access.cleared
  rw [Transaction.receive, if_pos answer]
  constructor
  · intro one
    refine ⟨?_, ?_⟩
    · rintro ⟨read, write⟩
      have same : (trial.scenario.arbiter (edge + 1)).wrBus =
        (trial.scenario.driver h edge).port.wr := one.wr
      rw [wr, read, write] at same
      cases same
    · intro read
      have same := one.rdData read
      have reads : (Monitor.observed trial.scenario.wires h edge).rd = true := read
      simp only [reads, ↓reduceIte, left] at same
      exact (same.trans (loaded read)).symm
  · rintro ⟨exclusive, word⟩
    refine ⟨shown.accessing_iff.mpr ⟨_, now, rfl⟩, addr, be, cpu, ?_, rd, ?_, ?_⟩
    · exact wr.trans (HostPort.wr_of_exclusive forwards.wants exclusive)
    · intro write
      have collected : (Monitor.observed trial.scenario.wires h edge).data =
        (trial.scenario.driver h edge).port.dwr := if_pos write
      exact dwr.trans collected.symm
    · intro read
      have reads : (Monitor.observed trial.scenario.wires h edge).rd = true := read
      simp only [reads, ↓reduceIte, left]
      exact ((loaded read).trans (word read)).symm

end Trial

/-- What the monitor forwards describes one access exactly when the request was detected
at the edge of its grant or one edge later, has one direction, and for a read the word
drawn is the zero that the responder leaves on the bus behind its answer. -/
theorem oneAccess_iff {trial : Trial p} (wide : 3 ≤ p.tw)
    (put : Monitor.putAt trial.scenario.wires finish = some (h, t)) :
    ∃ edge, Monitor.Forwards trial.scenario.wires h edge finish ∧
      (OneAccess trial.scenario h edge t ↔
        ∃ grant, (grant = edge ∨ grant + 1 = edge) ∧ trial.scenario.grantAt grant = some h ∧
          ¬((trial.scenario.driver h edge).port.rd = true ∧
            (trial.scenario.driver h edge).port.wr = true) ∧
          ((trial.scenario.driver h edge).port.rd = true →
            (trial.draws (grant + 1)).urandom = 0)) := by
  have eight : 2 ^ 3 ≤ 2 ^ p.tw := Nat.pow_le_pow_right (by decide) wide
  have room : 2 < p.limit := by
    rw [Params.limit]
    omega
  obtain ⟨edge, forwards, rfl⟩ := Monitor.put_forwards put
  refine ⟨edge, forwards, ?_⟩
  constructor
  · intro one
    obtain ⟨grant, near, granted⟩ := Trial.grant_near (by omega) one.own
    obtain ⟨exclusive, word⟩ := (Trial.oneAccess_near room forwards near granted).mp one
    exact ⟨grant, near, granted, exclusive, word⟩
  · rintro ⟨grant, near, granted, exclusive, word⟩
    exact (Trial.oneAccess_near room forwards near granted).mpr ⟨exclusive, word⟩

/-- The Slave has one read, and the responder draws the same word at every edge. -/
def slaveReads (word : BitVec 32) : Trial .default where
  mail h := if h = .slave then [slaveRead] else []
  draws edge := { delay := (unansweredRead.around edge).delay, urandom := word }

private theorem slaveReads_legal (word : BitVec 32) : (slaveReads word).scenario.Legal :=
  Scenario.legal_of_one (fun _ => rfl) ⟨by decide, by decide⟩

/-- Every host has one read at an address of its own, and all drivers draw the same delay. -/
def Trial.oneEach : Trial .default where
  mail h := [ownRead h]
  draws edge := { delay := (unansweredRead.around edge).delay, urandom := 0 }

theorem Trial.oneEach_legal : oneEach.scenario.Legal := by
  intro h t member
  obtain rfl := List.mem_singleton.mp member
  exact ownRead_legal h

private theorem slaveReads_put :
    ∃ t, Monitor.putAt (slaveReads 1).scenario.wires 6 = some (.slave, t) ∧
    t.rd = true ∧ t.rdData = 1 ∧ t.dataBusRd = 0 :=
  ⟨_, rfl, by decide, by decide, by decide⟩

theorem oneAccess_iff_slaveReads : ∃ t edge,
    Monitor.Forwards (slaveReads 1).scenario.wires .slave edge 6 ∧
      (OneAccess (slaveReads 1).scenario .slave edge t ↔
        ∃ grant, (grant = edge ∨ grant + 1 = edge) ∧
          (slaveReads 1).scenario.grantAt grant = some .slave ∧
          ¬(((slaveReads 1).scenario.driver .slave edge).port.rd = true ∧
            ((slaveReads 1).scenario.driver .slave edge).port.wr = true) ∧
          (((slaveReads 1).scenario.driver .slave edge).port.rd = true →
            ((slaveReads 1).draws (grant + 1)).urandom = 0)) := by
  obtain ⟨t, put, _⟩ := slaveReads_put
  exact ⟨t, oneAccess_iff (by decide) put⟩

/-- The Slave's read returns the word 1, and the device side of its transaction says 0. -/
theorem word_taken_back : ¬∀ trial : Trial .default, trial.scenario.Legal →
    ∀ finish h t, Monitor.putAt trial.scenario.wires finish = some (h, t) →
      ∃ edge, Monitor.Forwards trial.scenario.wires h edge finish ∧
        OneAccess trial.scenario h edge t := by
  intro agrees
  obtain ⟨t, put, read, word, left⟩ := slaveReads_put
  obtain ⟨edge, _, one⟩ := agrees (slaveReads 1) (slaveReads_legal 1) 6 .slave t put
  have same := one.rdData read
  rw [left, word] at same
  exact absurd same (by decide)

end RoundRobinArbiter
