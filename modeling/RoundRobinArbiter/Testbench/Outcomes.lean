import RoundRobinArbiter.Testbench.Counting

namespace RoundRobinArbiter

open Synchronous

/-- What a call of `wait_for_ack` or `wait_for_response` leaves behind: the edge at which
it returns, counted from 1, `ack` and `rd_data` of its transaction, and the timeout
errors it has raised. -/
structure Report (p : Params) where
  edge : Nat
  ack : BitVec 2
  rdData : BitVec p.dw
  errors : Nat
  deriving DecidableEq

/-- A call, given by what it returns at each edge and by the count of errors in each cycle,
ends with a report. -/
def Reports (returned : Nat → Option (Transaction p)) (errors : Nat → Nat) (r : Report p) :
    Prop :=
  ∃ finish t, Returns returned finish t ∧ r.edge = finish + 1 ∧ r.ack = t.ack ∧
    r.rdData = t.rdData ∧ errors (finish + 1) = errors 0 + r.errors

/-- `wait_for_ack` of a driver, called with a transaction. -/
def Driver.waitForAck (d : Driver p) (t : Transaction p)
    (samples : Nat → BitVec 2 × BitVec p.dw × Delay) : Nat → Driver p :=
  (Driver.machine d.mailbox).runFrom { d with point := .ack t 0 } samples

def Driver.Reports (d : Driver p) (t : Transaction p)
    (samples : Nat → BitVec 2 × BitVec p.dw × Delay) : Report p → Prop :=
  RoundRobinArbiter.Reports
    (fun k => (d.waitForAck t samples k).returns (samples k).1 (samples k).2.1)
    (fun k => (d.waitForAck t samples k).errors)

/-- `wait_for_response` of the monitor, called with a transaction of `h`. -/
def Monitor.waitForResponse (m : Monitor p) (h : Host) (t : Transaction p)
    (wires : Nat → Interface p) : Nat → Monitor p :=
  (Monitor.machine p).runFrom { m with point := .respond h t 0 } wires

def Monitor.Reports (m : Monitor p) (h : Host) (t : Transaction p)
    (wires : Nat → Interface p) : Report p → Prop :=
  RoundRobinArbiter.Reports
    (fun k => ((m.waitForResponse h t wires k).puts (wires k)).map Prod.snd)
    (fun k => (m.waitForResponse h t wires k).errors)

/-- A call reports the first response that is sampled, if it is among the first 65535
samples, without an error, and otherwise one timeout and nothing new. -/
structure RightOutcome (t : Transaction p) (ack : Nat → BitVec 2) (drd : Nat → BitVec p.dw)
    (reports : Report p → Prop) : Prop where
  answered : ∀ n < 65535, (∀ k < n, ack k = 0) → ack n ≠ 0 →
    reports ⟨n + 1, ack n, if t.rd then drd n else t.rdData, 0⟩
  silent : (∀ k < 65535, ack k = 0) → reports ⟨65535, t.ack, t.rdData, 1⟩

theorem Reports.unique {returned : Nat → Option (Transaction p)} {errors : Nat → Nat}
    {a b : Report p} (one : Reports returned errors a) (other : Reports returned errors b) :
    a = b := by
  obtain ⟨first, t, returns, edge, ack, rdData, raised⟩ := one
  obtain ⟨second, u, again, edge', ack', rdData', raised'⟩ := other
  obtain ⟨rfl, rfl⟩ := returns.unique again
  cases a
  cases b
  simp_all

/-- What both loops report where they stop. -/
def outcome (t : Transaction p) (ack : Nat → BitVec 2) (drd : Nat → BitVec p.dw) (finish : Nat) :
    Report p where
  edge := finish + 1
  ack := (t.respond (ack finish) (drd finish)).ack
  rdData := (t.respond (ack finish) (drd finish)).rdData
  errors := if 65535 ≤ finish + 1 then 1 else 0

section Loops

variable {t : Transaction p} {ack : Nat → BitVec 2} {drd : Nat → BitVec p.dw}

private theorem outcome_answered (answer : ack n ≠ 0) (early : n < 65534) :
    outcome t ack drd n = ⟨n + 1, ack n, if t.rd then drd n else t.rdData, 0⟩ := by
  have before : ¬65535 ≤ n + 1 := by omega
  simp only [outcome, if_neg before, Transaction.respond, if_pos answer]

private theorem outcome_silent (silent : ack 65534 = 0) :
    outcome t ack drd 65534 = ⟨65535, t.ack, t.rdData, 1⟩ := by
  rw [outcome, silent, Transaction.respond_zero]
  rfl

/-- A loop that reports its outcome where it stops reports the right one, unless the first
response is there in the last turn: then it raises the timeout as well. -/
theorem rightOutcome_of_outcome {reports : Report p → Prop}
    (does : ∀ finish, Stops (fun k => ack k ≠ 0) 65535 finish → reports (outcome t ack drd finish))
    (unique : ∀ a b, reports a → reports b → a = b) :
    RightOutcome t ack drd reports ↔ ¬((∀ k < 65534, ack k = 0) ∧ ack 65534 ≠ 0) := by
  constructor
  · rintro right ⟨quiet, late⟩
    have told := right.answered 65534 (by decide) quiet late
    have did := does 65534 ⟨by decide, fun k below => not_not.mpr (quiet k below), .inl late⟩
    cases congrArg Report.errors (unique _ _ told did)
  · intro early
    constructor
    · intro n within quiet answer
      have before : n < 65534 := by
        by_contra last
        obtain rfl : n = 65534 := by omega
        exact early ⟨quiet, answer⟩
      rw [← outcome_answered answer before]
      exact does n ⟨within, fun k below => not_not.mpr (quiet k below), .inl answer⟩
    · intro quiet
      rw [← outcome_silent (quiet 65534 (by decide))]
      exact does 65534
        ⟨by decide, fun k below => not_not.mpr (quiet k (by omega)), .inr (by decide)⟩

end Loops

theorem Driver.reports_outcome (d : Driver p) (t : Transaction p)
    (samples : Nat → BitVec 2 × BitVec p.dw × Delay) {finish : Nat}
    (stops : Stops (fun k => (samples k).1 ≠ 0) timeoutLimit finish) :
    d.Reports t samples (outcome t (fun k => (samples k).1) (fun k => (samples k).2.1) finish) := by
  have edge : ∀ k, Edge (samples k).1 (samples k).2.1 (d.waitForAck t samples k)
      (d.waitForAck t samples (k + 1))
      ((d.waitForAck t samples k).returns (samples k).1 (samples k).2.1) :=
    fun k => Driver.edge _ _ _ (samples k).2.2
  have turn : ∀ cycle count, (d.waitForAck t samples cycle).point = .ack t count →
      ¬(samples cycle).1 ≠ 0 → count + 1 < timeoutLimit →
      (d.waitForAck t samples (cycle + 1)).point = .ack t (count + 1) := by
    intro cycle count point silent patient
    exact ((edge cycle).goes_on point (not_not.mp silent) patient).2
  have waits := stops.waits turn rfl
  have running : ∀ k < finish,
      (d.waitForAck t samples k).returns (samples k).1 (samples k).2.1 = none := by
    intro k below
    exact ((edge k).goes_on (waits k (Nat.le_of_lt below)) (not_not.mp (stops.silent k below))
      (Nat.lt_of_le_of_lt below stops.inside)).1
  have returned := (edge finish).ends (waits finish (Nat.le_refl _)) stops.last
  exact ⟨finish, _, ⟨running, returned⟩, rfl, rfl, rfl,
    stops.raised (fun k => (d.waitForAck t samples k).errors)
      fun k bound => (edge k).errors (waits k bound)⟩

namespace Monitor

private theorem receive_respond (t : Transaction p) (w : Interface p) (h : Host) :
    (t.receive w h).ack = (t.respond (w.ack h) (w.drd h)).ack ∧
      (t.receive w h).rdData = (t.respond (w.ack h) (w.drd h)).rdData := by
  unfold Transaction.receive Transaction.respond
  split <;> exact ⟨rfl, rfl⟩

private theorem puts_respond {m : Monitor p} (point : m.point = .respond h t count)
    (w : Interface p) :
    m.puts w = if gotResponse (w.ack h) (count + 1) then some (h, t.receive w h) else none := by
  rw [puts, point]

theorem reports_outcome (m : Monitor p) (h : Host) (t : Transaction p)
    (wires : Nat → Interface p) {finish : Nat}
    (stops : Stops (fun k => (wires k).ack h ≠ 0) timeoutLimit finish) :
    m.Reports h t wires
      (outcome t (fun k => (wires k).ack h) (fun k => (wires k).drd h) finish) := by
  have step : ∀ k, m.waitForResponse h t wires (k + 1) =
      (m.waitForResponse h t wires k).step (wires k) := fun _ => rfl
  have turn : ∀ cycle count, (m.waitForResponse h t wires cycle).point = .respond h t count →
      ¬(wires cycle).ack h ≠ 0 → count + 1 < timeoutLimit →
      (m.waitForResponse h t wires (cycle + 1)).point = .respond h t (count + 1) := by
    intro cycle count point silent patient
    rw [step, step_wait point (gotResponse_false_iff.mpr ⟨not_not.mp silent, patient⟩)]
  have waits := stops.waits turn rfl
  have running : ∀ k < finish,
      ((m.waitForResponse h t wires k).puts (wires k)).map Prod.snd = none := by
    intro k below
    rw [puts_respond (waits k (Nat.le_of_lt below)), gotResponse_false_iff.mpr
      ⟨not_not.mp (stops.silent k below), Nat.lt_of_le_of_lt below stops.inside⟩]
    rfl
  have put : ((m.waitForResponse h t wires finish).puts (wires finish)).map Prod.snd =
      some (t.receive (wires finish) h) := by
    rw [puts_respond (waits finish (Nat.le_refl _)), if_pos (gotResponse_iff.mpr stops.last)]
    rfl
  have same := receive_respond t (wires finish) h
  exact ⟨finish, _, ⟨running, put⟩, rfl, same.1.symm, same.2.symm,
    stops.raised (fun k => (m.waitForResponse h t wires k).errors)
      fun k bound => (congrArg Monitor.errors (step k)).trans (errors_step (waits k bound))⟩

end Monitor

/-- Both loops report the right outcome exactly when the first response is not there at the
very edge at which their count reaches the limit: there they report the response and a
timeout. -/
theorem rightOutcome_iff (d : Driver p) (m : Monitor p) (h : Host) (t : Transaction p)
    (wires : Nat → Interface p) (delay : Nat → Delay) :
    (RightOutcome t (fun k => (wires k).ack h) (fun k => (wires k).drd h)
        (d.Reports t fun k => ((wires k).ack h, (wires k).drd h, delay k)) ↔
      ¬((∀ k < 65534, (wires k).ack h = 0) ∧ (wires 65534).ack h ≠ 0)) ∧
    (RightOutcome t (fun k => (wires k).ack h) (fun k => (wires k).drd h) (m.Reports h t wires) ↔
      ¬((∀ k < 65534, (wires k).ack h = 0) ∧ (wires 65534).ack h ≠ 0)) :=
  ⟨rightOutcome_of_outcome (fun _ => d.reports_outcome t fun k =>
      ((wires k).ack h, (wires k).drd h, delay k)) fun _ _ => Reports.unique,
    rightOutcome_of_outcome (fun _ => m.reports_outcome h t wires) fun _ _ => Reports.unique⟩

/-- The Slave reads on and on, and is acknowledged as given. -/
def slaveWaits (answer : Nat → BitVec 2) (k : Nat) : Interface .default where
  host h := if h = .slave then .reading 0 else .silent
  drd _ := 0
  ack h := if h = .slave then answer k else 0
  addBus := 0
  byteEn := 0
  wrBus := false
  rdBus := false
  dataBusWr := 0
  dataBusRd := 0
  cpuBus := false

/-- The response at edge 65535 is reported together with a timeout. -/
theorem last_response_times_out :
    ¬∀ (d : Driver .default) (m : Monitor .default) (h : Host) (t : Transaction .default)
        (wires : Nat → Interface .default) (delay : Nat → Delay),
      RightOutcome t (fun k => (wires k).ack h) (fun k => (wires k).drd h)
          (d.Reports t fun k => ((wires k).ack h, (wires k).drd h, delay k)) ∧
        RightOutcome t (fun k => (wires k).ack h) (fun k => (wires k).drd h)
          (m.Reports h t wires) := by
  intro right
  have monitor := (right (.start []) .start .slave (.new true 1)
    (slaveWaits fun k => if k = 65534 then 1 else 0) fun _ => ⟨1, by decide, by decide⟩).2
  have early := (rightOutcome_of_outcome (fun _ => Monitor.reports_outcome _ _ _ _)
    fun _ _ => Reports.unique).mp monitor
  refine early ⟨?_, by decide⟩
  intro k below
  change (if k = 65534 then (1 : BitVec 2) else 0) = 0
  exact if_neg (Nat.ne_of_lt below)

/-- `wait_for_response` for a transaction of `h` that the monitor detects at `edge` returns
at `finish` without having seen an acknowledge. -/
structure GivesUp (wires : Nat → Interface p) (h : Host) (edge finish : Nat) : Prop where
  forwards : Monitor.Forwards wires h edge finish
  silent : (wires finish).ack h = 0

/-- A transaction of `h` without a response is not counted, or it is counted as an error. -/
def SilenceNoticed (wires : Nat → Interface p) (h : Host) : Prop :=
  ∀ edge finish, GivesUp wires h edge finish →
    ((Monitor.run wires (finish + 1)).numTransactions h =
        (Monitor.run wires finish).numTransactions h ∧
      (Scoreboard.run wires (finish + 1)).numTransactions h =
        (Scoreboard.run wires finish).numTransactions h) ∨
    ((Scoreboard.run wires finish).numErrors h).toInt <
      ((Scoreboard.run wires (finish + 1)).numErrors h).toInt

theorem GivesUp.limit {wires : Nat → Interface p} (givesUp : GivesUp wires h edge finish) :
    finish = edge + 2 + 65534 := by
  have limit : Monitor.timeoutLimit = 65535 := rfl
  have later := givesUp.forwards.later
  have reached : edge + 2 + 65534 ≤ finish := by
    rcases givesUp.forwards.stops with acked | expired
    · exact absurd givesUp.silent acked
    · omega
  by_contra beyond
  have here := givesUp.forwards.respond 65534 reached
  have next := givesUp.forwards.respond 65535 (by omega)
  have step := Monitor.stage_edge wires (edge + 2 + 65534)
  rw [here, show edge + 2 + 65534 + 1 = edge + 2 + 65535 from rfl, next] at step
  generalize Monitor.putAt wires (edge + 2 + 65534) = put at step
  cases step with
  | wait silent patient => omega

theorem GivesUp.counted {wires : Nat → Interface p} (givesUp : GivesUp wires h edge finish) :
    (Monitor.run wires (finish + 1)).numTransactions h ≠
      (Monitor.run wires finish).numTransactions h := by
  have step := Monitor.numTransactions_step (Monitor.run wires finish) (wires finish) h
  have put : (Monitor.run wires finish).puts (wires finish) = _ := givesUp.forwards.put
  rw [put, Option.map_some, if_pos rfl] at step
  intro same
  simpa using step.symm.trans same

private theorem toInt_lt_succ (x : BitVec 32) : x.toInt < (x + 1).toInt ↔ x ≠ .intMax 32 := by
  have full : (BitVec.intMax 32).toNat = 2147483647 := by decide
  have one : (1 : BitVec 32).toNat = 1 := rfl
  have bound := x.isLt
  rw [Ne, ← BitVec.toNat_inj, full, BitVec.toInt_eq_toNat_cond, BitVec.toInt_eq_toNat_cond,
    BitVec.toNat_add, one]
  omega

/-- The scoreboard takes it for an error exactly if the request was malformed, which shows
unless the counter is full. -/
theorem GivesUp.error_iff {wires : Nat → Interface p} (givesUp : GivesUp wires h edge finish) :
    ((Scoreboard.run wires finish).numErrors h).toInt <
        ((Scoreboard.run wires (finish + 1)).numErrors h).toInt ↔
      Scoreboard.Malformed ((wires edge).host h) ∧
        (Scoreboard.run wires finish).numErrors h ≠ .intMax 32 := by
  have put := givesUp.forwards.put
  have own : Monitor.putHost wires finish = some h := by rw [Monitor.putHost, put]; rfl
  rw [← Scoreboard.checkTransaction_observed (w := wires finish), Scoreboard.numErrors_step,
    Scoreboard.refused, put, Option.any_some]
  cases Scoreboard.checkTransaction ((Monitor.observed wires h edge).receive (wires finish) h) with
  | true => simp
  | false =>
    rw [if_pos ⟨own, rfl⟩, toInt_lt_succ]
    exact (and_iff_right rfl).symm

/-- A missing response is noticed exactly where the request is one that the checks refuse
anyhow, and there is room for its error. -/
theorem silenceNoticed_iff (wires : Nat → Interface p) (h : Host) :
    SilenceNoticed wires h ↔ ∀ edge finish, GivesUp wires h edge finish →
      Scoreboard.Malformed ((wires edge).host h) ∧
        (Scoreboard.run wires finish).numErrors h ≠ .intMax 32 := by
  constructor
  · intro noticed edge finish givesUp
    rcases noticed edge finish givesUp with ⟨same, _⟩ | more
    · exact absurd same givesUp.counted
    · exact givesUp.error_iff.mp more
  · intro malformed edge finish givesUp
    exact .inr (givesUp.error_iff.mpr (malformed edge finish givesUp))

open Monitor in
private theorem slaveWaits_givesUp :
    ∃ edge finish, GivesUp (slaveWaits fun _ => 0) .slave edge finish := by
  have one : stageAt (slaveWaits fun _ => 0) 1 =
      .collect .slave (Transaction.collected (.reading 0)) := rfl
  have two : stageAt (slaveWaits fun _ => 0) 2 =
      .respond .slave (observed (slaveWaits fun _ => 0) .slave 0) 0 := by
    rw [stageAt_succ, one]
    rfl
  have waits := waits_on two 65534 (by decide) fun _ _ => rfl
  obtain ⟨edge, forwards, _⟩ := put_forwards (put_of_stops waits (.inr (by decide)))
  exact ⟨edge, _, forwards, rfl⟩

/-- A legal read without a response is recorded like any other. -/
theorem silence_unnoticed :
    ¬∀ (wires : Nat → Interface .default) (h : Host), SilenceNoticed wires h := by
  intro noticed
  obtain ⟨edge, finish, givesUp⟩ := slaveWaits_givesUp
  rcases noticed _ _ edge finish givesUp with ⟨same, _⟩ | more
  · exact absurd same givesUp.counted
  · have malformed : Scoreboard.Malformed (.reading 0 : HostPort .default) :=
      (givesUp.error_iff.mp more).1
    exact absurd malformed (by decide)

end RoundRobinArbiter
