import RoundRobinArbiter.Synchronous.Sequences
import RoundRobinArbiter.Arbiter.Bus
import RoundRobinArbiter.Arbiter.Safety
import RoundRobinArbiter.Testbench.Assertions
import RoundRobinArbiter.Testbench.Env
import RoundRobinArbiter.Testbench.Pace

/-! The four properties of `arbiter_assertions.sv`, bound to the arbiter, over the edges that a
simulation comes to. One of them can never fail, and one fails where the watchdog leaves the
last access far enough behind. -/

namespace RoundRobinArbiter

open Synchronous

/-- What the properties sample at an edge. -/
structure Sampled (p : Params) where
  resetN : Bool
  arbiter : Arbiter p
  inputs : Inputs p

namespace Sampled

def busy (s : Sampled p) : Bool := s.arbiter.rdBus || s.arbiter.wrBus

/-- `exclusive_rd_wr` at an edge. -/
def exclusiveRdWr (s : Sampled p) : Bool :=
  !s.resetN || !(s.arbiter.rdBus && s.arbiter.wrBus)

def validByteEnable (s : Sampled p) : Bool :=
  !s.resetN || !s.busy || s.arbiter.byteEn != 0

def slaveRequests (s : Sampled p) : Bool := (s.inputs.host .slave).rd || (s.inputs.host .slave).wr

def rose (trace : Nat → Sampled p) : Nat → Bool
  | 0 => (trace 0).resetN
  | edge + 1 => !(trace edge).resetN && (trace (edge + 1)).resetN

/-- `first_host_after_reset`. -/
def FirstHostAfterReset (trace : Nat → Sampled p) : Prop :=
  ∀ edge, rose trace edge = true → Sequence.Weak trace (Sequence.goto slaveRequests) (edge + 1)

/-- `ack_timing`, `##[1:16] ack_bus` from every edge that shows an access, in a simulation of
so many edges. A reset within the window disables it. -/
def AckTimingHolds (trace : Nat → Sampled p) (edges : Nat) : Prop :=
  ∀ edge < edges, (∀ k ≤ 16, edge + k < edges → (trace (edge + k)).resetN = true) →
    (trace edge).busy = true →
    Sequence.Pending trace edges (Sequence.delayed 1 (.bool fun s => s.inputs.ackBus) 15) edge

end Sampled

def Arbiter.sampled (inputs : Nat → Inputs p) (edge : Nat) : Sampled p :=
  { resetN := true, arbiter := run inputs edge, inputs := inputs edge }

namespace Sampled

/-- Whatever is served first, behind every reset, `first_host_after_reset` waits for a request
of the Slave that may still come. -/
theorem first_host_never_fails (trace : Nat → Sampled p) : FirstHostAfterReset trace :=
  fun edge _ => Sequence.weak_goto trace slaveRequests (edge + 1)

private theorem ackTimingHolds_iff (inputs : Nat → Inputs p) (edges : Nat) :
    AckTimingHolds (Arbiter.sampled inputs) edges ↔
      ∀ edge < edges, (Arbiter.run inputs edge).busy = true →
        (∃ k, 1 ≤ k ∧ k ≤ 16 ∧ (inputs (edge + k)).ackBus = true) ∨ edges ≤ edge + 16 := by
  have window := fun edge => Sequence.pending_delayed (Arbiter.sampled inputs)
    (fun s => s.inputs.ackBus) edges edge 1 15
  constructor
  · intro holds edge inside busy
    exact (window edge).mp (holds edge inside (fun _ _ _ => rfl) busy)
  · intro timing edge inside _ busy
    exact (window edge).mpr (timing edge inside busy)

/-- `valid_byte_enable` fails exactly where a host is granted that enables no byte. -/
private theorem validByteEnable_iff (inputs : Nat → Inputs p) :
    (∀ edge, (Arbiter.sampled inputs edge).validByteEnable = true) ↔
      ∀ edge h, Arbiter.grantAt inputs edge = some h → ((inputs edge).host h).be ≠ 0 := by
  have shown : ∀ edge, (Arbiter.sampled inputs edge).validByteEnable = true ↔
      ((Arbiter.run inputs edge).busy = true → (Arbiter.run inputs edge).byteEn ≠ 0) := by
    intro edge
    change (!true || !(Arbiter.run inputs edge).busy || (Arbiter.run inputs edge).byteEn != 0) =
      true ↔ _
    cases (Arbiter.run inputs edge).busy <;> simp
  simp only [shown]
  constructor
  · intro valid edge h granted
    rw [grantAt_eq] at granted
    have refines := refines_run inputs (edge + 1)
    have first : Service.run inputs (edge + 1) = _ := Service.grantFrom_access granted
    rw [first] at refines
    rw [← refines.carries.2.1]
    exact valid (edge + 1) refines.busy
  · intro enabled edge busy
    obtain ⟨grant, h, later, elapsed, _, granted, running⟩ := busy_granted busy
    have refines := refines_run inputs edge
    rw [running] at refines
    rw [refines.carries.2.1]
    exact enabled grant h granted

private theorem exclusiveRdWr_run (inputs : Nat → Inputs p) (edge : Nat) :
    (Arbiter.sampled inputs edge).exclusiveRdWr = true := by
  have one := (refines_run inputs edge).oneDirection
  change (!true || !((Arbiter.run inputs edge).rdBus && (Arbiter.run inputs edge).wrBus)) = true
  cases read : (Arbiter.run inputs edge).rdBus <;>
    cases write : (Arbiter.run inputs edge).wrBus <;> simp_all

end Sampled

/-- The edges of a simulation that ends with the test, the one at which `$finish` is called
included. -/
def Env.Ending.edges (ending : Env.Ending) : Nat :=
  match ending.completed with
  | some edge => edge + 1
  | none => Env.watchdogEdges

private theorem Env.wait_first {states : Nat → Env p}
    (found : waitForCompletion states n edge left = some last) (cycle : Nat)
    (after : edge ≤ cycle) (before : cycle < last) :
    (states cycle).scoreboard.allDone n = false := by
  induction left generalizing edge with
  | zero => cases found
  | succ left ih =>
    rw [waitForCompletion] at found
    split at found
    · cases found
      omega
    · rename_i unfinished
      rcases Nat.eq_or_lt_of_le after with rfl | later
      · exact Bool.not_eq_true _ ▸ unfinished
      · exact ih found later

namespace Trial

variable {trial : Trial p}

section Legal

variable (room : 2 < p.limit) (legal : trial.scenario.Legal)

include room in
/-- The responder answers at the second edge behind each grant, and at no other. -/
theorem answer_iff : (trial.scenario.seen edge).ackBus = true ↔
    ∃ grant h, trial.scenario.grantAt grant = some h ∧ edge = grant + 2 := by
  have two := Nat.lt_of_succ_lt room
  constructor
  · intro answer
    have answers : (Served.responderAt .reset trial.demand edge).ackBus = true :=
      (trial.responder_eq edge) ▸ answer
    obtain ⟨grant, h, granted, position⟩ := Served.answer_granted .reset two answers
    exact ⟨grant, h, (trial.grantAt_eq grant).trans granted, position⟩
  · rintro ⟨grant, h, granted, rfl⟩
    have access := access_of_grant two granted
    obtain ⟨now, second⟩ := access.running (grant + 2) (.inr rfl)
    -- an unanswered second cycle would not be the last one
    rcases Service.access_next second with ⟨_, _, _, _, after⟩ | ⟨answer | full, _⟩
    · cases access.acked.symm.trans after
    · exact answer
    · have phase := trial.phase two (grant + 2)
      rw [second] at phase
      have early := phase.answers.1
      omega

include room in
theorem busy_iff : (Arbiter.run trial.scenario.seen edge).busy = true ↔
    ∃ grant h, trial.scenario.grantAt grant = some h ∧
      (edge = grant + 1 ∨ edge = grant + 2) := by
  have two := Nat.lt_of_succ_lt room
  rw [(refines_run trial.scenario.seen edge).busy, Bool.not_eq_true']
  change (Service.run trial.scenario.seen edge).ready = false ↔ _
  constructor
  · intro busy
    obtain ⟨h, held, elapsed, running⟩ := Service.access_of_not_ready busy
    obtain ⟨grant, position, granted, _⟩ := Service.access_granted running
    have phase := trial.phase two edge
    rw [running] at phase
    have short := phase.answers.1
    exact ⟨grant, h, (trial.scenario.grantAt_seen grant).trans granted, by omega⟩
  · rintro ⟨grant, h, granted, near⟩
    obtain ⟨now, running⟩ := (access_of_grant two granted).running edge near
    rw [running]
    rfl

include room legal in
theorem answer_early (late : ∀ h, (trial.mail h).length * 25 < last)
    (answer : (trial.scenario.seen edge).ackBus = true) : edge < last := by
  obtain ⟨grant, h, granted, rfl⟩ := (answer_iff room).mp answer
  obtain ⟨now, running⟩ :=
    (access_of_grant (Nat.lt_of_succ_lt room) granted).running (grant + 2) (.inr rfl)
  by_contra beyond
  have wants := (handshake room legal h).served_wants (grant + 2)
    (Service.owner_eq_some_iff.mpr (.inl ⟨_, now, running⟩))
  have empty := (bench_drains room legal h (grant + 2)
    (Nat.lt_of_lt_of_le (late h) (Nat.le_of_not_lt beyond))).queue
  cases (Scenario.silent_of_empty empty).symm.trans wants

include room legal in
private theorem last_answer (filled : trial.mail h ≠ []) :
    ∃ last, (trial.scenario.seen last).ackBus = true ∧
      ∀ after, last < after → (trial.scenario.seen after).ackBus = false := by
  classical
  obtain ⟨drive, grant, pace⟩ := paced room legal h
  have answer := (answer_iff room).mpr
    ⟨grant 0, h, pace.granted_at 0 (List.length_pos_of_ne_nil filled), rfl⟩
  obtain ⟨bound, late⟩ : ∃ bound, ∀ g, (trial.mail g).length * 25 < bound := by
    refine ⟨(Host.total fun g => (trial.mail g).length * 25) + 1, fun g => ?_⟩
    cases g <;> simp only [Host.total, Host.all, List.foldl_cons, List.foldl_nil] <;> omega
  have inside : ∀ edge, (trial.scenario.seen edge).ackBus = true → edge ≤ bound :=
    fun edge shown => Nat.le_of_lt (answer_early room legal late shown)
  refine ⟨Nat.findGreatest (fun edge => (trial.scenario.seen edge).ackBus = true) bound,
    Nat.findGreatest_spec (P := fun edge => (trial.scenario.seen edge).ackBus = true)
      (inside _ answer) answer, ?_⟩
  intro after behind
  rw [← Bool.not_eq_true]
  exact fun again => Nat.not_le_of_lt behind (Nat.le_findGreatest (inside after again) again)

include room legal in
/-- Between accesses the window never closes, so that only the last one is left alone. -/
private theorem ackTiming_iff (answer : (trial.scenario.seen last).ackBus = true)
    (final : ∀ after, last < after → (trial.scenario.seen after).ackBus = false) (edges : Nat) :
    Sampled.AckTimingHolds (Arbiter.sampled trial.scenario.seen) edges ↔ edges ≤ last + 16 := by
  rw [Sampled.ackTimingHolds_iff]
  constructor
  · intro timing
    by_contra beyond
    obtain ⟨grant, h, granted, position⟩ := (answer_iff room).mp answer
    rcases timing last (by omega) ((busy_iff room).mpr ⟨grant, h, granted, .inr position⟩) with
      ⟨k, positive, _, again⟩ | ended
    · cases (final (last + k) (by omega)).symm.trans again
    · exact beyond ended
  · intro ends edge inside busy
    obtain ⟨grant, h, granted, rfl | rfl⟩ := (busy_iff room).mp busy
    · exact .inl ⟨1, Nat.le_refl _, by decide, (answer_iff room).mpr ⟨grant, h, granted, rfl⟩⟩
    · obtain ⟨other, g, behind, rfl⟩ := (answer_iff room).mp answer
      rcases Nat.lt_or_ge grant other with later | past
      · obtain ⟨next, after, within, event⟩ := next_grant room legal granted behind later
        obtain ⟨f, again⟩ := Option.ne_none_iff_exists'.mp event
        refine .inl ⟨next - grant, by omega, by omega, (answer_iff room).mpr ⟨next, f, again, ?_⟩⟩
        omega
      · exact .inr (by omega)

include room legal in
private theorem completed_behind (some : 0 < n)
    (completed : (trial.test n).completed = Option.some edge) :
    ∃ answer, edge = answer + 2 ∧ (trial.scenario.seen answer).ackBus = true := by
  have found : Env.waitForCompletion trial.env n 0 Env.watchdogEdges = Option.some edge := by
    rw [test] at completed
    split at completed
    · rename_i found
      exact found.trans completed
    · cases completed
  have done := (Env.wait_breaks found).1
  rw [env_scoreboard] at done
  cases edge with
  | zero =>
    have none : (n : Int) ≤ 0 := Scoreboard.allDone_eq_true.mp done .slave
    omega
  | succ edge =>
    have unfinished := Env.wait_first found edge (Nat.zero_le _) (Nat.lt_succ_self _)
    rw [env_scoreboard] at unfinished
    cases put : Monitor.putAt trial.scenario.wires edge with
    | none =>
      rw [Scoreboard.run_succ, put, Scoreboard.step, unfinished] at done
      cases done
    | some item =>
      obtain ⟨h, t⟩ := item
      have acked := acked_of_put room legal put
      obtain ⟨grant, before, granted, since⟩ := Service.ack_granted acked
      rw [← Scenario.grantAt_seen] at granted
      have access := access_of_grant (Nat.lt_of_succ_lt room) granted
      refine ⟨grant + 2, ?_, (answer_iff room).mpr ⟨grant, h, granted, rfl⟩⟩
      rcases Nat.lt_trichotomy edge (grant + 3) with early | rfl | late
      · obtain ⟨_, running⟩ := access.running edge (by omega)
        cases acked.symm.trans running
      · rfl
      · obtain ⟨_, running⟩ := since (grant + 3) (by omega) late
        cases access.acked.symm.trans running

include room legal in
/-- A run with legal transactions never breaks `exclusive_rd_wr` or `valid_byte_enable`. The
last acknowledge of the run breaks `ack_timing`, since the antecedent holds at its edge, as soon
as the simulation goes on for its window; a test of up to 399 transactions for every host goes
on for that long exactly if it does not end by itself. -/
theorem properties_report (filled : trial.mail h ≠ []) :
    (∀ edge, (Arbiter.sampled trial.scenario.seen edge).exclusiveRdWr = true ∧
      (Arbiter.sampled trial.scenario.seen edge).validByteEnable = true) ∧
    (∃ last, (trial.scenario.seen last).ackBus = true ∧
      (∀ after, last < after → (trial.scenario.seen after).ackBus = false) ∧
      ∀ edges, Sampled.AckTimingHolds (Arbiter.sampled trial.scenario.seen) edges ↔
        edges ≤ last + 16) ∧
    ∀ n ≤ 399, (∀ g, (trial.mail g).length = n) →
      (Sampled.AckTimingHolds (Arbiter.sampled trial.scenario.seen) (trial.test n).edges ↔
        (trial.test n).completed.isSome = true) := by
  obtain ⟨last, answer, final⟩ := last_answer room legal filled
  have timing := ackTiming_iff room legal answer final
  refine ⟨?_, ⟨last, answer, final, timing⟩, ?_⟩
  · have enabled := (Sampled.validByteEnable_iff trial.scenario.seen).mpr ?_
    · exact fun edge => ⟨Sampled.exclusiveRdWr_run _ edge, enabled edge⟩
    · intro edge g granted
      rw [RoundRobinArbiter.grantAt_eq] at granted
      obtain ⟨t, count, point⟩ :=
        (trial.scenario.consistent g edge).waits (Service.grantFrom_wants granted)
      rw [Scenario.seen_host, (trial.scenario.consistent g edge).driven t count point]
      exact (legal.waits point).be
  · intro n short all
    have positive : 0 < n := all h ▸ List.length_pos_of_ne_nil filled
    rw [timing, Env.Ending.edges]
    cases completed : (trial.test n).completed with
    | some edge =>
      obtain ⟨before, rfl, shown⟩ := completed_behind room legal positive completed
      have bound : before ≤ last := by
        by_contra beyond
        cases (final before (Nat.lt_of_not_le beyond)).symm.trans shown
      exact iff_of_true (by dsimp only; omega) rfl
    | none =>
      have edges : Env.watchdogEdges = 9995 := rfl
      have bound : last < n * 25 + 1 :=
        answer_early room legal (fun g => by rw [all]; exact Nat.lt_succ_self _) answer
      exact iff_of_false (by dsimp only; omega) Bool.false_ne_true

end Legal

theorem oneEach_properties_report :
    (∀ edge, (Arbiter.sampled oneEach.scenario.seen edge).exclusiveRdWr = true ∧
      (Arbiter.sampled oneEach.scenario.seen edge).validByteEnable = true) ∧
    (∃ last, (oneEach.scenario.seen last).ackBus = true ∧
      (∀ after, last < after → (oneEach.scenario.seen after).ackBus = false) ∧
      ∀ edges, Sampled.AckTimingHolds (Arbiter.sampled oneEach.scenario.seen) edges ↔
        edges ≤ last + 16) ∧
    ∀ n ≤ 399, (∀ g, (oneEach.mail g).length = n) →
      (Sampled.AckTimingHolds (Arbiter.sampled oneEach.scenario.seen) (oneEach.test n).edges ↔
        (oneEach.test n).completed.isSome = true) :=
  properties_report (h := .test) (by decide) oneEach_legal (List.cons_ne_nil _ _)

end Trial

end RoundRobinArbiter
