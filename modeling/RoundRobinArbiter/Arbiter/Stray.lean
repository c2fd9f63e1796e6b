import RoundRobinArbiter.Arbiter.Acknowledge
import RoundRobinArbiter.Arbiter.Handshake

namespace RoundRobinArbiter

open Synchronous

namespace Arbiter

/-- The registers with the read register blanked. -/
def withoutRead (s : Arbiter p) : Arbiter p := { s with dataBusRdD := 0 }

private theorem busBlock_withoutRead (s : Arbiter p) (i : Inputs p) (resetN : Bool) :
    (s.withoutRead.busBlock i resetN).withoutRead = (s.busBlock i resetN).withoutRead := by
  have loads : s.withoutRead.loads i = s.loads i := rfl
  have clears : s.withoutRead.clears i = s.clears i := rfl
  unfold busBlock
  rw [loads, clears]
  cases resetN <;> cases s.loads i <;> cases s.clears i <;> rfl

private theorem posedge_withoutRead (s : Arbiter p) (i : Inputs p) :
    (s.withoutRead.posedge i true).withoutRead = (s.posedge i true).withoutRead := by
  have split : ∀ t : Arbiter p, (t.posedge i true).withoutRead =
      { (t.busBlock i true).withoutRead with
        astmStm := t.astmStmBlock i true
        timeoutCnt := t.timeoutCntBlock true
        timeoutD := t.timeoutDBlock true } := fun _ => rfl
  rw [split, split, busBlock_withoutRead]
  rfl

end Arbiter

private theorem Refines.posedge_answer {s : Arbiter p} {a : Service p} (refines : Refines s a)
    {i j : Inputs p} (hosts : i.host = j.host)
    (answer : a.ready = false → i.ackBus = j.ackBus) :
    (s.posedge i true).withoutRead = (s.posedge j true).withoutRead := by
  obtain ⟨host, word, response⟩ := i
  obtain ⟨_, other, reply⟩ := j
  dsimp only at hosts answer
  subst hosts
  cases ready : a.ready with
  | false =>
    obtain rfl := answer ready
    rfl
  | true =>
    have legal : a.stm.ready = true := (Service.stm_ready a).trans ready
    have quiet : ∀ k : Inputs p, s.clears k = false := by
      intro k
      rw [refines.clears, ready, Bool.not_true, Bool.and_false]
    have bus : s.busBlock ⟨host, word, response⟩ true = s.busBlock ⟨host, other, reply⟩ true := by
      unfold Arbiter.busBlock
      rw [quiet, quiet]
      rfl
    have state : s.astmStmBlock ⟨host, word, response⟩ true =
        s.astmStmBlock ⟨host, other, reply⟩ true :=
      (Arbiter.astmStmBlock_ready refines.stm legal).trans
        (Arbiter.astmStmBlock_ready (i := ⟨host, other, reply⟩) refines.stm legal).symm
    simp only [Arbiter.withoutRead, Arbiter.posedge, bus, state]

/-- Two runs see the same hosts, and the same device at the edges at which both
show it an access. -/
structure AnswersAlike (first second : Nat → Inputs p) : Prop where
  hosts : ∀ edge, (first edge).host = (second edge).host
  device : ∀ edge, (Arbiter.run first edge).busy = true → (Arbiter.run second edge).busy = true →
    (first edge).ackBus = (second edge).ackBus ∧ (first edge).dataBusRd = (second edge).dataBusRd

/-- Two runs differ in nothing but read data that no host looks at. -/
structure Indistinct (first second : Nat → Inputs p) : Prop where
  registers : ∀ cycle,
    (Arbiter.run first cycle).astmStm = (Arbiter.run second cycle).astmStm ∧
    (Arbiter.run first cycle).currentM = (Arbiter.run second cycle).currentM ∧
    (Arbiter.run first cycle).timeoutCnt = (Arbiter.run second cycle).timeoutCnt ∧
    (Arbiter.run first cycle).timeoutD = (Arbiter.run second cycle).timeoutD ∧
    (Arbiter.run first cycle).addBus = (Arbiter.run second cycle).addBus ∧
    (Arbiter.run first cycle).byteEn = (Arbiter.run second cycle).byteEn ∧
    (Arbiter.run first cycle).cpuBus = (Arbiter.run second cycle).cpuBus ∧
    (Arbiter.run first cycle).dataBusWr = (Arbiter.run second cycle).dataBusWr
  reads : ∀ cycle g, (Arbiter.run first cycle).acking g = true →
    ((Arbiter.run first cycle).ack g).getLsbD 1 = false →
    ∀ h, (Arbiter.run first cycle).drd h = (Arbiter.run second cycle).drd h

section Runs

variable {first second : Nat → Inputs p}

private theorem busy_congr {s t : Arbiter p} (same : s.withoutRead = t.withoutRead) :
    s.busy = t.busy :=
  show s.withoutRead.busy = t.withoutRead.busy from congrArg Arbiter.busy same

theorem AnswersAlike.registers (alike : AnswersAlike first second) (cycle : Nat) :
    (Arbiter.run first cycle).withoutRead = (Arbiter.run second cycle).withoutRead := by
  induction cycle with
  | zero => rfl
  | succ cycle ih =>
    have refines := refines_run first cycle
    have answer : (Service.run first cycle).ready = false →
        (first cycle).ackBus = (second cycle).ackBus := by
      intro running
      have busy : (Arbiter.run first cycle).busy = true := by rw [refines.busy, running]; rfl
      exact (alike.device cycle busy ((busy_congr ih).symm.trans busy)).1
    calc (Arbiter.run first (cycle + 1)).withoutRead
        = ((Arbiter.run first cycle).posedge (second cycle) true).withoutRead :=
          refines.posedge_answer (alike.hosts cycle) answer
      _ = ((Arbiter.run second cycle).posedge (second cycle) true).withoutRead := by
          rw [← Arbiter.posedge_withoutRead, ih, Arbiter.posedge_withoutRead]

/-- An access that did not time out has just loaded the word that both runs were
shown. -/
theorem AnswersAlike.reads (alike : AnswersAlike first second)
    (acked : (Arbiter.run first cycle).acking g = true)
    (intime : (Arbiter.run first cycle).timeoutD = false) :
    (Arbiter.run first cycle).dataBusRdD = (Arbiter.run second cycle).dataBusRdD := by
  rw [(refines_run first cycle).acking_iff] at acked
  cases cycle with
  | zero => cases acked
  | succ cycle =>
    obtain ⟨held, elapsed, running⟩ := Service.ack_previous acked
    have refines := refines_run first cycle
    have busy : (Arbiter.run first cycle).busy = true := by
      rw [refines.busy, show Service.run first cycle = _ from running]
      rfl
    have both := (busy_congr (alike.registers cycle)).symm.trans busy
    obtain ⟨answer, word⟩ := alike.device cycle busy both
    rw [show Service.run first cycle = _ from running] at refines
    rw [timeoutD_succ, ← Bool.not_eq_true, refines.timeout] at intime
    have loaded : (first cycle).ackBus = true := by
      rcases Service.access_next running with ⟨_, _, _, _, runs⟩ | ⟨ends, _⟩
      · cases runs.symm.trans acked
      · exact ends.resolve_right intime
    have first_word : (Arbiter.run first (cycle + 1)).dataBusRdD = (first cycle).dataBusRd :=
      if_pos loaded
    have second_word : (Arbiter.run second (cycle + 1)).dataBusRdD = (second cycle).dataBusRd :=
      if_pos (answer.symm.trans loaded)
    rw [first_word, second_word, word]

end Runs

/-- What the device does where it sees no access changes nothing but read data
outside good completions. -/
theorem stray_answers_harmless {first second : Nat → Inputs p}
    (alike : AnswersAlike first second) : Indistinct first second where
  registers cycle := by
    have same := alike.registers cycle
    simp only [Arbiter.withoutRead, Arbiter.mk.injEq, true_and] at same
    obtain ⟨stm, count, line, enable, cpu, word, pointer, flag⟩ := same
    exact ⟨stm, pointer, count, flag, line, enable, cpu, word⟩
  reads _ g acked intime _ := alike.reads acked ((Arbiter.ack_timeout _ g).symm.trans intime)

/-- The reads of `fourReads`, with an answer nobody asked for at the first edge. -/
def strayAnswer (cycle : Nat) : Inputs .default :=
  if cycle = 0 then { fourReads 0 with ackBus := true, dataBusRd := 7 } else fourReads cycle

private theorem strayAnswer_alike : AnswersAlike strayAnswer fourReads where
  hosts
    | 0 => rfl
    | _ + 1 => rfl
  device
    | 0, busy, _ => absurd busy (by decide)
    | _ + 1, _, _ => ⟨rfl, rfl⟩

theorem strayAnswer_harmless : Indistinct strayAnswer fourReads :=
  stray_answers_harmless strayAnswer_alike

end RoundRobinArbiter
