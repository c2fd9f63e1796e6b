import RoundRobinArbiter.Arbiter.Latency
import RoundRobinArbiter.Testbench.Patience
import RoundRobinArbiter.Testbench.Views

namespace RoundRobinArbiter

open Synchronous

/-- A transaction with the answer of its access: the normal acknowledge, and for a read the
word that the responder has drawn. -/
def Transaction.answered (t : Transaction p) (word : BitVec p.dw) : Transaction p :=
  { t with ack := 1, rdData := if t.rd then word else t.rdData }

theorem Transaction.Legal.wants {t : Transaction p} (legal : t.Legal) : t.port.wants = true := by
  have ops := legal.ops
  change (t.rd || t.wr) = true
  cases read : t.rd <;> cases write : t.wr <;> simp_all

private theorem Pairing.finish_eq {scenario : Scenario p} {given returned : Transaction p}
    (pairing : Pairing scenario h given returned drive grant finish edge) : finish = edge := by
  obtain ⟨first, second, third⟩ := pairing.order
  rcases Nat.eq_or_lt_of_le third with last | earlier
  · exact last
  · obtain ⟨_, before⟩ := pairing.waits finish (by omega) third
    obtain ⟨_, after⟩ := pairing.waits (finish + 1) (by omega) earlier
    exact absurd pairing.acked (not_acking_between before after)

namespace Trial

variable {trial : Trial p}

theorem prompt (room : 1 < p.limit) (start : Nat) :
    Prompt 2 (Service.run trial.scenario.seen start) fun k => trial.scenario.seen (start + k) := by
  intro k h held elapsed running late
  rw [Service.run, Service.runFrom, Service.runFrom, ← Machine.runFrom_add] at running
  have phase := trial.phase room (start + k)
  rw [show Service.run trial.scenario.seen (start + k) = _ from running] at phase
  obtain ⟨short, answers⟩ := phase.answers
  exact .inl (answers.mpr (by omega))

theorem granted_soon (room : 1 < p.limit) (cycle : Nat) (h : Host)
    (asks : ∀ k ≤ Latency.wait 2 (Service.run trial.scenario.seen cycle) h,
      (trial.scenario.seen (cycle + k)).wants h = true) :
    ∃ k ≤ Latency.wait 2 (Service.run trial.scenario.seen cycle) h,
      trial.scenario.grantAt (cycle + k) = some h := by
  obtain ⟨k, within, granted⟩ := granted_within (by decide) (trial.prompt room cycle) h asks
  refine ⟨k, within, ?_⟩
  rw [Scenario.grantAt_seen]
  rw [Service.grantFrom, Service.run, Service.runFrom, Service.runFrom, ← Machine.runFrom_add]
    at granted
  exact granted

theorem wants_waiting {t : Transaction p} (request : t.port.wants = true)
    (point : (trial.scenario.driver h cycle).point = .ack t count) :
    (trial.scenario.seen cycle).wants h = true := by
  rw [Inputs.wants, Scenario.seen_host, (trial.scenario.consistent h cycle).driven t count point]
  exact request

/-- A driver with a request is not kept waiting for more than 15 edges. -/
theorem waits_short (room : 2 < p.limit) {t : Transaction p} (request : t.port.wants = true)
    (point : (trial.scenario.driver h cycle).point = .ack t count) : count ≤ 15 := by
  by_contra long
  obtain ⟨drive, position, _, waits⟩ := Scenario.waiting_since point
  have bound : Latency.wait 2 (Service.run trial.scenario.seen (drive + 1)) h ≤ _ :=
    Latency.wait_le (by decide) _ h
  have loose : Latency.wait 2 (Service.run trial.scenario.seen (drive + 1)) h ≤ 12 := by
    split at bound <;> omega
  obtain ⟨k, within, granted⟩ := granted_soon (by omega) (drive + 1) h
    fun k inside => wants_waiting request (waits k (by omega))
  -- the acknowledge of that access ends the wait
  have acked := (access_of_grant (by omega) granted).acked
  have shown := waits (k + 3) (by omega)
  have still := waits (k + 3 + 1) (by omega)
  have quiet : (trial.scenario.arbiter (drive + 1 + (k + 3))).acking h ≠ true :=
    not_acking_between shown still
  exact quiet ((trial.scenario.refines _).acking_iff.mpr acked)

theorem timeoutD_never (room : 2 < p.limit) (cycle : Nat) :
    (trial.scenario.arbiter cycle).timeoutD = false := by
  rw [← Bool.not_eq_true]
  intro raised
  have refines := trial.scenario.refines cycle
  exact not_routed_of_timeoutD refines raised fun h shows =>
    refines.acking_iff.mpr ((ack_iff room h cycle).mp shows)

/-- Nothing ever disturbs a driver with a legal transaction. -/
theorem undisturbed (room : 2 < p.limit) (legal : trial.scenario.Legal) (h : Host)
    (cycle : Nat) : Undisturbed (trial.scenario.run cycle) h := by
  intro t count point disturbs
  rcases disturbs with times | expired
  · cases (timeoutD_never room cycle).symm.trans times
  · have short := waits_short room (legal.waits point).wants point
    have limit : Driver.timeoutLimit = 65535 := rfl
    omega

theorem handshake (room : 2 < p.limit) (legal : trial.scenario.Legal) (h : Host) :
    Handshake trial.scenario.seen h :=
  handshake_of_undisturbed legal (undisturbed room legal h)

theorem ack_normal (room : 2 < p.limit) (acked : Service.run trial.scenario.seen cycle = .ack h) :
    (trial.scenario.arbiter cycle).ack h = 1 := by
  have refines := trial.scenario.refines cycle
  have completes := refines.completion_iff.mpr (refines.acking_iff.mpr acked)
  have quiet := (Arbiter.ack_timeout (trial.scenario.arbiter cycle) h).trans
    (timeoutD_never room cycle)
  generalize (trial.scenario.arbiter cycle).ack h = lines at completes quiet
  revert lines
  decide

private theorem silent_driving {t : Transaction p}
    (driven : (trial.scenario.driver h drive).point = .drive t) :
    (trial.scenario.seen drive).wants h = false := by
  rw [← Bool.not_eq_true]
  intro wants
  obtain ⟨other, count, waits⟩ := (trial.scenario.consistent h drive).waits wants
  cases driven.symm.trans waits

theorem unserved (room : 2 < p.limit) (legal : trial.scenario.Legal) {t : Transaction p}
    (driven : (trial.scenario.driver h drive).point = .drive t) :
    (Service.run trial.scenario.seen (drive + 1)).owner ≠ some h := by
  have silent := silent_driving driven
  intro served
  rcases Service.owner_succ.mp served with granted | ⟨held, elapsed, running⟩
  · cases silent.symm.trans (Service.grantFrom_wants granted)
  · have busy := (handshake room legal h).served_wants drive
      (Service.owner_eq_some_iff.mpr (.inl ⟨held, elapsed, running⟩))
    cases silent.symm.trans busy

private theorem granted_since (room : 1 < p.limit)
    (unserved : (Service.run trial.scenario.seen start).owner ≠ some h)
    (acked : Service.run trial.scenario.seen (start + j) = .ack h) :
    ∃ i, i + 3 = j ∧ trial.scenario.grantAt (start + i) = some h := by
  obtain ⟨edge, inside, granted, running⟩ := Service.ack_granted acked
  rcases Nat.lt_or_ge edge start with early | late
  · refine absurd (Service.owner_eq_some_iff.mpr ?_) unserved
    rcases Nat.eq_zero_or_pos j with rfl | later
    · exact .inr acked
    · obtain ⟨now, busy⟩ := running start early (by omega)
      exact .inl ⟨_, now, busy⟩
  · obtain ⟨i, rfl⟩ := Nat.exists_eq_add_of_le late
    have chosen := (Scenario.grantAt_seen _ _).trans granted
    refine ⟨i, ?_, chosen⟩
    have access := access_of_grant room chosen
    rcases Nat.lt_trichotomy (i + 3) j with short | same | long
    · obtain ⟨now, busy⟩ := running (start + i + 3) (by omega) (by omega)
      cases busy.symm.trans access.acked
    · exact same
    · obtain ⟨now, busy⟩ := access.running (start + j) (by omega)
      cases busy.symm.trans acked

private theorem waits_ungranted (room : 2 < p.limit) (legal : trial.scenario.Legal)
    {t : Transaction p} (driven : (trial.scenario.driver h drive).point = .drive t) (more : Nat)
    (patient : more < Driver.timeoutLimit)
    (vain : ∀ i, i + 3 < more → trial.scenario.grantAt (drive + 1 + i) ≠ some h) :
    (trial.scenario.driver h (drive + 1 + more)).point = .ack t more := by
  refine Scenario.waits_on (Scenario.drives driven) more patient ?_
  intro k below
  by_contra shown
  obtain ⟨i, before, granted⟩ :=
    granted_since (by omega) (unserved room legal driven) ((ack_iff room h _).mp shown)
  exact vain i (by omega) granted

/-- A driven transaction is granted within 11 edges, and its driver waits for the
acknowledge of that access. -/
private theorem granted_driven (room : 2 < p.limit) (legal : trial.scenario.Legal)
    {t : Transaction p} (driven : (trial.scenario.driver h drive).point = .drive t) :
    ∃ k ≤ 10, trial.scenario.grantAt (drive + 1 + k) = some h ∧
      ∀ j ≤ k + 3, (trial.scenario.driver h (drive + 1 + j)).point = .ack t j := by
  classical
  have limit : Driver.timeoutLimit = 65535 := rfl
  have two : 1 < p.limit := Nat.lt_of_succ_lt room
  have bound : Latency.wait 2 (Service.run trial.scenario.seen (drive + 1)) h ≤ _ :=
    Latency.wait_le (by decide) _ h
  have idle : (Service.run trial.scenario.seen (drive + 1)).client ≠ some h := by
    have free := unserved room legal driven
    cases situation : Service.run trial.scenario.seen (drive + 1) with
    | access g held elapsed =>
      rw [situation] at free
      exact free
    | _ => exact nofun
  rw [if_neg idle] at bound
  have soon : ∃ k, k ≤ 10 ∧ trial.scenario.grantAt (drive + 1 + k) = some h := by
    by_contra never
    have vain : ∀ k ≤ 10, trial.scenario.grantAt (drive + 1 + k) ≠ some h :=
      fun k inside granted => never ⟨k, inside, granted⟩
    have asks : ∀ k ≤ Latency.wait 2 (Service.run trial.scenario.seen (drive + 1)) h,
        (trial.scenario.seen (drive + 1 + k)).wants h = true := by
      intro k inside
      have waits := waits_ungranted room legal driven k (by omega) fun i before => vain i (by omega)
      exact wants_waiting (legal.waits waits).wants waits
    obtain ⟨k, inside, granted⟩ := granted_soon two (drive + 1) h asks
    exact vain k (inside.trans bound) granted
  obtain ⟨within, granted⟩ := Nat.find_spec soon
  refine ⟨Nat.find soon, within, granted, ?_⟩
  intro j inside
  refine waits_ungranted room legal driven j (by omega) ?_
  intro i before again
  exact Nat.find_min soon (show i < Nat.find soon by omega) ⟨by omega, again⟩

private theorem pairing_of_waits {t given returned : Transaction p}
    (pairing : Pairing trial.scenario h given returned drive grant finish edge)
    (driven : (trial.scenario.driver h start).point = .drive t) (before : start < edge)
    (waits : ∀ cycle, start < cycle → cycle ≤ edge →
      ∃ count, (trial.scenario.driver h cycle).point = .ack t count) :
    drive = start ∧ given = t := by
  obtain ⟨first, second, third⟩ := pairing.order
  rcases Nat.lt_trichotomy drive start with earlier | same | later
  · obtain ⟨count, waiting⟩ := pairing.waits start earlier (Nat.le_of_lt before)
    cases driven.symm.trans waiting
  · subst same
    cases driven.symm.trans pairing.driven
    exact ⟨rfl, rfl⟩
  · obtain ⟨count, waiting⟩ := waits drive later (by omega)
    cases pairing.driven.symm.trans waiting

/-- Every driven transaction is one access: it is granted within 11 edges, and comes back
three edges later with the normal acknowledge and the word drawn for that access. -/
theorem delivered (room : 2 < p.limit) (legal : trial.scenario.Legal) {t : Transaction p}
    (driven : (trial.scenario.driver h drive).point = .drive t) :
    ∃ grant ≤ drive + 11,
      trial.scenario.returns h (grant + 3) =
        some (t.answered (trial.draws (grant + 1)).urandom) ∧
      Pairing trial.scenario h t (t.answered (trial.draws (grant + 1)).urandom)
        drive grant (grant + 3) (grant + 3) := by
  obtain ⟨k, within, granted, waits⟩ := granted_driven room legal driven
  have access := access_of_grant (Nat.lt_of_succ_lt room) granted
  have acked : Service.run trial.scenario.seen (drive + 1 + (k + 3)) = .ack h := access.acked
  have normal := ack_normal room acked
  have answer : (trial.scenario.arbiter (drive + 1 + (k + 3))).ack h ≠ 0 := by
    rw [normal]
    decide
  have port := (trial.scenario.consistent h (drive + 1 + k)).driven t k
    (waits k (Nat.le_add_right _ _))
  have returned : trial.scenario.returns h (drive + 1 + k + 3) =
      some (t.answered (trial.draws (drive + 1 + k + 1)).urandom) := by
    have ends := (trial.scenario.driver_edge h _).ends (waits (k + 3) (Nat.le_refl _)) (.inl answer)
    refine ends.trans (congrArg some ?_)
    have loaded := access.loaded
    rw [port] at loaded
    rw [Transaction.respond, if_pos answer, normal, Transaction.answered]
    cases read : t.rd with
    | false => rfl
    | true => rw [← loaded read]; rfl
  refine ⟨drive + 1 + k, by omega, returned, ?_⟩
  obtain ⟨given, start, grant, finish, pairing⟩ :=
    paired_of_undisturbed legal (undisturbed room legal h) returned
  obtain ⟨rfl, rfl⟩ := pairing_of_waits pairing driven (by omega) (by
    intro cycle after before
    obtain ⟨j, rfl⟩ := Nat.exists_eq_add_of_le after
    exact ⟨j, waits j (by omega)⟩)
  obtain rfl := pairing.finish_eq
  obtain rfl := (pairing.granted (start + 1 + k) (by omega) (by omega)).mp granted
  exact pairing

end Trial

end RoundRobinArbiter
