import RoundRobinArbiter.Arbiter.Acknowledge

/-! The device of the bench, after `slave_responder.sv`, alone with the arbiter. Every
access takes the same two cycles: the responder sees it at the first edge and the
arbiter sees the answer at the second. -/

namespace RoundRobinArbiter

open Synchronous

/-- Where the responder is suspended: before an edge at which it looks at the bus, or
before the one at which it takes its answer back. -/
inductive Responder.Point where
  | watch
  | respond
  deriving DecidableEq, Repr

structure Responder (p : Params) where
  ackBus : Bool
  dataBusRd : BitVec p.dw
  /-- An `int`, which wraps. -/
  numTransactions : BitVec 32
  point : Responder.Point
  deriving DecidableEq

namespace Responder

def start : Responder p := ⟨false, 0, 0, .watch⟩

/-- `respond_to_transaction` up to its edge. -/
def respondToTransaction (r : Responder p) (rdBus : Bool) (urandom : BitVec p.dw) : Responder p :=
  { r with
    ackBus := true
    dataBusRd := if rdBus then urandom else r.dataBusRd
    point := .respond }

def step (r : Responder p) (rdBus wrBus : Bool) (urandom : BitVec p.dw) : Responder p :=
  match r.point with
  | .watch =>
    if rdBus || wrBus then
      respondToTransaction { r with numTransactions := r.numTransactions + 1 } rdBus urandom
    else r
  | .respond => { r with ackBus := false, dataBusRd := 0, point := .watch }

end Responder

/-- The arbiter with the responder as its device. -/
structure Served (p : Params) where
  arbiter : Arbiter p
  responder : Responder p

/-- What the two see at an edge: the hosts, and the word the responder would draw. -/
structure Demand (p : Params) where
  host : Host → HostPort p
  urandom : BitVec p.dw

namespace Served

def inputs (s : Served p) (demand : Demand p) : Inputs p where
  host := demand.host
  dataBusRd := s.responder.dataBusRd
  ackBus := s.responder.ackBus

/-- The responder is started while the arbiter is in a given state. -/
def machine (start : Arbiter p) : Machine (Demand p) (Served p) where
  init := { arbiter := start, responder := .start }
  step demand s :=
    { arbiter := s.arbiter.posedge (s.inputs demand) true
      responder := s.responder.step s.arbiter.rdBus s.arbiter.wrBus demand.urandom }

def run (start : Arbiter p) (demands : Nat → Demand p) : Nat → Served p :=
  (machine start).run demands

variable (start : Arbiter p) (demands : Nat → Demand p)

def arbiterAt (cycle : Nat) : Arbiter p := (run start demands cycle).arbiter

def responderAt (cycle : Nat) : Responder p := (run start demands cycle).responder

def seen (cycle : Nat) : Inputs p := (run start demands cycle).inputs (demands cycle)

def grantAt (edge : Nat) : Option Host :=
  Arbiter.granted (arbiterAt start demands edge) (arbiterAt start demands (edge + 1))

def grants (cycle : Nat) : Nat :=
  Nat.count (fun edge => (grantAt start demands edge).isSome = true) cycle

/-- The ACK cycles up to a cycle, that cycle included. -/
def acks (cycle : Nat) : Nat :=
  Nat.count (fun now => Host.all.any (arbiterAt start demands now).acking = true) (cycle + 1)

theorem arbiter_run (cycle : Nat) :
    arbiterAt start demands cycle = Arbiter.runFrom start (seen start demands) cycle :=
  (Arbiter.machine p).runFrom_of_step (fun _ => rfl) cycle

end Served

/-- How far the responder has got with the situation of the arbiter, after so many
grants and ACK cycles. -/
inductive Phase : Nat → Nat → Service p → Responder p → Prop where
  | quiet {a : Service p} (ready : a.ready = true) (num : Nat) :
      Phase num num a ⟨false, 0, .ofNat 32 num, .watch⟩
  | first (h : Host) (held : Request p) (num : Nat) :
      Phase (num + 1) num (.access h held 0) ⟨false, 0, .ofNat 32 num, .watch⟩
  | second (h : Host) (held : Request p) {elapsed : Fin (p.limit + 1)} (one : elapsed.val = 1)
      (word : BitVec p.dw) (num : Nat) :
      Phase (num + 1) num (.access h held elapsed) ⟨true, word, .ofNat 32 (num + 1), .respond⟩

/-- One edge takes the responder on with the arbiter. -/
private theorem Phase.step {a : Service p} {r : Responder p} (phase : Phase grants acks a r)
    (room : 1 < p.limit) {i : Inputs p} (answer : i.ackBus = r.ackBus) (word : BitVec p.dw) :
    Phase (grants + if (a.grant i).isSome then 1 else 0)
      (acks + if (a.step i).acked.isSome then 1 else 0) (a.step i)
      (r.step (a.stm.does .read) (a.stm.does .write) word) := by
  have edge := Service.edge i a
  generalize after : a.step i = next at edge ⊢
  cases phase with
  | quiet ready num =>
    have rests : ∀ count, Responder.step ⟨false, 0, count, .watch⟩ (a.stm.does .read)
        (a.stm.does .write) word = ⟨false, 0, count, .watch⟩ := by
      intro count
      cases a with
      | access h held elapsed => cases ready
      | _ => rfl
    rw [rests]
    cases edge with
    | @grant _ h legal chosen =>
      have granted : a.grant i = some h := Service.grant_eq_some_iff.mpr ⟨legal, chosen⟩
      simp only [granted, Option.isSome_some, Service.acked, Option.isSome_none, ↓reduceIte,
        Bool.false_eq_true, Nat.add_zero]
      exact .first h _ _
    | forget legal last alone =>
      have ungranted : a.grant i = none := by
        rw [Service.grant, if_pos legal, pick_alone last alone]
      simp only [ungranted, Option.isSome_none, Service.acked, Bool.false_eq_true, ↓reduceIte,
        Nat.add_zero]
      exact .quiet rfl _
    | rest legal silent =>
      have ungranted : a.grant i = none := by rw [Service.grant, if_pos legal, pick_silent silent]
      simp only [ungranted, Option.isSome_none, Service.acked, Bool.false_eq_true, ↓reduceIte,
        Nat.add_zero]
      exact .quiet rfl _
    | proceed waits within => cases ready
    | finish ends => cases ready
  | first h held num =>
    cases edge with
    | grant legal chosen => cases legal
    | forget legal last alone => cases legal
    | rest legal silent => cases legal
    | proceed waits within =>
      have counted : BitVec.ofNat 32 acks + 1 = .ofNat 32 (acks + 1) :=
        (BitVec.ofNat_add acks 1).symm
      have detects : ((Service.access h held 0 : Service p).stm.does .read ||
          (Service.access h held 0 : Service p).stm.does .write) = true := by
        cases op : held.op <;> simp [Service.stm, Stm.does, op]
      rw [Responder.step, if_pos detects, Responder.respondToTransaction, counted]
      exact .second h held rfl _ _
    | finish ends =>
      rcases ends with answered | full
      · cases answer.symm.trans answered
      · rw [Fin.val_zero] at full
        omega
  | second h held one drawn num =>
    cases edge with
    | grant legal chosen => cases legal
    | forget legal last alone => cases legal
    | rest legal silent => cases legal
    | proceed waits within => cases answer.symm.trans waits
    | finish ends => exact .quiet rfl _

/-- An access has two cycles, and the second is the one with the answer. -/
theorem Phase.answers {r : Responder p} (phase : Phase grants acks (.access h held elapsed) r) :
    elapsed.val ≤ 1 ∧ (r.ackBus = true ↔ elapsed.val = 1) := by
  cases phase with
  | quiet ready => cases ready
  | first => simp
  | second h held one word num => simp [one]

private theorem Phase.answering {a : Service p} {r : Responder p} (phase : Phase grants acks a r)
    (answer : r.ackBus = true) :
    ∃ h held elapsed, a = .access h held elapsed ∧ elapsed.val = 1 := by
  cases phase with
  | quiet ready => cases answer
  | first => cases answer
  | second h held one word num => exact ⟨h, held, _, rfl, one⟩

/-- Between accesses every grant has been answered, counted and acknowledged. -/
theorem Phase.settled {a : Service p} {r : Responder p} (phase : Phase grants acks a r)
    (ready : a.ready = true) :
    r.numTransactions = .ofNat 32 grants ∧ r.numTransactions = .ofNat 32 acks := by
  cases phase with
  | quiet _ => exact ⟨rfl, rfl⟩
  | first => cases ready
  | second => cases ready

theorem Phase.cleared {a : Service p} {r : Responder p} (phase : Phase grants acks a r)
    (ready : a.ready = true) : r.dataBusRd = 0 := by
  cases phase with
  | quiet _ => rfl
  | first => cases ready
  | second => cases ready

theorem Phase.watching {r : Responder p} (phase : Phase grants acks (.access h held 0) r) :
    r.point = .watch ∧ r.dataBusRd = 0 := by
  cases phase with
  | quiet ready => cases ready
  | first => exact ⟨rfl, rfl⟩
  | second h held one => cases one

private theorem Refines.any_acking {s : Arbiter p} {a : Service p} (refines : Refines s a) :
    Host.all.any s.acking = a.acked.isSome := by
  have same : s.acking = fun h => a.acked == some h := funext fun _ => refines.acking
  rw [same]
  cases a with
  | ack h => cases h <;> rfl
  | _ => rfl

namespace Served

variable {start : Arbiter p} {pointer : Option Host} {demands : Nat → Demand p}

def view (pointer : Option Host) (start : Arbiter p) (demands : Nat → Demand p) :
    Nat → Service p :=
  Service.runFrom (.idle pointer) (seen start demands)

theorem refines_view (demands : Nat → Demand p) (refines : Refines start (.idle pointer))
    (cycle : Nat) :
    Refines (arbiterAt start demands cycle) (view pointer start demands cycle) := by
  rw [arbiter_run]
  exact refines_runFrom refines (seen start demands) cycle

theorem grantAt_view (refines : Refines start (.idle pointer)) (edge : Nat) :
    grantAt start demands edge =
      Service.grantFrom (.idle pointer) (seen start demands) edge :=
  (refines_view demands refines edge).granted (seen start demands edge)

theorem phase (demands : Nat → Demand p) (refines : Refines start (.idle pointer))
    (room : 1 < p.limit) (cycle : Nat) :
    Phase (grants start demands cycle) (acks start demands cycle)
      (view pointer start demands cycle) (responderAt start demands cycle) := by
  induction cycle with
  | zero =>
    have none : acks start demands 0 = 0 := by
      have still := (refines_view demands refines 0).any_acking
      rw [acks, Nat.count_succ, still]
      rfl
    rw [none]
    exact .quiet rfl 0
  | succ cycle ih =>
    have shown := refines_view demands refines cycle
    have next := refines_view demands refines (cycle + 1)
    have stepped := ih.step room (i := seen start demands cycle) rfl (demands cycle).urandom
    rw [← shown.rdBus, ← shown.wrBus] at stepped
    have granted : grants start demands (cycle + 1) = grants start demands cycle +
        if ((view pointer start demands cycle).grant (seen start demands cycle)).isSome
        then 1 else 0 := by
      rw [grants, Nat.count_succ, grantAt_view refines]
      rfl
    have acked : acks start demands (cycle + 1) = acks start demands cycle +
        if (view pointer start demands (cycle + 1)).acked.isSome then 1 else 0 := by
      rw [acks, Nat.count_succ, next.any_acking]
      rfl
    rw [granted, acked]
    exact stepped

theorem view_granted (refines : Refines start (.idle pointer)) (room : 1 < p.limit)
    (granted : grantAt start demands edge = some h) :
    ∃ held second, view pointer start demands (edge + 1) = .access h held 0 ∧
      view pointer start demands (edge + 2) = .access h held second ∧
      view pointer start demands (edge + 3) = .ack h := by
  rw [grantAt_view refines] at granted
  have running : view pointer start demands (edge + 1) = _ := Service.grantFrom_access granted
  have unanswered : (seen start demands (edge + 1)).ackBus = false := by
    have phase := phase demands refines room (edge + 1)
    rw [running] at phase
    rw [← Bool.not_eq_true]
    intro answer
    cases phase.answers.2.mp answer
  rcases Service.access_next running with ⟨_, _, second, one, next⟩ | ⟨answered | full, _⟩
  · refine ⟨_, second, running, next, ?_⟩
    have phase := phase demands refines room (edge + 2)
    rw [show view pointer start demands (edge + 2) = _ from next] at phase
    have answer : (seen start demands (edge + 2)).ackBus = true := phase.answers.2.mpr one
    rcases Service.access_next next with ⟨waits, _⟩ | ⟨_, acked⟩
    · cases answer.symm.trans waits
    · exact acked
  · cases unanswered.symm.trans answered
  · rw [Fin.val_zero] at full
    omega

theorem answer_granted (refines : Refines start (.idle pointer)) (room : 1 < p.limit)
    (answer : (responderAt start demands cycle).ackBus = true) :
    ∃ edge h, grantAt start demands edge = some h ∧ cycle = edge + 2 := by
  obtain ⟨h, held, elapsed, running, one⟩ :=
    (phase demands refines room cycle).answering answer
  cases cycle with
  | zero => cases running
  | succ cycle =>
    rcases Service.access_previous running with ⟨_, _, first⟩ | ⟨previous, counted, before⟩
    · omega
    · cases cycle with
      | zero => cases before
      | succ edge =>
        rcases Service.access_previous before with ⟨granted, _⟩ | ⟨earlier, further, _⟩
        · refine ⟨edge, h, ?_, rfl⟩
          rw [grantAt_view refines]
          exact granted
        · omega

theorem timeout_never (refines : Refines start (.idle pointer)) (room : 2 < p.limit)
    (fresh : start.timeoutCnt = 0) (cycle : Nat) :
    (arbiterAt start demands cycle).timeout = false := by
  rw [← Bool.not_eq_true]
  intro fires
  cases cycle with
  | zero =>
    have limit : start.timeoutCnt.toNat = p.limit := (Arbiter.timeout_eq start).mp fires
    have zero : (0 : BitVec p.tw).toNat = 0 := BitVec.toNat_zero
    rw [fresh, zero] at limit
    omega
  | succ cycle =>
    obtain ⟨h, held, elapsed, running, late⟩ :=
      (refines_view demands refines cycle).timeout_next (by omega) fires
    have phase := phase demands refines (by omega) cycle
    rw [running] at phase
    have early := phase.answers.1
    omega

end Served

/-- Arbiter and responder in step: every access has two cycles and is answered in the
second, and between accesses the responder has counted every grant and every ACK cycle, as
far as an `int` can. -/
structure InStep (start : Arbiter p) (demands : Nat → Demand p) : Prop where
  twoCycles : ∀ edge h, Served.grantAt start demands edge = some h →
    (Served.arbiterAt start demands (edge + 1)).accessing h = true ∧
    (Served.arbiterAt start demands (edge + 2)).accessing h = true ∧
    (Served.arbiterAt start demands (edge + 3)).acking h = true
  answer : ∀ cycle, (Served.responderAt start demands cycle).ackBus = true →
    ∃ edge h, Served.grantAt start demands edge = some h ∧ cycle = edge + 2
  timeout : ∀ cycle, (Served.arbiterAt start demands cycle).timeout = false
  counts : ∀ cycle, (Served.arbiterAt start demands cycle).busy = false →
    (Served.responderAt start demands cycle).numTransactions =
        .ofNat 32 (Served.grants start demands cycle) ∧
      (Served.responderAt start demands cycle).numTransactions =
        .ofNat 32 (Served.acks start demands cycle)

/-- Started in an idle cycle, the responder stays in step with the arbiter for ever. The
timeout counter needs three bits to be out of the way of an access of two cycles. -/
theorem inStep_of_idle {start : Arbiter p} (wide : 3 ≤ p.tw)
    (reached : (Arbiter.resettable p).Reachable start) (resting : start.astmStm = astmIdle)
    (demands : Nat → Demand p) : InStep start demands := by
  have eight : 2 ^ 3 ≤ 2 ^ p.tw := Nat.pow_le_pow_right (by decide) wide
  have room : 2 < p.limit := by
    rw [Params.limit]
    omega
  have fresh := timeoutCnt_idle (Arbiter.reachable_of_resettable reached) resting
  obtain ⟨a, related⟩ := refines_reachable reached
  obtain ⟨pointer, rfl⟩ : ∃ pointer, a = .idle pointer := by
    have situation := (related.stm_eq_iff .idle).mp resting
    cases a with
    | idle pointer => exact ⟨pointer, rfl⟩
    | access h held elapsed => cases situation
    | ack h => cases situation
  have two : 1 < p.limit := by omega
  refine ⟨?_, fun _ => Served.answer_granted related two,
    Served.timeout_never related room fresh, ?_⟩
  · intro edge h granted
    obtain ⟨held, second, one, next, acked⟩ := Served.view_granted related two granted
    refine ⟨?_, ?_, ?_⟩
    · exact (Served.refines_view demands related _).accessing_iff.mpr ⟨held, 0, one⟩
    · exact (Served.refines_view demands related _).accessing_iff.mpr ⟨held, second, next⟩
    · exact (Served.refines_view demands related _).acking_iff.mpr acked
  · intro cycle quiet
    rw [(Served.refines_view demands related cycle).busy, Bool.not_eq_false'] at quiet
    exact (Served.phase demands related two cycle).settled quiet

theorem inStep_default :
    InStep (Arbiter.reset : Arbiter .default) (fun _ => ⟨fun _ => .reading 0, 7⟩) :=
  inStep_of_idle (by decide) .init rfl (fun _ => ⟨fun _ => .reading 0, 7⟩)

end RoundRobinArbiter
