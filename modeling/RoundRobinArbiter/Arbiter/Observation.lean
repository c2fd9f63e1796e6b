import RoundRobinArbiter.Arbiter.Refinement
import RoundRobinArbiter.Synchronous.Events

namespace RoundRobinArbiter

open Synchronous

namespace Arbiter

/-- The state machine is in IDLE or an ACK state. -/
def arbitrating (s : Arbiter p) : Bool :=
  s.astmStm == Stm.idle.code || Host.all.any fun h => s.astmStm == (Stm.ack h).code

/-- The state machine is in an access state of `h`. -/
def accessing (s : Arbiter p) (h : Host) : Bool :=
  s.astmStm == (Stm.access h .read).code || s.astmStm == (Stm.access h .write).code

/-- The state machine is in the ACK state of `h`. -/
def acking (s : Arbiter p) (h : Host) : Bool := s.astmStm == (Stm.ack h).code

/-- The device sees an access. -/
def busy (s : Arbiter p) : Bool := s.rdBus || s.wrBus

/-- The host granted at an edge: the state machine moves from IDLE or an ACK
state into an access state of that host. -/
def granted (before after : Arbiter p) : Option Host :=
  if before.arbitrating then Host.all.find? after.accessing else none

def grantFrom (start : Arbiter p) (inputs : Nat → Inputs p) (edge : Nat) : Option Host :=
  granted (runFrom start inputs edge) (runFrom start inputs (edge + 1))

def grantAt (inputs : Nat → Inputs p) (edge : Nat) : Option Host := grantFrom reset inputs edge

def request (s : Arbiter p) : Request p where
  toLines := s.lines
  op := if s.rdBus then .read else .write

private theorem ackOf_bits (s : Arbiter p) (nstm : Nat) :
    (s.ackOf nstm).getLsbD 0 = s.astmStm.getLsbD nstm ∧ (s.ackOf nstm).getLsbD 1 = s.timeoutD := by
  unfold ackOf
  cases s.timeoutD <;> cases s.astmStm.getLsbD nstm <;> decide

private theorem ack_completion (s : Arbiter p) (h : Host) :
    (s.ack h).getLsbD 0 = s.astmStm.getLsbD (Stm.ack h).nstm := by
  cases h <;> exact (ackOf_bits s _).1

theorem ack_timeout (s : Arbiter p) (h : Host) : (s.ack h).getLsbD 1 = s.timeoutD := by
  cases h <;> exact (ackOf_bits s _).2

theorem ack_ne_zero_iff (s : Arbiter p) (h : Host) :
    s.ack h ≠ 0 ↔ (s.ack h).getLsbD 0 = true ∨ (s.ack h).getLsbD 1 = true := by
  generalize s.ack h = lines
  revert lines
  decide

end Arbiter

namespace Refines

variable {s : Arbiter p} {a : Service p} {i : Inputs p} {h : Host}

theorem stm_eq_iff (refines : Refines s a) (state : Stm) :
    s.astmStm = state.code ↔ a.stm = state := by
  rw [refines.stm]
  exact ⟨Stm.code_injective, congrArg Stm.code⟩

theorem arbitrating (refines : Refines s a) : s.arbitrating = a.ready := by
  rw [Bool.eq_iff_iff]
  simp only [Arbiter.arbitrating, Bool.or_eq_true, beq_iff_eq, refines.stm_eq_iff,
    List.any_eq_true, Host.mem_all, true_and]
  cases a <;> simp [Service.stm, Service.ready]

theorem accessing (refines : Refines s a) : s.accessing h = (a.client == some h) := by
  rw [Bool.eq_iff_iff]
  simp only [Arbiter.accessing, Bool.or_eq_true, beq_iff_eq, refines.stm_eq_iff]
  cases a with
  | access g held elapsed => cases op : held.op <;> simp [op, Service.client]
  | _ => simp [Service.client]

theorem acking (refines : Refines s a) : s.acking h = (a.acked == some h) := by
  rw [Bool.eq_iff_iff]
  simp only [Arbiter.acking, beq_iff_eq, refines.stm_eq_iff]
  cases a <;> simp [Service.acked]

theorem accessing_iff (refines : Refines s a) :
    s.accessing h = true ↔ ∃ held elapsed, a = .access h held elapsed := by
  rw [refines.accessing]
  cases a <;> simp [Service.client]

theorem acking_iff (refines : Refines s a) : s.acking h = true ↔ a = .ack h := by
  rw [refines.acking]
  cases a <;> simp [Service.acked]

theorem completion_iff (refines : Refines s a) :
    (s.ack h).getLsbD 0 = true ↔ s.acking h = true := by
  rw [Arbiter.ack_completion, refines.stm, Stm.getLsbD_code, Arbiter.acking, beq_iff_eq,
    refines.stm]
  exact ⟨fun same => congrArg Stm.code (Stm.nstm_injective same.symm),
    fun same => congrArg Stm.nstm (Stm.code_injective same.symm)⟩

theorem wrBus (refines : Refines s a) : s.wrBus = a.stm.does .write := by
  rw [Arbiter.wrBus, refines.stm, Stm.write_bits]

theorem rdBus (refines : Refines s a) : s.rdBus = a.stm.does .read := by
  rw [Arbiter.rdBus, refines.stm, Stm.read_bits]

theorem busy (refines : Refines s a) : s.busy = !a.ready := by
  rw [Arbiter.busy, refines.rdBus, refines.wrBus]
  cases a with
  | access h held elapsed => cases op : held.op <;> simp [Service.stm, Service.ready, Stm.does, op]
  | _ => rfl

theorem shows {held : Request p} (refines : Refines s (.access h held elapsed)) :
    s.request = held := by
  have lines := refines.lines h held elapsed rfl
  rw [Arbiter.request, lines, refines.rdBus]
  cases held with
  | mk lines op => cases op <;> rfl

private theorem find_accessing (refines : Refines s a) : Host.all.find? s.accessing = a.client := by
  have same : s.accessing = fun h => a.client == some h := funext fun _ => refines.accessing
  rw [same]
  cases a with
  | access h held elapsed => cases h <;> rfl
  | _ => rfl

theorem granted (refines : Refines s a) (i : Inputs p) :
    Arbiter.granted s (s.posedge i true) = a.grant i := by
  rw [Arbiter.granted, refines.arbitrating, (refines.step i).find_accessing, Service.grant]
  cases ready : a.ready with
  | false => rfl
  | true => rw [Service.step_ready ready, Service.arbitrate_client]

end Refines

theorem grantFrom_eq {start : Arbiter p} {view : Service p} (refines : Refines start view)
    (inputs : Nat → Inputs p) (edge : Nat) :
    Arbiter.grantFrom start inputs edge = Service.grantFrom view inputs edge :=
  (refines_runFrom refines inputs edge).granted (inputs edge)

theorem grantAt_eq (inputs : Nat → Inputs p) (edge : Nat) :
    Arbiter.grantAt inputs edge = Service.grantAt inputs edge :=
  grantFrom_eq .reset inputs edge

end RoundRobinArbiter
