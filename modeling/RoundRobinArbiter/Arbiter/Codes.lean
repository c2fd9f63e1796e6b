import RoundRobinArbiter.Arbiter.Service

namespace RoundRobinArbiter

open Synchronous

/-- The states of the state machine. -/
inductive Stm where
  | idle
  | access (h : Host) (op : Op)
  | ack (h : Host)
  deriving DecidableEq, Repr

namespace Stm

def nstm : Stm → Nat
  | idle => nstmIdle
  | access .master .write => nstmMswr
  | access .master .read => nstmMsrd
  | ack .master => nstmMack
  | access .slave .write => nstmSlwr
  | access .slave .read => nstmSlrd
  | ack .slave => nstmSack
  | access .test .write => nstmTewr
  | access .test .read => nstmTerd
  | ack .test => nstmTack
  | access .extra .write => nstmExwr
  | access .extra .read => nstmExrd
  | ack .extra => nstmEack

def code (state : Stm) : BitVec 13 := 1#13 <<< state.nstm

def ready : Stm → Bool
  | access .. => false
  | _ => true

theorem nstm_lt (state : Stm) : state.nstm < 13 := by
  cases state with
  | idle => decide
  | access h op => cases h <;> cases op <;> decide
  | ack h => cases h <;> decide

theorem getLsbD_code (state : Stm) (k : Nat) : state.code.getLsbD k = true ↔ k = state.nstm := by
  have bound := state.nstm_lt
  rw [code, BitVec.getLsbD_shiftLeft, BitVec.getLsbD_one]
  simp only [Bool.and_eq_true, decide_eq_true_eq, Bool.not_eq_true', decide_eq_false_iff_not]
  omega

theorem nstm_injective {first second : Stm} (same : first.nstm = second.nstm) :
    first = second := by
  have decode : ∀ state : Stm, [idle, access .master .write, access .master .read, ack .master,
      access .slave .write, access .slave .read, ack .slave, access .test .write,
      access .test .read, ack .test, access .extra .write, access .extra .read,
      ack .extra][state.nstm]? = some state := by
    intro state
    cases state with
    | idle => rfl
    | access h op => cases h <;> cases op <;> rfl
    | ack h => cases h <;> rfl
  have found := decode first
  rw [same, decode second] at found
  exact (Option.some.inj found).symm

theorem code_injective {first second : Stm} (same : first.code = second.code) :
    first = second := by
  apply nstm_injective
  have bit := (getLsbD_code first first.nstm).mpr rfl
  rw [same] at bit
  exact (getLsbD_code second first.nstm).mp bit

/-- The state is an access in the given direction. -/
def does (op : Op) : Stm → Bool
  | access _ direction => direction == op
  | _ => false

private theorem ready_bits (state : Stm) :
    (state.code.getLsbD nstmIdle || state.code.getLsbD nstmMack || state.code.getLsbD nstmSack ||
      state.code.getLsbD nstmTack || state.code.getLsbD nstmEack) = state.ready := by
  cases state with
  | idle => rfl
  | access h op => cases h <;> cases op <;> rfl
  | ack h => cases h <;> rfl

private theorem busy_bits (state : Stm) :
    (state.code.getLsbD nstmMswr || state.code.getLsbD nstmSlwr || state.code.getLsbD nstmTewr ||
      state.code.getLsbD nstmExwr || state.code.getLsbD nstmMsrd || state.code.getLsbD nstmSlrd ||
      state.code.getLsbD nstmTerd || state.code.getLsbD nstmExrd) = !state.ready := by
  cases state with
  | idle => rfl
  | access h op => cases h <;> cases op <;> rfl
  | ack h => cases h <;> rfl

theorem counting_bits (state : Stm) :
    (state.code.getLsbD nstmMswr || state.code.getLsbD nstmMsrd || state.code.getLsbD nstmSlwr ||
      state.code.getLsbD nstmSlrd || state.code.getLsbD nstmExwr || state.code.getLsbD nstmExrd ||
      state.code.getLsbD nstmTewr || state.code.getLsbD nstmTerd) = !state.ready := by
  cases state with
  | idle => rfl
  | access h op => cases h <;> cases op <;> rfl
  | ack h => cases h <;> rfl

theorem write_bits (state : Stm) :
    (state.code.getLsbD nstmMswr || state.code.getLsbD nstmSlwr || state.code.getLsbD nstmTewr ||
      state.code.getLsbD nstmExwr) = state.does .write := by
  cases state with
  | idle => rfl
  | access h op => cases h <;> cases op <;> rfl
  | ack h => cases h <;> rfl

theorem read_bits (state : Stm) :
    (state.code.getLsbD nstmMsrd || state.code.getLsbD nstmSlrd || state.code.getLsbD nstmTerd ||
      state.code.getLsbD nstmExrd) = state.does .read := by
  cases state with
  | idle => rfl
  | access h op => cases h <;> cases op <;> rfl
  | ack h => cases h <;> rfl

end Stm

def Host.curr : Host → BitVec 3
  | .master => currMstr
  | .slave => currSlav
  | .test => currTest
  | .extra => currExtr

def pointerCode : Option Host → BitVec 3
  | none => nextDumy
  | some h => h.curr

namespace Arbiter

variable {s : Arbiter p} {i : Inputs p} {state : Stm}

private theorem any_request (i : Inputs p) :
    (i.m.rd || i.m.wr || i.s.rd || i.s.wr || i.t.rd || i.t.wr || i.e.rd || i.e.wr) =
      Host.all.any i.wants := by
  simp [Host.all, Inputs.wants, HostPort.wants, Inputs.m, Inputs.s, Inputs.t, Inputs.e,
    Bool.or_assoc]

theorem loads_code (stm : s.astmStm = state.code) :
    s.loads i = (state.ready && Host.all.any i.wants) := by
  rw [loads, stm, Stm.ready_bits, any_request]

theorem clears_code (stm : s.astmStm = state.code) :
    s.clears i = ((i.ackBus || s.timeout) && !state.ready) := by
  rw [clears, stm, Stm.busy_bits]

theorem timeoutCnt_ready (stm : s.astmStm = state.code) (ready : state.ready = true) :
    (s.posedge i true).timeoutCnt = 0 := by
  rw [posedge, timeoutCntBlock, stm, Stm.counting_bits, ready]
  rfl

/-- Below all ones the counter neither saturates nor wraps. -/
theorem timeoutCnt_counts (stm : s.astmStm = (Stm.access h op).code)
    (room : s.timeoutCnt.toNat + 1 < 2 ^ p.tw) :
    (s.posedge i true).timeoutCnt.toNat = s.timeoutCnt.toNat + 1 := by
  have one : (1 : BitVec p.tw).toNat = 1 % 2 ^ p.tw := BitVec.toNat_ofNat 1 p.tw
  have unsaturated : s.timeoutCnt ≠ BitVec.allOnes p.tw := by
    intro full
    have value := congrArg BitVec.toNat full
    rw [BitVec.toNat_allOnes] at value
    omega
  have counted : (s.posedge i true).timeoutCnt = s.timeoutCnt + 1 := by
    rw [posedge, timeoutCntBlock, stm, Stm.counting_bits]
    simp [Stm.ready, unsaturated]
  rw [counted, BitVec.toNat_add, one, Nat.mod_eq_of_lt (by omega : 1 < 2 ^ p.tw),
    Nat.mod_eq_of_lt room]

theorem timeoutCnt_access (stm : s.astmStm = (Stm.access h op).code)
    (below : s.timeoutCnt.toNat < p.limit) :
    (s.posedge i true).timeoutCnt.toNat = s.timeoutCnt.toNat + 1 := by
  have bound : p.limit = 2 ^ p.tw - 2 := rfl
  exact timeoutCnt_counts stm (by omega)

theorem astmStmBlock_ready (stm : s.astmStm = state.code) (ready : state.ready = true) :
    s.astmStmBlock i true = s.nextAstmStm i := by
  rw [astmStmBlock, stm]
  cases state with
  | idle => rfl
  | access h op => cases ready
  | ack h => cases h <;> rfl

theorem astmStmBlock_access (stm : s.astmStm = (Stm.access h op).code) :
    s.astmStmBlock i true =
      if i.ackBus || s.timeout then (Stm.ack h).code else (Stm.access h op).code := by
  rw [astmStmBlock, stm]
  cases h <;> cases op <;> rfl

theorem nextM_code (pointer : s.currentM = pointerCode last) :
    s.nextM i = pointerCode (pick last i.wants) := by
  have master : (i.m.rd || i.m.wr) = i.wants .master := rfl
  have slave : (i.s.rd || i.s.wr) = i.wants .slave := rfl
  have test : (i.t.rd || i.t.wr) = i.wants .test := rfl
  have extra : (i.e.rd || i.e.wr) = i.wants .extra := rfl
  rw [nextM, pointer, master, slave, test, extra]
  generalize i.wants = wants
  rcases last with _ | l
  · cases m : wants .master <;> cases s : wants .slave <;> cases t : wants .test <;>
      cases e : wants .extra <;> simp [pick, scan, m, s, t, e] <;> rfl
  · cases l <;> cases m : wants .master <;> cases s : wants .slave <;> cases t : wants .test <;>
      cases e : wants .extra <;> simp [pick, scan, m, s, t, e] <;> rfl

theorem curr_injective {first second : Host} (same : first.curr = second.curr) :
    first = second := by
  cases first <;> cases second <;> first | rfl | (revert same; decide)

theorem nextAstmStm_some (next : s.nextM i = pointerCode (some h)) (wants : i.wants h = true) :
    s.nextAstmStm i = (Stm.access h (i.host h).request.op).code := by
  have chosen : s.nextAstmStm i = if (i.host h).rd then (Stm.access h .read).code
      else if (i.host h).wr then (Stm.access h .write).code else Stm.idle.code := by
    rw [nextAstmStm, next]
    cases h <;> rfl
  rw [chosen, HostPort.request]
  cases read : (i.host h).rd with
  | true => rfl
  | false =>
    have write : (i.host h).wr = true := by simpa [Inputs.wants, HostPort.wants, read] using wants
    simp [write]

theorem nextAstmStm_none (next : s.nextM i = pointerCode none) :
    s.nextAstmStm i = Stm.idle.code := by
  rw [nextAstmStm, next]
  rfl

private theorem selected_some (next : s.nextM i = pointerCode (some h))
    (field : HostPort p → Value) : s.selected i field = field (i.host h) := by
  rw [selected, next]
  cases h <;> rfl

/-- Where the scan finds nobody the multiplexers still select the Extra host. -/
private theorem selected_none (next : s.nextM i = pointerCode none) (field : HostPort p → Value) :
    s.selected i field = field (i.host .extra) := by
  rw [selected, next]
  rfl

def lines (s : Arbiter p) : Lines p := ⟨s.addBus, s.byteEn, s.cpuBus, s.dataBusWr⟩

theorem lines_load_some (loads : s.loads i = true) (next : s.nextM i = pointerCode (some h)) :
    (s.posedge i true).lines = (i.host h).lines := by
  simp [posedge, busBlock, loads, lines, HostPort.lines, selected_some next]

theorem lines_load_none (loads : s.loads i = true) (next : s.nextM i = pointerCode none) :
    (s.posedge i true).lines = (i.host .extra).lines := by
  simp [posedge, busBlock, loads, lines, HostPort.lines, selected_none next]

theorem lines_clear (loads : s.loads i = false) (clears : s.clears i = true) :
    (s.posedge i true).lines = .zero := by
  simp [posedge, busBlock, loads, clears, lines, Lines.zero]

theorem lines_keep (loads : s.loads i = false) (clears : s.clears i = false) :
    (s.posedge i true).lines = s.lines := by
  simp [posedge, busBlock, loads, clears, lines]

theorem currentM_load (loads : s.loads i = true) : (s.posedge i true).currentM = s.nextM i := by
  simp [posedge, busBlock, loads]

theorem currentM_keep (loads : s.loads i = false) : (s.posedge i true).currentM = s.currentM := by
  cases clears : s.clears i <;> simp [posedge, busBlock, loads, clears]

private theorem timeoutLimit_toNat (p : Params) : (timeoutLimit p).toNat = p.limit := by
  have one : (1 : BitVec p.tw).toNat = 1 % 2 ^ p.tw := BitVec.toNat_ofNat 1 p.tw
  rw [timeoutLimit, BitVec.toNat_sub, BitVec.toNat_allOnes, one, Params.limit]
  rcases Nat.eq_zero_or_pos p.tw with none | some
  · simp [none]
  · have two : 2 ^ 1 ≤ 2 ^ p.tw := Nat.pow_le_pow_right (by decide) some
    rw [Nat.mod_eq_of_lt (by omega : 1 < 2 ^ p.tw)]
    have wraps : 2 ^ p.tw - 1 + (2 ^ p.tw - 1) = 2 ^ p.tw - 2 + 2 ^ p.tw := by omega
    rw [wraps, Nat.add_mod_right, Nat.mod_eq_of_lt (by omega)]

theorem timeout_eq (s : Arbiter p) : s.timeout = true ↔ s.timeoutCnt.toNat = p.limit := by
  rw [timeout, beq_iff_eq, ← BitVec.toNat_inj, timeoutLimit_toNat]

end Arbiter

end RoundRobinArbiter
