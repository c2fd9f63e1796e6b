import RoundRobinArbiter.Synchronous.Machine

/-! Register-transfer model of `arbiter.v`: the registers, the wires as functions
of registers and inputs, and one clock edge. Signal names follow the module. -/

namespace RoundRobinArbiter

open Synchronous

/-- The module parameters `AW`, `DW`, `BW` and `TW`. -/
structure Params where
  aw : Nat
  dw : Nat
  bw : Nat
  tw : Nat

def Params.default : Params := ⟨32, 32, 4, 16⟩

inductive Host where
  | master
  | slave
  | test
  | extra
  deriving DecidableEq, Repr

/-- The hosts in port order, which is also the order of the host indices. -/
def Host.all : List Host := [.master, .slave, .test, .extra]

/-- What one host drives: `maddr`, `mrd`, `mwr`, `mbe`, `mdwr` and `mcpu`. -/
structure HostPort (p : Params) where
  addr : BitVec p.aw
  rd : Bool
  wr : Bool
  be : BitVec p.bw
  dwr : BitVec p.dw
  cpu : Bool
  deriving DecidableEq

/-- A host asks for the bus by asserting `rd` or `wr`. -/
def HostPort.wants (port : HostPort p) : Bool := port.rd || port.wr

/-- A port that drives zero everywhere. -/
def HostPort.silent : HostPort p := ⟨0, false, false, 0, 0, false⟩

/-- A read of one address with all bytes enabled. -/
def HostPort.reading (addr : BitVec p.aw) : HostPort p :=
  { HostPort.silent with addr, rd := true, be := BitVec.allOnes p.bw }

/-- The inputs sampled at one clock edge. -/
structure Inputs (p : Params) where
  host : Host → HostPort p
  dataBusRd : BitVec p.dw
  ackBus : Bool

namespace Inputs

variable (i : Inputs p)

def m : HostPort p := i.host .master
def s : HostPort p := i.host .slave
def t : HostPort p := i.host .test
def e : HostPort p := i.host .extra

def wants (h : Host) : Bool := (i.host h).wants

/-- Inputs in which the listed hosts read address 0. -/
def reads (hosts : List Host) (ackBus : Bool) : Inputs p where
  host h := if h ∈ hosts then .reading 0 else .silent
  dataBusRd := 0
  ackBus := ackBus

end Inputs

def nstmIdle : Nat := 0
def nstmMswr : Nat := 1
def nstmMsrd : Nat := 2
def nstmMack : Nat := 3
def nstmSlwr : Nat := 4
def nstmSlrd : Nat := 5
def nstmSack : Nat := 6
def nstmTewr : Nat := 7
def nstmTerd : Nat := 8
def nstmTack : Nat := 9
def nstmExwr : Nat := 10
def nstmExrd : Nat := 11
def nstmEack : Nat := 12

def astmIdle : BitVec 13 := 1#13 <<< nstmIdle
def astmMswr : BitVec 13 := 1#13 <<< nstmMswr
def astmMsrd : BitVec 13 := 1#13 <<< nstmMsrd
def astmMack : BitVec 13 := 1#13 <<< nstmMack
def astmSlwr : BitVec 13 := 1#13 <<< nstmSlwr
def astmSlrd : BitVec 13 := 1#13 <<< nstmSlrd
def astmSack : BitVec 13 := 1#13 <<< nstmSack
def astmTewr : BitVec 13 := 1#13 <<< nstmTewr
def astmTerd : BitVec 13 := 1#13 <<< nstmTerd
def astmTack : BitVec 13 := 1#13 <<< nstmTack
def astmExwr : BitVec 13 := 1#13 <<< nstmExwr
def astmExrd : BitVec 13 := 1#13 <<< nstmExrd
def astmEack : BitVec 13 := 1#13 <<< nstmEack

def currMstr : BitVec 3 := 0b000#3
def currSlav : BitVec 3 := 0b001#3
def currTest : BitVec 3 := 0b010#3
def currExtr : BitVec 3 := 0b011#3
def nextDumy : BitVec 3 := 0b111#3

/-- The registers. -/
structure Arbiter (p : Params) where
  astmStm : BitVec 13
  timeoutCnt : BitVec p.tw
  dataBusRdD : BitVec p.dw
  addBus : BitVec p.aw
  byteEn : BitVec p.bw
  cpuBus : Bool
  dataBusWr : BitVec p.dw
  currentM : BitVec 3
  timeoutD : Bool
  deriving DecidableEq

namespace Arbiter

variable (s : Arbiter p)

def ackOf (nstm : Nat) : BitVec 2 :=
  BitVec.ofBool s.timeoutD ++ BitVec.ofBool (s.astmStm.getLsbD nstm)

def mack : BitVec 2 := s.ackOf nstmMack
def sack : BitVec 2 := s.ackOf nstmSack
def tack : BitVec 2 := s.ackOf nstmTack
def eack : BitVec 2 := s.ackOf nstmEack

def ack : Host → BitVec 2
  | .master => s.mack
  | .slave => s.sack
  | .test => s.tack
  | .extra => s.eack

/-- `mdrd`, `sdrd`, `tdrd` and `edrd` are the one read register. -/
def drd (_ : Host) : BitVec p.dw := s.dataBusRdD

def wrBus : Bool :=
  s.astmStm.getLsbD nstmMswr || s.astmStm.getLsbD nstmSlwr ||
    s.astmStm.getLsbD nstmTewr || s.astmStm.getLsbD nstmExwr

def rdBus : Bool :=
  s.astmStm.getLsbD nstmMsrd || s.astmStm.getLsbD nstmSlrd ||
    s.astmStm.getLsbD nstmTerd || s.astmStm.getLsbD nstmExrd

def timeoutLimit (p : Params) : BitVec p.tw := BitVec.allOnes p.tw - 1

def timeout : Bool := s.timeoutCnt == timeoutLimit p

variable (i : Inputs p)

def nextM : BitVec 3 :=
  if s.currentM = currMstr then
    if i.s.rd || i.s.wr then currSlav else if i.t.rd || i.t.wr then currTest
    else if i.e.rd || i.e.wr then currExtr else nextDumy
  else if s.currentM = currSlav then
    if i.t.rd || i.t.wr then currTest else if i.e.rd || i.e.wr then currExtr
    else if i.m.rd || i.m.wr then currMstr else nextDumy
  else if s.currentM = currTest then
    if i.e.rd || i.e.wr then currExtr else if i.m.rd || i.m.wr then currMstr
    else if i.s.rd || i.s.wr then currSlav else nextDumy
  else if s.currentM = currExtr then
    if i.m.rd || i.m.wr then currMstr else if i.s.rd || i.s.wr then currSlav
    else if i.t.rd || i.t.wr then currTest else nextDumy
  else
    if i.m.rd || i.m.wr then currMstr else if i.s.rd || i.s.wr then currSlav
    else if i.t.rd || i.t.wr then currTest else if i.e.rd || i.e.wr then currExtr else nextDumy

def nextAstmStm : BitVec 13 :=
  if s.nextM i = currMstr then
    if i.m.rd then astmMsrd else if i.m.wr then astmMswr else astmIdle
  else if s.nextM i = currSlav then
    if i.s.rd then astmSlrd else if i.s.wr then astmSlwr else astmIdle
  else if s.nextM i = currTest then
    if i.t.rd then astmTerd else if i.t.wr then astmTewr else astmIdle
  else if s.nextM i = currExtr then
    if i.e.rd then astmExrd else if i.e.wr then astmExwr else astmIdle
  else astmIdle

/-- The guard of the load branch: an idle or acknowledge bit and any request. -/
def loads : Bool :=
  (s.astmStm.getLsbD nstmIdle || s.astmStm.getLsbD nstmMack || s.astmStm.getLsbD nstmSack ||
      s.astmStm.getLsbD nstmTack || s.astmStm.getLsbD nstmEack) &&
    (i.m.rd || i.m.wr || i.s.rd || i.s.wr || i.t.rd || i.t.wr || i.e.rd || i.e.wr)

/-- The guard of the clear branch. -/
def clears : Bool :=
  (i.ackBus || s.timeout) &&
    (s.astmStm.getLsbD nstmMswr || s.astmStm.getLsbD nstmSlwr || s.astmStm.getLsbD nstmTewr ||
      s.astmStm.getLsbD nstmExwr || s.astmStm.getLsbD nstmMsrd || s.astmStm.getLsbD nstmSlrd ||
      s.astmStm.getLsbD nstmTerd || s.astmStm.getLsbD nstmExrd)

/-- One bus register's multiplexer. Everything but the first three codes,
`NEXT_DUMY` included, selects the Extra host. -/
def selected (field : HostPort p → Value) : Value :=
  if s.nextM i = currMstr then field i.m else if s.nextM i = currSlav then field i.s
  else if s.nextM i = currTest then field i.t else field i.e

def busBlock (resetN : Bool) : Arbiter p :=
  if !resetN then
    { s with addBus := 0, byteEn := 0, cpuBus := false, dataBusWr := 0, currentM := currMstr }
  else if s.loads i then
    { s with
      addBus := s.selected i HostPort.addr
      byteEn := s.selected i HostPort.be
      cpuBus := s.selected i HostPort.cpu
      dataBusWr := s.selected i HostPort.dwr
      currentM := s.nextM i }
  else if s.clears i then
    { s with addBus := 0, byteEn := 0, cpuBus := false, dataBusWr := 0 }
  else s

def dataBusRdDBlock (resetN : Bool) : BitVec p.dw :=
  if !resetN then 0 else if i.ackBus then i.dataBusRd else s.dataBusRdD

def astmStmBlock (resetN : Bool) : BitVec 13 :=
  if !resetN then astmIdle
  else if s.astmStm = astmIdle then s.nextAstmStm i
  else if s.astmStm = astmMswr then if i.ackBus || s.timeout then astmMack else astmMswr
  else if s.astmStm = astmMsrd then if i.ackBus || s.timeout then astmMack else astmMsrd
  else if s.astmStm = astmMack then s.nextAstmStm i
  else if s.astmStm = astmSlwr then if i.ackBus || s.timeout then astmSack else astmSlwr
  else if s.astmStm = astmSlrd then if i.ackBus || s.timeout then astmSack else astmSlrd
  else if s.astmStm = astmSack then s.nextAstmStm i
  else if s.astmStm = astmTewr then if i.ackBus || s.timeout then astmTack else astmTewr
  else if s.astmStm = astmTerd then if i.ackBus || s.timeout then astmTack else astmTerd
  else if s.astmStm = astmTack then s.nextAstmStm i
  else if s.astmStm = astmExwr then if i.ackBus || s.timeout then astmEack else astmExwr
  else if s.astmStm = astmExrd then if i.ackBus || s.timeout then astmEack else astmExrd
  else if s.astmStm = astmEack then s.nextAstmStm i
  else astmIdle

def timeoutCntBlock (resetN : Bool) : BitVec p.tw :=
  if !resetN then 0
  else if s.astmStm.getLsbD nstmMswr || s.astmStm.getLsbD nstmMsrd || s.astmStm.getLsbD nstmSlwr ||
      s.astmStm.getLsbD nstmSlrd || s.astmStm.getLsbD nstmExwr || s.astmStm.getLsbD nstmExrd ||
      s.astmStm.getLsbD nstmTewr || s.astmStm.getLsbD nstmTerd then
    if s.timeoutCnt = BitVec.allOnes p.tw then s.timeoutCnt else s.timeoutCnt + 1
  else 0

def timeoutDBlock (resetN : Bool) : Bool := if !resetN then false else s.timeout

/-- All blocks at one edge. Every right-hand side reads the registers before the edge. -/
def posedge (resetN : Bool) : Arbiter p :=
  { s.busBlock i resetN with
    dataBusRdD := s.dataBusRdDBlock i resetN
    astmStm := s.astmStmBlock i resetN
    timeoutCnt := s.timeoutCntBlock resetN
    timeoutD := s.timeoutDBlock resetN }

/-- The registers under reset. -/
def reset : Arbiter p :=
  { astmStm := astmIdle, timeoutCnt := 0, dataBusRdD := 0, addBus := 0, byteEn := 0
    cpuBus := false, dataBusWr := 0, currentM := currMstr, timeoutD := false }

theorem posedge_reset : s.posedge i false = reset := rfl

def machine (p : Params) : Machine (Inputs p) (Arbiter p) where
  init := reset
  step i s := s.posedge i true

/-- The arbiter whose reset may be pulled at any edge. -/
def resettable (p : Params) : Machine (Bool × Inputs p) (Arbiter p) where
  init := reset
  step edge s := s.posedge edge.2 edge.1

/-- Pulling the reset reaches no further state. -/
theorem reachable_of_resettable {s : Arbiter p} (reached : (resettable p).Reachable s) :
    (machine p).Reachable s := by
  induction reached with
  | init => exact .init
  | step edge earlier ih =>
    obtain ⟨resetN, i⟩ := edge
    cases resetN with
    | false =>
      change (machine p).Reachable (posedge _ i false)
      rw [posedge_reset]
      exact .init
    | true => exact .step i ih

def runFrom (start : Arbiter p) (inputs : Nat → Inputs p) : Nat → Arbiter p :=
  (machine p).runFrom start inputs

def run (inputs : Nat → Inputs p) : Nat → Arbiter p := runFrom reset inputs

end Arbiter

end RoundRobinArbiter
