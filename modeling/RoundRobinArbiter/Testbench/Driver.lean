import RoundRobinArbiter.Arbiter.Rtl
import Mathlib.Tactic.ByContra

/-! The driver of one host, after `arbiter_driver.sv`. Between two clock edges the
driver is suspended at one of a few places of its code; `step` runs it from one
such place to the next with the values sampled before the edge. -/

namespace RoundRobinArbiter

/-- The fields of `arbiter_transaction`. -/
structure Transaction (p : Params) where
  hostId : BitVec 32
  addr : BitVec p.aw
  rd : Bool
  wr : Bool
  be : BitVec p.bw
  data : BitVec p.dw
  cpu : Bool
  rdData : BitVec p.dw
  ack : BitVec 2
  addBus : BitVec p.aw
  byteEn : BitVec p.bw
  wrBus : Bool
  rdBus : Bool
  dataBusWr : BitVec p.dw
  dataBusRd : BitVec p.dw
  ackBus : Bool
  cpuBus : Bool

namespace Transaction

/-- The constructor `new`; every field it does not set starts at zero. -/
def new (cpu : Bool) (hostId : BitVec 32) : Transaction p :=
  { hostId, cpu, addr := 0, rd := false, wr := false, be := 0, data := 0, rdData := 0, ack := 0
    addBus := 0, byteEn := 0, wrBus := false, rdBus := false, dataBusWr := 0, dataBusRd := 0
    ackBus := false, cpuBus := false }

/-- The constraints `c_ops` and `c_be`. -/
structure Legal (trans : Transaction p) : Prop where
  ops : trans.rd ≠ trans.wr
  be : trans.be ≠ 0

/-- The values `drive_transaction` puts on the interface. -/
def port (trans : Transaction p) : HostPort p where
  addr := trans.addr
  rd := trans.rd
  wr := trans.wr
  be := trans.be
  dwr := trans.data
  cpu := trans.cpu

/-- What the loop of `wait_for_ack` writes into its transaction at an edge. -/
def respond (trans : Transaction p) (ack : BitVec 2) (drd : BitVec p.dw) : Transaction p :=
  if ack ≠ 0 then { trans with ack, rdData := if trans.rd then drd else trans.rdData } else trans

@[simp] theorem respond_zero (trans : Transaction p) (drd : BitVec p.dw) :
    trans.respond 0 drd = trans := by
  simp [respond]

end Transaction

/-- A value that `delay_c` allows. -/
structure Delay where
  edges : Nat
  positive : 1 ≤ edges
  bounded : edges ≤ 10

/-- Where a driver is suspended: before its first edge after reset, in
`add_random_delay`, in `get` on an empty mailbox, before the edge that drives a
transaction, and in `wait_for_ack`. -/
inductive Point (p : Params) where
  | reset
  | delay (left : Nat)
  | get
  | drive (trans : Transaction p)
  | ack (trans : Transaction p) (timeoutCount : Nat)

structure Driver (p : Params) where
  port : HostPort p
  mailbox : List (Transaction p)
  point : Point p
  /-- The calls of `$error` so far. -/
  errors : Nat

namespace Driver

def timeoutLimit : Nat := 65535

def start (mailbox : List (Transaction p)) : Driver p := ⟨.silent, mailbox, .reset, 0⟩

/-- `add_random_delay` up to its first edge. -/
def addRandomDelay (d : Driver p) (delay : Delay) : Driver p :=
  { d with point := .delay delay.edges }

/-- The `get` behind the delay. -/
def get (d : Driver p) : Driver p :=
  match d.mailbox with
  | [] => { d with point := .get }
  | first :: rest => { d with mailbox := rest, point := .drive first }

/-- The interface after a transaction; `cpu` is not cleared. -/
def clear (d : Driver p) : Driver p := { d with port := { HostPort.silent with cpu := d.port.cpu } }

/-- `got_response` at the end of one turn of the loop. -/
def gotResponse (ack : BitVec 2) (timeoutCount : Nat) : Bool :=
  ack != 0 || timeoutLimit ≤ timeoutCount

def countError (d : Driver p) (timeoutCount : Nat) : Driver p :=
  if timeoutLimit ≤ timeoutCount then { d with errors := d.errors + 1 } else d

def step (d : Driver p) (ack : BitVec 2) (drd : BitVec p.dw) (delay : Delay) : Driver p :=
  match d.point with
  | .reset => d.addRandomDelay delay
  | .delay left => if left ≤ 1 then d.get else { d with point := .delay (left - 1) }
  | .get => d
  | .drive t => { d with port := t.port, point := .ack t 0 }
  | .ack t timeoutCount =>
    let d := d.countError (timeoutCount + 1)
    if gotResponse ack (timeoutCount + 1) then d.clear.addRandomDelay delay
    else { d with point := .ack (t.respond ack drd) (timeoutCount + 1) }

/-- The transaction with which `drive_transaction` returns at an edge. -/
def returns (d : Driver p) (ack : BitVec 2) (drd : BitVec p.dw) : Option (Transaction p) :=
  match d.point with
  | .ack t timeoutCount =>
    if gotResponse ack (timeoutCount + 1) then some (t.respond ack drd) else none
  | _ => none

/-- The transactions not returned yet, the one being driven first. -/
def queue (d : Driver p) : List (Transaction p) :=
  match d.point with
  | .drive t => t :: d.mailbox
  | .ack t _ => t :: d.mailbox
  | _ => d.mailbox

/-- What one edge can do, with the transaction it returns. -/
inductive Edge {p : Params} (ack : BitVec 2) (drd : BitVec p.dw) :
    Driver p → Driver p → Option (Transaction p) → Prop where
  | rest {d next : Driver p} (before : ∀ trans count, d.point ≠ .ack trans count)
      (after : ∀ trans count, next.point ≠ .ack trans count) (port : next.port = d.port)
      (queue : next.queue = d.queue) (errors : next.errors = d.errors) : Edge ack drd d next none
  | drive {d : Driver p} {trans : Transaction p} (point : d.point = .drive trans) :
      Edge ack drd d { d with port := trans.port, point := .ack trans 0 } none
  | wait {d : Driver p} {trans : Transaction p} {count : Nat} (point : d.point = .ack trans count)
      (silent : ack = 0) (patient : count + 1 < timeoutLimit) :
      Edge ack drd d { d with point := .ack trans (count + 1) } none
  | finish {d : Driver p} {trans : Transaction p} {count : Nat} (delay : Delay)
      (point : d.point = .ack trans count) (stops : ack ≠ 0 ∨ timeoutLimit ≤ count + 1) :
      Edge ack drd d ((d.countError (count + 1)).clear.addRandomDelay delay)
        (some (trans.respond ack drd))

theorem edge (d : Driver p) (ack : BitVec 2) (drd : BitVec p.dw) (delay : Delay) :
    Edge ack drd d (d.step ack drd delay) (d.returns ack drd) := by
  unfold step returns
  cases point : d.point with
  | reset =>
    exact .rest (by simp [point]) (fun _ _ waits => by cases waits) rfl
      (by simp [queue, addRandomDelay, point]) rfl
  | delay left =>
    dsimp only
    split
    · unfold get
      split
      · rename_i empty
        exact .rest (by simp [point]) (fun _ _ waits => by cases waits) rfl
          (by simp [queue, point]) rfl
      · rename_i trans rest some
        exact .rest (by simp [point]) (fun _ _ waits => by cases waits) rfl
          (by simp [queue, point, some]) rfl
    · exact .rest (by simp [point]) (fun _ _ waits => by cases waits) rfl
        (by simp [queue, point]) rfl
  | get => exact .rest (by simp [point]) (by simp [point]) rfl rfl rfl
  | drive trans => exact .drive point
  | ack trans count =>
    dsimp only
    split
    · rename_i got
      refine .finish delay point ?_
      simpa [gotResponse] using got
    · rename_i waits
      simp only [gotResponse, Bool.or_eq_true, bne_iff_ne, decide_eq_true_eq, not_or,
        Decidable.not_not, Nat.not_le] at waits
      obtain ⟨silent, patient⟩ := waits
      rw [silent, Transaction.respond_zero, countError, if_neg (Nat.not_le.mpr patient)]
      exact .wait point rfl patient

variable {p : Params} {d next : Driver p} {ack : BitVec 2} {drd : BitVec p.dw}
variable {returned : Option (Transaction p)} {trans : Transaction p} {count : Nat}

theorem Edge.before_ack (edge : Edge ack drd d next returned)
    (point : next.point = .ack trans count) :
    (d.point = .drive trans ∧ count = 0) ∨
      ∃ earlier, count = earlier + 1 ∧ d.point = .ack trans earlier := by
  cases edge with
  | rest before after port queue errors => exact absurd point (after trans count)
  | drive drives =>
    cases point
    exact .inl ⟨drives, rfl⟩
  | wait waits silent patient =>
    cases point
    exact .inr ⟨_, rfl, waits⟩
  | finish delay waits stops => cases point

theorem Edge.after_ack (edge : Edge ack drd d next returned)
    (point : d.point = .ack trans count) :
    (ack = 0 ∧ count + 1 < timeoutLimit ∧ returned = none ∧
        next.port = d.port ∧ next.point = .ack trans (count + 1)) ∨
      ((ack ≠ 0 ∨ timeoutLimit ≤ count + 1) ∧ returned = some (trans.respond ack drd) ∧
        next.port.wants = false ∧ ∀ other later, next.point ≠ .ack other later) := by
  cases edge with
  | rest before after port queue errors => exact absurd point (before trans count)
  | drive drives => cases drives.symm.trans point
  | wait waits silent patient =>
    cases waits.symm.trans point
    exact .inl ⟨silent, patient, rfl, rfl, rfl⟩
  | finish delay waits stops =>
    cases waits.symm.trans point
    exact .inr ⟨stops, rfl, rfl, fun _ _ again => by cases again⟩

theorem Edge.goes_on (edge : Edge ack drd d next returned) (point : d.point = .ack trans count)
    (silent : ack = 0) (patient : count + 1 < timeoutLimit) :
    returned = none ∧ next.point = .ack trans (count + 1) := by
  rcases edge.after_ack point with ⟨_, _, none, _, counted⟩ | ⟨acked | expired, _⟩
  · exact ⟨none, counted⟩
  · exact absurd silent acked
  · omega

theorem Edge.ends (edge : Edge ack drd d next returned) (point : d.point = .ack trans count)
    (stops : ack ≠ 0 ∨ timeoutLimit ≤ count + 1) : returned = some (trans.respond ack drd) := by
  rcases edge.after_ack point with ⟨silent, patient, _⟩ | ⟨_, returns, _⟩
  · rcases stops with acked | expired
    · exact absurd silent acked
    · omega
  · exact returns

theorem Edge.return_waits (edge : Edge ack drd d next (some trans)) :
    ∃ given count, d.point = .ack given count := by
  cases edge with
  | finish delay point stops => exact ⟨_, _, point⟩

theorem Edge.errors (edge : Edge ack drd d next returned) (point : d.point = .ack trans count) :
    next.errors = d.errors + if timeoutLimit ≤ count + 1 then 1 else 0 := by
  cases edge with
  | rest before after port queue errors => exact absurd point (before trans count)
  | drive drives => cases drives.symm.trans point
  | wait waits silent patient =>
    cases waits.symm.trans point
    rw [if_neg (Nat.not_le.mpr patient)]
    rfl
  | finish delay waits stops =>
    cases waits.symm.trans point
    unfold countError
    split <;> rfl

/-- The port shows the transaction being waited for, and no request otherwise. -/
structure Consistent (d : Driver p) : Prop where
  driven : ∀ trans count, d.point = .ack trans count → d.port = trans.port
  quiet : (∀ trans count, d.point ≠ .ack trans count) → d.port.rd = false ∧ d.port.wr = false

theorem Consistent.start (mailbox : List (Transaction p)) : (start mailbox).Consistent where
  driven _ _ waits := by cases waits
  quiet _ := ⟨rfl, rfl⟩

theorem Edge.consistent (edge : Edge ack drd d next returned) (consistent : d.Consistent) :
    next.Consistent := by
  cases edge with
  | rest before after port queue errors =>
    refine ⟨fun trans count waits => absurd waits (after trans count), fun _ => ?_⟩
    rw [port]
    exact consistent.quiet before
  | @drive trans point =>
    refine ⟨?_, fun away => absurd rfl (away trans 0)⟩
    intro other count waits
    cases waits
    rfl
  | @wait trans count point silent patient =>
    refine ⟨?_, fun away => absurd rfl (away trans (count + 1))⟩
    intro other later waits
    cases waits
    exact consistent.driven trans count point
  | finish delay point stops =>
    refine ⟨?_, fun _ => ⟨rfl, rfl⟩⟩
    intro trans count waits
    cases waits

theorem Consistent.waits (consistent : d.Consistent) (wants : d.port.wants = true) :
    ∃ trans count, d.point = .ack trans count := by
  by_contra away
  have quiet := consistent.quiet fun trans count waits => away ⟨trans, count, waits⟩
  rw [HostPort.wants, quiet.1, quiet.2] at wants
  cases wants

/-- A return takes its transaction off the queue; nothing else changes the queue. -/
theorem Edge.queue (edge : Edge ack drd d next returned) :
    (returned = none ∧ next.queue = d.queue) ∨
      ∃ trans, returned = some (trans.respond ack drd) ∧ d.queue = trans :: next.queue := by
  cases edge with
  | rest before after port queue errors => exact .inl ⟨rfl, queue⟩
  | drive point => exact .inl ⟨rfl, by simp [Driver.queue, point]⟩
  | wait point silent patient => exact .inl ⟨rfl, by simp [Driver.queue, point]⟩
  | @finish trans count delay point stops =>
    refine .inr ⟨trans, rfl, ?_⟩
    have kept : ((d.countError (count + 1)).clear.addRandomDelay delay).queue = d.mailbox := by
      unfold countError
      split <;> rfl
    rw [kept, Driver.queue, point]

end Driver

end RoundRobinArbiter
