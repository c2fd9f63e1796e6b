import RoundRobinArbiter.Arbiter.Rtl
import RoundRobinArbiter.Rotation.Order
import Mathlib.Algebra.Group.Nat.Defs
import Mathlib.Tactic.ByContra

/-! What the arbiter is for, stated without registers: at most one host holds the
bus, it was chosen by a cyclic scan, it keeps the request it was chosen with, and
its access ends by an acknowledge or after a fixed number of cycles. -/

namespace RoundRobinArbiter

open Synchronous

/-- The index that the bench connects each host port to. -/
def Host.place : Host ≃ Fin 4 where
  toFun
    | .master => 0
    | .slave => 1
    | .test => 2
    | .extra => 3
  invFun
    | 0 => .master
    | 1 => .slave
    | 2 => .test
    | 3 => .extra
  left_inv h := by cases h <;> rfl
  right_inv k := match k with
    | 0 => rfl
    | 1 => rfl
    | 2 => rfl
    | 3 => rfl

@[simp] theorem Host.mem_all (h : Host) : h ∈ Host.all := by
  cases h <;> decide

inductive Op where
  | read
  | write
  deriving DecidableEq, Repr

/-- What the device bus carries besides its direction. -/
structure Lines (p : Params) where
  addr : BitVec p.aw
  be : BitVec p.bw
  cpu : Bool
  dwr : BitVec p.dw
  deriving DecidableEq

def Lines.zero : Lines p := ⟨0, 0, false, 0⟩

/-- What one access asks of the device. -/
structure Request (p : Params) extends Lines p where
  op : Op
  deriving DecidableEq

def HostPort.lines (port : HostPort p) : Lines p := ⟨port.addr, port.be, port.cpu, port.dwr⟩

/-- The request a port makes. A read wins over a simultaneous write. -/
def HostPort.request (port : HostPort p) : Request p where
  toLines := port.lines
  op := if port.rd then .read else .write

/-- The number of the last cycle an access can have, counted from 0. -/
def Params.limit (p : Params) : Nat := 2 ^ p.tw - 2

/-- The three kinds of situation the arbiter is in. The pointer is kept only
where the owner of the bus does not determine it; `none` is the dummy pointer. -/
inductive Service (p : Params) where
  | idle (pointer : Option Host)
  | access (h : Host) (request : Request p) (elapsed : Fin (p.limit + 1))
  | ack (h : Host)

/-- The scan order behind a pointer. The dummy pointer scans as if the Extra
host had been served last, and passes over nobody. -/
def scan : Option Host → List Host
  | some .master => [.slave, .test, .extra]
  | some .slave => [.test, .extra, .master]
  | some .test => [.extra, .master, .slave]
  | some .extra => [.master, .slave, .test]
  | none => [.master, .slave, .test, .extra]

def pick (pointer : Option Host) (wants : Host → Bool) : Option Host :=
  (scan pointer).find? wants

theorem mem_scan (pointer : Option Host) (h : Host) :
    h ∈ scan pointer ↔ pointer ≠ some h := by
  rcases pointer with _ | l
  · cases h <;> decide
  · cases l <;> cases h <;> decide

/-- The host a scan behaves as if it had been served last. -/
def served (pointer : Option Host) : Host := pointer.getD .extra

private theorem scan_sorted (pointer : Option Host) :
    (scan pointer).Pairwise (fun first second =>
      Rotation.ahead Host.place (served pointer) first <
        Rotation.ahead Host.place (served pointer) second) := by
  rcases pointer with _ | l
  · decide
  · cases l <;> decide

theorem pick_wants {wants : Host → Bool} (chosen : pick pointer wants = some h) :
    wants h = true :=
  List.find?_some chosen

theorem pick_ne_pointer (chosen : pick pointer wants = some h) : pointer ≠ some h :=
  (mem_scan pointer h).mp (List.mem_of_find?_eq_some chosen)

theorem pick_eq_none_iff :
    pick pointer wants = none ↔ ∀ h, wants h = true → pointer = some h := by
  simp only [pick, List.find?_eq_none, mem_scan]
  constructor
  · intro missed h asks
    by_contra other
    exact missed h other asks
  · intro only h other asks
    exact other (only h asks)

/-- The scan passes over the host that was served last, even if nobody else asks. -/
theorem pick_alone (last : pointer = some h) (alone : ∀ g, wants g = true ↔ g = h) :
    pick pointer wants = none := by
  rw [pick_eq_none_iff]
  intro g asks
  rw [last, (alone g).mp asks]

theorem pick_silent (silent : ∀ g, wants g = false) : pick pointer wants = none := by
  rw [pick_eq_none_iff]
  intro g asks
  simp [silent g] at asks

/-- The scan finds the first requester in cyclic order: the host the pointer
passes over would come last anyway. -/
theorem pick_first (chosen : pick pointer wants = some h) :
    Rotation.First Host.place (fun g => wants g = true) (served pointer) h := by
  refine ⟨pick_wants chosen, ?_⟩
  intro g asks
  by_cases scanned : g ∈ scan pointer
  · exact Rotation.find?_least (scan_sorted pointer) chosen g scanned asks
  · have passed : pointer = some g := by
      by_contra other
      exact scanned ((mem_scan pointer g).mpr other)
    subst pointer
    have bound := Rotation.ahead_lt Host.place g h
    have last := Rotation.ahead_self Host.place g
    simp only [served, Option.getD_some]
    omega

namespace Service

/-- The arbiter looks at requests only where no access is running. -/
def ready : Service p → Bool
  | idle _ => true
  | access .. => false
  | ack _ => true

def pointer : Service p → Option Host
  | idle pointer => pointer
  | access h .. => some h
  | ack h => some h

/-- One edge of an arbiter that serves nobody. A requester that the scan passes
over, alone, costs the arbiter its pointer. -/
def arbitrate (i : Inputs p) (pointer : Option Host) : Service p :=
  match pick pointer i.wants with
  | some h => .access h (i.host h).request 0
  | none => if Host.all.any i.wants then .idle none else .idle pointer

def step (i : Inputs p) : Service p → Service p
  | idle pointer => arbitrate i pointer
  | access h request elapsed =>
    if more : i.ackBus = false ∧ elapsed.val < p.limit then
      .access h request ⟨elapsed.val + 1, Nat.succ_lt_succ more.2⟩
    else .ack h
  | ack h => arbitrate i (some h)

/-- The host granted at an edge. -/
def grant (i : Inputs p) (a : Service p) : Option Host :=
  if a.ready then pick a.pointer i.wants else none

def machine (p : Params) : Machine (Inputs p) (Service p) where
  init := idle (some .master)
  step := step

def runFrom (start : Service p) (inputs : Nat → Inputs p) : Nat → Service p :=
  (machine p).runFrom start inputs

def run (inputs : Nat → Inputs p) : Nat → Service p := runFrom (idle (some .master)) inputs

/-- The grant at each edge of a run. -/
def grantFrom (start : Service p) (inputs : Nat → Inputs p) (edge : Nat) : Option Host :=
  (runFrom start inputs edge).grant (inputs edge)

def grantAt (inputs : Nat → Inputs p) (edge : Nat) : Option Host :=
  grantFrom (idle (some .master)) inputs edge

/-- Everything one edge can do. -/
inductive Edge (i : Inputs p) : Service p → Service p → Prop where
  | grant {a : Service p} {h : Host} (ready : a.ready = true)
      (chosen : pick a.pointer i.wants = some h) : Edge i a (.access h (i.host h).request 0)
  | forget {a : Service p} {h : Host} (ready : a.ready = true) (last : a.pointer = some h)
      (alone : ∀ g, i.wants g = true ↔ g = h) : Edge i a (.idle none)
  | rest {a : Service p} (ready : a.ready = true) (silent : ∀ g, i.wants g = false) :
      Edge i a (.idle a.pointer)
  | proceed {h : Host} {request : Request p} {elapsed : Fin (p.limit + 1)}
      (waits : i.ackBus = false) (within : elapsed.val < p.limit) :
      Edge i (.access h request elapsed)
        (.access h request ⟨elapsed.val + 1, Nat.succ_lt_succ within⟩)
  | finish {h : Host} {request : Request p} {elapsed : Fin (p.limit + 1)}
      (ends : i.ackBus = true ∨ elapsed.val = p.limit) :
      Edge i (.access h request elapsed) (.ack h)

private theorem arbitrate_edge (i : Inputs p) {a : Service p} (ready : a.ready = true) :
    Edge i a (arbitrate i a.pointer) := by
  unfold arbitrate
  split
  · rename_i h chosen
    exact .grant ready chosen
  · rename_i missed
    have only := pick_eq_none_iff.mp missed
    split
    · rename_i some
      obtain ⟨h, _, asks⟩ := List.any_eq_true.mp some
      refine .forget ready (only h asks) ?_
      intro g
      constructor
      · intro other
        exact Option.some.inj ((only g other).symm.trans (only h asks))
      · rintro rfl
        exact asks
    · rename_i silent
      refine .rest ready ?_
      intro g
      by_contra asks
      exact silent (List.any_eq_true.mpr ⟨g, Host.mem_all g, by simpa using asks⟩)

theorem edge (i : Inputs p) (a : Service p) : Edge i a (a.step i) := by
  cases a with
  | idle pointer => exact arbitrate_edge (a := .idle pointer) i rfl
  | access h request elapsed =>
    simp only [step]
    split
    · rename_i more
      exact .proceed more.1 more.2
    · rename_i stops
      refine .finish ?_
      by_cases acked : i.ackBus = true
      · exact .inl acked
      · have bound := elapsed.isLt
        simp only [Bool.not_eq_true] at acked
        simp only [acked, true_and] at stops
        exact .inr (by omega)
  | ack h => exact arbitrate_edge (a := .ack h) i rfl

def client : Service p → Option Host
  | idle _ => none
  | access h .. => some h
  | ack _ => none

def acked : Service p → Option Host
  | idle _ => none
  | access .. => none
  | ack h => some h

theorem client_ready {a : Service p} (ready : a.ready = true) : a.client = none := by
  cases a with
  | access h held elapsed => cases ready
  | _ => rfl

theorem arbitrate_client (i : Inputs p) (pointer : Option Host) :
    (arbitrate i pointer).client = pick pointer i.wants := by
  unfold arbitrate
  split
  · rename_i chosen
    exact chosen.symm
  · rename_i missed
    rw [missed]
    split <;> rfl

theorem step_ready {a : Service p} (ready : a.ready = true) (i : Inputs p) :
    a.step i = arbitrate i a.pointer := by
  cases a with
  | access h request elapsed => cases ready
  | _ => rfl

theorem step_forget {a : Service p} (ready : a.ready = true) (last : a.pointer = some h)
    (alone : ∀ g, i.wants g = true ↔ g = h) : a.step i = .idle none := by
  have asked : Host.all.any i.wants = true :=
    List.any_eq_true.mpr ⟨h, Host.mem_all h, (alone h).mpr rfl⟩
  simp [step_ready ready, arbitrate, pick_alone last alone, asked]

theorem grant_eq_some_iff {a : Service p} :
    a.grant i = some h ↔ a.ready = true ∧ pick a.pointer i.wants = some h := by
  unfold grant
  split <;> simp_all

theorem grant_step {a : Service p} (granted : a.grant i = some h) :
    a.step i = .access h (i.host h).request 0 := by
  obtain ⟨ready, chosen⟩ := grant_eq_some_iff.mp granted
  simp [step_ready ready, arbitrate, chosen]

end Service

end RoundRobinArbiter
