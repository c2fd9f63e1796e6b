import RoundRobinArbiter.Testbench.Monitor

/-! The scoreboard, after `arbiter_scoreboard.sv`, behind the monitor. The host it
expects is always the host the monitor is at, so that its order check compares the
monitor with itself; what it can count as an error is a malformed request. -/

namespace RoundRobinArbiter

open Synchronous

/-- The statistics, which are `int`s, and the round-robin tracking. -/
structure Scoreboard where
  numTransactions : Host → BitVec 32
  numErrors : Host → BitVec 32
  expectedHost : Host

namespace Scoreboard

def start : Scoreboard := ⟨fun _ => 0, fun _ => 0, .slave⟩

/-- `check_transaction`. Its third check compares a two-state address with all `x` and
all `z`, and never fails. -/
def checkTransaction (t : Transaction p) : Bool := !(t.rd && t.wr) && t.be != 0

/-- One turn of the loop of `process_transactions`. -/
def process (s : Scoreboard) (h : Host) (t : Transaction p) : Scoreboard :=
  let s := { s with numTransactions := Host.bump s.numTransactions h }
  let s := if h ≠ s.expectedHost then { s with numErrors := Host.bump s.numErrors h } else s
  let s := { s with expectedHost := h.next }
  if checkTransaction t then s else { s with numErrors := Host.bump s.numErrors h }

/-- What happens at an edge: a transaction that was put is processed at once. -/
def step (s : Scoreboard) : Option (Host × Transaction p) → Scoreboard
  | some (h, t) => s.process h t
  | none => s

def machine (p : Params) : Machine (Option (Host × Transaction p)) Scoreboard where
  init := start
  step put s := s.step put

def run (wires : Nat → Interface p) : Nat → Scoreboard :=
  (machine p).run (Monitor.putAt wires)

/-- `total_errors` of `report`. -/
def totalErrors (s : Scoreboard) : BitVec 32 :=
  Host.all.foldl (fun total h => total + s.numErrors h) 0

variable {wires : Nat → Interface p}

theorem run_succ (wires : Nat → Interface p) (cycle : Nat) :
    run wires (cycle + 1) = (run wires cycle).step (Monitor.putAt wires cycle) := rfl

private theorem process_numTransactions (s : Scoreboard) (h : Host) (t : Transaction p) :
    (s.process h t).numTransactions = Host.bump s.numTransactions h := by
  unfold process
  dsimp only
  split <;> split <;> rfl

private theorem process_expectedHost (s : Scoreboard) (h : Host) (t : Transaction p) :
    (s.process h t).expectedHost = h.next := by
  unfold process
  dsimp only
  split <;> rfl

private theorem process_numErrors (s : Scoreboard) (t : Transaction p) :
    (s.process s.expectedHost t).numErrors =
      if checkTransaction t then s.numErrors else Host.bump s.numErrors s.expectedHost := by
  simp only [process, ne_eq, not_true_eq_false, ↓reduceIte]
  split <;> rfl

/-- The host the scoreboard expects is the host the monitor is at. -/
theorem expected_run (wires : Nat → Interface p) (cycle : Nat) :
    (run wires cycle).expectedHost = (Monitor.stageAt wires cycle).host := by
  induction cycle with
  | zero => rfl
  | succ cycle ih =>
    rw [run_succ]
    rcases (Monitor.stage_edge wires cycle).host with ⟨none, same⟩ | ⟨t, put, turned⟩
    · rw [none, same]
      exact ih
    · rw [put, turned]
      exact process_expectedHost _ _ _

/-- Whatever is put comes from the expected host: the order check never fails. -/
theorem expected_put (put : Monitor.putAt wires edge = some (h, t)) :
    (run wires edge).expectedHost = h := by
  rw [expected_run]
  rcases (Monitor.stage_edge wires edge).host with ⟨none, _⟩ | ⟨_, own, _⟩
  · cases none.symm.trans put
  · cases own.symm.trans put
    rfl

/-- At an edge a transaction is put that the checks refuse. -/
def refused (wires : Nat → Interface p) (edge : Nat) : Bool :=
  (Monitor.putAt wires edge).any fun put => !checkTransaction put.2

theorem numErrors_step (wires : Nat → Interface p) (edge : Nat) (h : Host) :
    (run wires (edge + 1)).numErrors h = (run wires edge).numErrors h +
      if Monitor.putHost wires edge = some h ∧ refused wires edge = true then 1 else 0 := by
  rw [run_succ, Monitor.putHost, refused]
  cases put : Monitor.putAt wires edge with
  | none => simp [step]
  | some item =>
    obtain ⟨g, t⟩ := item
    rw [step, ← expected_put put, process_numErrors, Option.any_some, Option.map_some]
    cases checkTransaction t with
    | true => simp
    | false =>
      simp only [Bool.false_eq_true, ↓reduceIte, Host.bump_eq, Bool.not_false, and_true]
      split
      · rfl
      · exact (BitVec.add_zero _).symm

theorem numErrors_run (wires : Nat → Interface p) (h : Host) (cycle : Nat) :
    (run wires cycle).numErrors h = .ofNat 32
      (Nat.count (fun edge => Monitor.putHost wires edge = some h ∧ refused wires edge = true)
        cycle) :=
  counter_eq (fun cycle => (run wires cycle).numErrors h) _ rfl
    (fun edge => numErrors_step wires edge h) cycle

private theorem totalErrors_bump (s : Scoreboard) (h : Host) :
    { s with numErrors := Host.bump s.numErrors h }.totalErrors = s.totalErrors + 1 := by
  cases h <;> simp [totalErrors, Host.all, Host.bump] <;> ac_rfl

private theorem totalErrors_step (wires : Nat → Interface p) (edge : Nat) :
    (run wires (edge + 1)).totalErrors =
      (run wires edge).totalErrors + if refused wires edge = true then 1 else 0 := by
  rw [run_succ, refused]
  cases put : Monitor.putAt wires edge with
  | none => exact (BitVec.add_zero _).symm
  | some item =>
    obtain ⟨h, t⟩ := item
    rw [step, ← expected_put put, totalErrors, process_numErrors, Option.any_some]
    cases checkTransaction t with
    | true => exact (BitVec.add_zero _).symm
    | false => exact totalErrors_bump _ _

theorem totalErrors_run (wires : Nat → Interface p) (cycle : Nat) :
    (run wires cycle).totalErrors =
      .ofNat 32 (Nat.count (fun edge => refused wires edge = true) cycle) :=
  counter_eq (fun cycle => (run wires cycle).totalErrors) _ rfl (totalErrors_step wires) cycle

/-- A request that the checks of a transaction refuse. -/
def Malformed (port : HostPort p) : Prop := (port.rd = true ∧ port.wr = true) ∨ port.be = 0

instance (port : HostPort p) : Decidable (Malformed port) := inferInstanceAs (Decidable (_ ∨ _))

theorem checkTransaction_observed (h : Host) (edge : Nat) (w : Interface p) :
    checkTransaction ((Monitor.observed wires h edge).receive w h) = false ↔
      Malformed ((wires edge).host h) := by
  have kept : checkTransaction ((Monitor.observed wires h edge).receive w h) =
      checkTransaction (Monitor.observed wires h edge) := by
    unfold Transaction.receive
    split <;> rfl
  rw [kept]
  change (!(((wires edge).host h).rd && ((wires edge).host h).wr) &&
    ((wires edge).host h).be != 0) = false ↔ _
  simp only [Malformed, Bool.and_eq_false_iff, Bool.not_eq_false', Bool.and_eq_true,
    bne_eq_false_iff_eq]

private theorem refused_iff (wires : Nat → Interface p) (finish : Nat) :
    refused wires finish = true ↔ ∃ h edge, Monitor.Forwards wires h edge finish ∧
      Malformed ((wires edge).host h) := by
  constructor
  · intro bad
    rw [refused, Option.any_eq_true] at bad
    obtain ⟨⟨h, t⟩, put, bad⟩ := bad
    obtain ⟨edge, forwards, rfl⟩ := Monitor.put_forwards put
    rw [Bool.not_eq_true', checkTransaction_observed] at bad
    exact ⟨h, edge, forwards, bad⟩
  · rintro ⟨h, edge, forwards, malformed⟩
    have bad := (checkTransaction_observed h edge (wires finish)).mpr malformed
    rw [refused, forwards.put, Option.any_some, bad]
    rfl

theorem totalErrors_zero
    (sound : ∀ edge h, (wires edge).wants h = true → ¬Malformed ((wires edge).host h))
    (cycle : Nat) : (run wires cycle).totalErrors = 0 := by
  have none : Nat.count (fun edge => refused wires edge = true) cycle = 0 := by
    refine Nat.count_iff_forall_not.mpr fun finish _ bad => ?_
    obtain ⟨h, edge, forwards, malformed⟩ := (refused_iff wires finish).mp bad
    exact sound edge h forwards.wants malformed
  rw [totalErrors_run, none]
  rfl

private theorem numTransactions_eq (wires : Nat → Interface p) (cycle : Nat) :
    (run wires cycle).numTransactions = (Monitor.run wires cycle).numTransactions := by
  induction cycle with
  | zero => rfl
  | succ cycle ih =>
    funext h
    rw [run_succ, show Monitor.run wires (cycle + 1) = (Monitor.run wires cycle).step (wires cycle)
      from rfl, Monitor.numTransactions_step, ← ih]
    change _ = _ + if (Monitor.putAt wires cycle).map Prod.fst = some h then 1 else 0
    cases Monitor.putAt wires cycle with
    | none => exact (BitVec.add_zero _).symm
    | some put =>
      obtain ⟨g, t⟩ := put
      rw [step, process_numTransactions, Host.bump_eq, Option.map_some]
      split
      · rfl
      · exact (BitVec.add_zero _).symm

theorem numTransactions_run (wires : Nat → Interface p) (h : Host) (cycle : Nat) :
    (run wires cycle).numTransactions h = .ofNat 32 (Monitor.recorded wires h cycle) := by
  rw [numTransactions_eq, Monitor.numTransactions_run]

end Scoreboard

end RoundRobinArbiter
