/-! Clocked machines. A machine has one initial state and one total step per
clock edge; the state in cycle `n` is the one its first `n` edges leave. -/

namespace Synchronous

universe u v w

structure Machine (Input : Type u) (State : Type v) where
  init : State
  step : Input → State → State

namespace Machine

variable {Input : Type u} {State : Type v} {Abstract : Type w}

/-- The state in each cycle of the run that starts in `state`; edge `n` reads
the input of cycle `n`. -/
def runFrom (machine : Machine Input State) (state : State) (inputs : Nat → Input) : Nat → State
  | 0 => state
  | cycle + 1 => machine.step (inputs cycle) (machine.runFrom state inputs cycle)

def run (machine : Machine Input State) (inputs : Nat → Input) : Nat → State :=
  machine.runFrom machine.init inputs

inductive Reachable (machine : Machine Input State) : State → Prop where
  | init : Reachable machine machine.init
  | step (input : Input) (earlier : Reachable machine state) :
      Reachable machine (machine.step input state)

theorem reachable_run (machine : Machine Input State) (inputs : Nat → Input) (cycle : Nat) :
    Reachable machine (machine.run inputs cycle) := by
  induction cycle with
  | zero => exact .init
  | succ cycle ih => exact .step (inputs cycle) ih

/-- A run observed from cycle `start` on is the run of the shifted inputs. -/
theorem runFrom_add (machine : Machine Input State) (state : State) (inputs : Nat → Input)
    (start cycle : Nat) :
    machine.runFrom state inputs (start + cycle) =
      machine.runFrom (machine.runFrom state inputs start) (fun k => inputs (start + k)) cycle := by
  induction cycle with
  | zero => rfl
  | succ cycle ih => exact congrArg (machine.step (inputs (start + cycle))) ih

/-- A component of a closed system is a run of that component under the inputs
the system presents to it. -/
theorem runFrom_of_step (machine : Machine Input State) {states : Nat → State}
    {inputs : Nat → Input}
    (steps : ∀ cycle, states (cycle + 1) = machine.step (inputs cycle) (states cycle)) :
    ∀ cycle, states cycle = machine.runFrom (states 0) inputs cycle := by
  intro cycle
  induction cycle with
  | zero => rfl
  | succ cycle ih =>
    rw [steps, ih]
    rfl

theorem run_of_step (machine : Machine Input State) {states : Nat → State} {inputs : Nat → Input}
    (initial : states 0 = machine.init)
    (steps : ∀ cycle, states (cycle + 1) = machine.step (inputs cycle) (states cycle)) :
    ∀ cycle, states cycle = machine.run inputs cycle := by
  intro cycle
  rw [machine.runFrom_of_step steps cycle, initial, run]

end Machine

/-- A forward simulation matching the two machines edge for edge. -/
structure Simulation {Input : Type u} {State : Type v} {Abstract : Type w}
    (machine : Machine Input State) (model : Machine Input Abstract) where
  rel : State → Abstract → Prop
  init : rel machine.init model.init
  step : ∀ input state view, rel state view → rel (machine.step input state) (model.step input view)

namespace Simulation

variable {Input : Type u} {State : Type v} {Abstract : Type w}
variable {machine : Machine Input State} {model : Machine Input Abstract}

theorem runFrom (simulation : Simulation machine model) (related : simulation.rel state view)
    (inputs : Nat → Input) (cycle : Nat) :
    simulation.rel (machine.runFrom state inputs cycle) (model.runFrom view inputs cycle) := by
  induction cycle with
  | zero => exact related
  | succ cycle ih => exact simulation.step (inputs cycle) _ _ ih

theorem run (simulation : Simulation machine model) (inputs : Nat → Input) (cycle : Nat) :
    simulation.rel (machine.run inputs cycle) (model.run inputs cycle) :=
  simulation.runFrom simulation.init inputs cycle

theorem reachable (simulation : Simulation machine model) (reached : machine.Reachable state) :
    ∃ view, simulation.rel state view := by
  induction reached with
  | init => exact ⟨model.init, simulation.init⟩
  | step input earlier ih =>
    obtain ⟨view, related⟩ := ih
    exact ⟨model.step input view, simulation.step input _ view related⟩

end Simulation

end Synchronous
