import RoundRobinArbiter.Arbiter.Handshake

namespace RoundRobinArbiter

open Synchronous

/-- `ack_timing` holds at every edge: an edge that shows an access to the device is
followed by an acknowledge one to 16 edges later. -/
def AckTiming (inputs : Nat → Inputs p) : Prop :=
  ∀ i, (Arbiter.run inputs i).busy = true →
    ∃ j, i + 1 ≤ j ∧ j ≤ i + 16 ∧ (inputs j).ackBus = true

/-- The device acknowledges at most 16 edges after the first edge that shows it an
access, and only during accesses. -/
structure AnswersInTime (inputs : Nat → Inputs p) : Prop where
  answers : ∀ edge h, Arbiter.grantAt inputs edge = some h →
    ∃ j, edge + 1 ≤ j ∧ j ≤ edge + 1 + 16 ∧ (inputs j).ackBus = true
  only : ∀ j, (inputs j).ackBus = true → (Arbiter.run inputs j).busy = true

section Windows

variable {inputs : Nat → Inputs p}

private theorem AnswersInTime.ackTiming (device : AnswersInTime inputs)
    (followed : Followed (fun j => (inputs j).ackBus = true) 16) : AckTiming inputs := by
  intro i busy
  rw [(refines_run inputs i).busy, Bool.not_eq_true'] at busy
  obtain ⟨h, held, elapsed, running⟩ := Service.access_of_not_ready busy
  obtain ⟨edge, position, granted, _⟩ := Service.access_granted running
  rw [← grantAt_eq] at granted
  obtain ⟨j, after, within, answer⟩ := device.answers edge h granted
  rcases Nat.lt_or_ge i j with ahead | behind
  · exact ⟨j, ahead, by omega, answer⟩
  · exact followed.next answer i behind

end Windows

/-- The assertion holds exactly when no acknowledge is the last one for 16 edges: the
antecedent also matches at the edge that acknowledges an access. -/
theorem ackTiming_iff_followed {inputs : Nat → Inputs p} (device : AnswersInTime inputs) :
    AckTiming inputs ↔ ∀ j, (inputs j).ackBus = true →
      ∃ k, j + 1 ≤ k ∧ k ≤ j + 16 ∧ (inputs k).ackBus = true := by
  constructor
  · intro timing j answer
    exact timing j (device.only j answer)
  · exact device.ackTiming

/-- The Slave reads once and is answered at once. -/
def oneRead (cycle : Nat) : Inputs .default :=
  .reads (if cycle < 3 then [.slave] else []) (cycle == 1)

private theorem oneRead_ackBus (cycle : Nat) : (oneRead cycle).ackBus = true ↔ cycle = 1 := by
  simp [oneRead, Inputs.reads]

theorem oneRead_inTime : AnswersInTime oneRead where
  answers edge h granted := by
    refine ⟨1, ?_, by omega, rfl⟩
    match edge with
    | 0 => exact Nat.le_refl 1
    | 1 => cases h <;> exact absurd granted (by decide)
    | 2 => cases h <;> exact absurd granted (by decide)
    | edge + 3 =>
      rw [grantAt_eq] at granted
      have wants := Service.grantFrom_wants granted
      rw [oneRead, if_neg (by omega)] at wants
      cases wants
  only j answer := by
    obtain rfl := (oneRead_ackBus j).mp answer
    decide

theorem ackTiming_iff_followed_oneRead :
    AckTiming oneRead ↔ ∀ j, (oneRead j).ackBus = true →
      ∃ k, j + 1 ≤ k ∧ k ≤ j + 16 ∧ (oneRead k).ackBus = true :=
  ackTiming_iff_followed oneRead_inTime

/-- The only access of a run is answered at its first edge, and the assertion fails. -/
theorem answered_read_reported :
    ¬∀ inputs : Nat → Inputs .default, AnswersInTime inputs → AckTiming inputs := by
  intro sound
  obtain ⟨j, after, _, answer⟩ := sound oneRead oneRead_inTime 1 (by decide)
  have only := (oneRead_ackBus j).mp answer
  omega

end RoundRobinArbiter
