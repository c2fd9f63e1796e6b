import Mathlib.Logic.Equiv.Defs

/-! Cyclic service order on finitely many clients. `ahead last client` counts the
clients served between `last` and `client` when the service goes round once, so
the client just after `last` is at 0 and `last` itself comes last. -/

namespace Rotation

universe u

variable {Client : Type u} {count : Nat} (place : Client ≃ Fin count)

def ahead (last client : Client) : Nat :=
  if (place last).val < (place client).val then (place client).val - (place last).val - 1
  else (place client).val + count - (place last).val - 1

theorem ahead_self (client : Client) : ahead place client client = count - 1 := by
  simp only [ahead, Nat.lt_irrefl, ↓reduceIte]
  omega

theorem ahead_lt (last client : Client) : ahead place last client < count := by
  have lastBound := (place last).isLt
  have clientBound := (place client).isLt
  unfold ahead
  split <;> omega

theorem ahead_injective {last first second : Client}
    (same : ahead place last first = ahead place last second) : first = second := by
  have lastBound := (place last).isLt
  have firstBound := (place first).isLt
  have secondBound := (place second).isLt
  apply place.injective
  apply Fin.ext
  unfold ahead at same
  split at same <;> split at same <;> omega

/-- Serving a client moves every client behind it closer by as many places. -/
theorem ahead_served {last served waiting : Client}
    (before : ahead place last served < ahead place last waiting) :
    ahead place served waiting + ahead place last served + 1 = ahead place last waiting := by
  have lastBound := (place last).isLt
  have servedBound := (place served).isLt
  have waitingBound := (place waiting).isLt
  unfold ahead at before ⊢
  split at before <;> split at before <;> split <;> omega

/-- `chosen` is the first client that wants service in the cyclic order that
starts just after `last`. -/
structure First (wanting : Client → Prop) (last chosen : Client) : Prop where
  wants : wanting chosen
  nearest : ∀ client, wanting client → ahead place last chosen ≤ ahead place last client

variable {place}
variable {wanting : Client → Prop} {last chosen waiting : Client}

/-- A client passed over by the first choice is strictly closer afterwards. -/
theorem First.closer (first : First place wanting last chosen) (wants : wanting waiting)
    (passed : chosen ≠ waiting) : ahead place chosen waiting < ahead place last waiting := by
  have notAfter := first.nearest waiting wants
  have apart : ahead place last chosen ≠ ahead place last waiting :=
    fun same => passed (ahead_injective place same)
  have moved := ahead_served place (Nat.lt_of_le_of_ne notAfter apart)
  omega

/-- Scanning a list in increasing rank finds a match of least rank. -/
theorem find?_least {rank : Client → Nat} {order : List Client} {want : Client → Bool}
    (sorted : order.Pairwise (fun first second => rank first < rank second))
    (found : order.find? want = some chosen) :
    ∀ client ∈ order, want client = true → rank chosen ≤ rank client := by
  obtain ⟨_, front, back, split, missed⟩ := List.find?_eq_some_iff_append.mp found
  intro client member wants
  rw [split] at member sorted
  rcases List.mem_append.mp member with earlier | later
  · have absent := missed client earlier
    simp [wants] at absent
  · rcases List.mem_cons.mp later with same | behind
    · exact Nat.le_of_eq (congrArg rank same.symm)
    · have tail := (List.pairwise_append.mp sorted).2.1
      exact Nat.le_of_lt ((List.pairwise_cons.mp tail).1 client behind)

end Rotation
