namespace Synchronous

universe u

/-- The turn in which a loop stops, counted from 0: the first one that sees a response, or
the last one that the limit allows. -/
structure Stops (responds : Nat → Prop) (limit finish : Nat) : Prop where
  inside : finish < limit
  silent : ∀ k < finish, ¬responds k
  last : responds finish ∨ limit ≤ finish + 1

/-- A call returns its result at `finish` and nothing earlier. -/
structure Returns {Result : Type u} (returned : Nat → Option Result) (finish : Nat)
    (result : Result) : Prop where
  running : ∀ k < finish, returned k = none
  done : returned finish = some result

theorem Returns.unique {Result : Type u} {returned : Nat → Option Result} {first second : Nat}
    {a b : Result} (one : Returns returned first a) (other : Returns returned second b) :
    first = second ∧ a = b := by
  rcases Nat.lt_trichotomy first second with before | same | after
  · cases one.done.symm.trans (other.running first before)
  · subst same
    exact ⟨rfl, Option.some.inj (one.done.symm.trans other.done)⟩
  · cases other.done.symm.trans (one.running second after)

section Counting

variable {waiting : Nat → Nat → Prop} {responds : Nat → Prop} {limit start : Nat}
variable (turn : ∀ cycle count, waiting cycle count → ¬responds cycle → count + 1 < limit →
  waiting (cycle + 1) (count + 1))

include turn in
theorem counts_on (starts : waiting start 0) (more : Nat) (patient : more < limit)
    (silent : ∀ k < more, ¬responds (start + k)) : waiting (start + more) more := by
  induction more with
  | zero => exact starts
  | succ more ih =>
    have before := ih (Nat.lt_of_succ_lt patient)
      (fun k below => silent k (Nat.lt_succ_of_lt below))
    exact turn (start + more) more before (silent more (Nat.lt_succ_self more)) patient

include turn in
theorem Stops.waits {finish : Nat} (starts : waiting 0 0) (stops : Stops responds limit finish) :
    ∀ k ≤ finish, waiting k k := by
  intro k bound
  have reached := counts_on turn starts k (Nat.lt_of_le_of_lt bound stops.inside) (by
    intro j below
    rw [Nat.zero_add]
    exact stops.silent j (Nat.lt_of_lt_of_le below bound))
  rw [Nat.zero_add] at reached
  exact reached

end Counting

theorem Stops.raised {responds : Nat → Prop} {limit finish : Nat}
    (stops : Stops responds limit finish) (errors : Nat → Nat)
    (turn : ∀ k ≤ finish, errors (k + 1) = errors k + if limit ≤ k + 1 then 1 else 0) :
    errors (finish + 1) = errors 0 + if limit ≤ finish + 1 then 1 else 0 := by
  have none : ∀ k ≤ finish, errors k = errors 0 := by
    intro k bound
    induction k with
    | zero => rfl
    | succ k ih =>
      have inside := stops.inside
      rw [turn k (Nat.le_of_succ_le bound), if_neg (by omega), ih (Nat.le_of_succ_le bound)]
      rfl
  rw [turn finish (Nat.le_refl _), none finish (Nat.le_refl _)]

end Synchronous
