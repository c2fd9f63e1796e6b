import Mathlib.Data.Nat.Count

namespace Synchronous

universe u

variable {Event : Type u}

/-- What happened at the edges before `cycle`, oldest first. -/
def log (event : Nat → Option Event) : Nat → List Event
  | 0 => []
  | cycle + 1 => log event cycle ++ (event cycle).toList

/-- The last thing that happened before `cycle`. -/
def latest (event : Nat → Option Event) (initial : Event) : Nat → Event
  | 0 => initial
  | cycle + 1 => (event cycle).getD (latest event initial cycle)

theorem length_log (event : Nat → Option Event) (cycle : Nat) :
    (log event cycle).length = Nat.count (fun edge => (event edge).isSome = true) cycle := by
  induction cycle with
  | zero => rfl
  | succ cycle ih =>
    rw [log, List.length_append, ih, Nat.count_succ]
    cases event cycle <;> rfl

theorem log_eq_nil {event : Nat → Option Event} (never : ∀ edge, event edge = none) (cycle : Nat) :
    log event cycle = [] := by
  induction cycle with
  | zero => rfl
  | succ cycle ih => rw [log, ih, never]; rfl

/-- A counter of a fixed width follows the number of events modulo that width. -/
theorem counter_eq (counter : Nat → BitVec w) (happens : Nat → Prop) [DecidablePred happens]
    (start : counter 0 = 0)
    (step : ∀ edge, counter (edge + 1) = counter edge + if happens edge then 1 else 0)
    (cycle : Nat) : counter cycle = BitVec.ofNat w (Nat.count happens cycle) := by
  induction cycle with
  | zero => exact start
  | succ cycle ih =>
    rw [step, ih, Nat.count_succ]
    split
    · exact (BitVec.ofNat_add _ 1).symm
    · exact BitVec.add_zero _

/-- Read as a signed number it never exceeds what it counts. -/
theorem toInt_ofNat_le (w n : Nat) : (BitVec.ofNat w n).toInt ≤ n := by
  rw [BitVec.toInt_ofNat', Int.bmod_eq_emod]
  have small := Nat.mod_le n (2 ^ w)
  split <;> omega

theorem toInt_ofNat_eq (fits : 2 * n < 2 ^ w) : (BitVec.ofNat w n).toInt = n := by
  have same : (BitVec.ofNat w n).toNat = n := by
    rw [BitVec.toNat_ofNat, Nat.mod_eq_of_lt (by omega)]
  rw [BitVec.toInt_eq_toNat_of_lt (by omega), same]

/-- A rank that pays one for every event, and never rises, bounds their number. -/
theorem count_add_rank_le (happens : Nat → Prop) [DecidablePred happens] (rank : Nat → Nat)
    {bound : Nat}
    (descends : ∀ edge < bound, rank (edge + 1) + (if happens edge then 1 else 0) ≤ rank edge) :
    Nat.count happens bound + rank bound ≤ rank 0 := by
  induction bound with
  | zero => simp
  | succ bound ih =>
    have earlier := ih (fun edge before => descends edge (Nat.lt_succ_of_lt before))
    have last := descends bound (Nat.lt_succ_self bound)
    rw [Nat.count_succ]
    omega

theorem rank_antitone {rank : Nat → Nat} {bound : Nat}
    (falls : ∀ edge < bound, rank (edge + 1) ≤ rank edge) {first second : Nat}
    (ordered : first ≤ second) (inside : second ≤ bound) : rank second ≤ rank first := by
  induction second, ordered using Nat.le_induction with
  | base => exact Nat.le_refl _
  | succ second ordered ih => exact (falls second inside).trans (ih (Nat.le_of_succ_le inside))

/-- Where an event lowers the rank to a value of its own, it does not recur. -/
theorem event_once {event : Nat → Option Event} (rank : Nat → Nat) (own : Event → Nat) {bound : Nat}
    (falls : ∀ edge < bound, rank (edge + 1) ≤ rank edge)
    (lowers : ∀ edge < bound, ∀ item, event edge = some item →
      rank (edge + 1) = own item ∧ rank (edge + 1) < rank edge)
    {first second : Nat} (before : first < second) (inside : second < bound)
    (happens : event first = some item) : event second ≠ some item := by
  intro again
  have here := (lowers first (Nat.lt_trans before inside) item happens).1
  obtain ⟨there, lower⟩ := lowers second inside item again
  have between : rank second ≤ rank (first + 1) :=
    rank_antitone falls before (Nat.le_of_lt inside)
  omega

theorem count_le_one {happens : Nat → Prop} [DecidablePred happens] {bound : Nat}
    (apart : ∀ first second, first < second → second < bound → happens first → ¬ happens second) :
    Nat.count happens bound ≤ 1 := by
  induction bound with
  | zero => simp
  | succ bound ih =>
    rw [Nat.count_succ]
    split
    · rename_i last
      have none : Nat.count happens bound = 0 :=
        Nat.count_iff_forall_not.mpr fun first before earlier =>
          apart first bound before (Nat.lt_succ_self bound) earlier last
      omega
    · have earlier := ih (fun first second before inside =>
        apart first second before (Nat.lt_succ_of_lt inside))
      omega

/-- Each event is followed by another within a window, so that none of them is the last. -/
def Followed (happens : Nat → Prop) (window : Nat) : Prop :=
  ∀ j, happens j → ∃ k, j + 1 ≤ k ∧ k ≤ j + window ∧ happens k

theorem Followed.next {happens : Nat → Prop} (followed : Followed happens window)
    (first : happens start) (i : Nat) (reached : start ≤ i) :
    ∃ k, i + 1 ≤ k ∧ k ≤ i + window ∧ happens k := by
  induction i, reached using Nat.le_induction with
  | base => exact followed start first
  | succ i reached ih =>
    obtain ⟨k, after, within, event⟩ := ih
    -- the event found behind `i` is behind `i + 1` too, unless it is at `i + 1` itself
    rcases Nat.eq_or_lt_of_le after with same | later
    · obtain ⟨next, further, bound, again⟩ := followed k event
      exact ⟨next, by omega, by omega, again⟩
    · exact ⟨k, later, by omega, event⟩

end Synchronous
