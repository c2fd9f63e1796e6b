import Mathlib

/-! Functional coverage. A coverpoint has bins, and a sample hits some of them; a cross has a
bin for every pair. What the samples cannot hit bounds what can be covered. -/

namespace Coverage

universe u

variable {Sample : Type u}

abbrev Bins (Sample : Type u) : Type u := List (Sample → Bool)

def covered (bins : Bins Sample) (samples : List Sample) : Nat :=
  bins.countP fun bin => samples.any bin

def cross (first second : Bins Sample) : Bins Sample :=
  first.flatMap fun bin => second.map fun other sample => bin sample && other sample

/-- The coverage of a coverpoint or a cross, in percent. -/
def percent (bins : Bins Sample) (samples : List Sample) : ℚ :=
  100 * covered bins samples / bins.length

/-- The coverage of a group: the mean of those of its items. -/
def overall (items : List (Bins Sample)) (samples : List Sample) : ℚ :=
  items.foldl (fun sum bins => sum + percent bins samples) 0 / items.length

variable {samples : List Sample} {bins first second : Bins Sample}

theorem covered_le (bins : Bins Sample) (samples : List Sample) :
    covered bins samples ≤ bins.length := List.countP_le_length

theorem covered_none (missed : ∀ bin ∈ bins, ∀ sample ∈ samples, bin sample = false) :
    covered bins samples = 0 := by
  rw [covered, List.countP_eq_zero]
  intro bin member hit
  obtain ⟨sample, sampled, yes⟩ := List.any_eq_true.mp hit
  cases (missed bin member sample sampled).symm.trans yes

/-- Where only the first bin can be hit, one is covered at most. -/
theorem covered_first {bin : Sample → Bool}
    (missed : ∀ other ∈ bins, ∀ sample ∈ samples, other sample = false) :
    covered (bin :: bins) samples ≤ 1 := by
  have none := covered_none missed
  rw [covered] at none ⊢
  rw [List.countP_cons, none]
  split <;> omega

theorem covered_cross_le (first second : Bins Sample) (samples : List Sample) :
    covered (cross first second) samples ≤ covered first samples * second.length := by
  induction first with
  | nil => exact Nat.zero_le _
  | cons bin first ih =>
    rw [covered] at ih ⊢
    rw [cross, List.flatMap_cons, List.countP_append, covered, List.countP_cons, Nat.add_mul,
      Nat.add_comm]
    refine Nat.add_le_add ih ?_
    by_cases hit : samples.any bin = true
    · rw [if_pos hit, Nat.one_mul, ← List.length_map]
      exact List.countP_le_length
    · rw [if_neg hit, Nat.zero_mul, Nat.le_zero, List.countP_eq_zero]
      intro pair member both
      obtain ⟨other, _, rfl⟩ := List.mem_map.mp member
      obtain ⟨sample, sampled, yes⟩ := List.any_eq_true.mp both
      exact hit (List.any_eq_true.mpr ⟨sample, sampled, (Bool.and_eq_true_iff.mp yes).1⟩)

theorem percent_le {parts : Nat} (positive : 0 < parts)
    (bound : covered bins samples * parts ≤ bins.length) : percent bins samples ≤ 100 / parts := by
  rcases Nat.eq_zero_or_pos bins.length with none | some
  · rw [percent, none]
    simp only [Nat.cast_zero, div_zero]
    positivity
  · have real : (covered bins samples : ℚ) * parts ≤ bins.length := by exact_mod_cast bound
    have length : (0 : ℚ) < bins.length := by exact_mod_cast some
    have share : (0 : ℚ) < parts := by exact_mod_cast positive
    rw [percent, div_le_div_iff₀ length share, mul_assoc]
    exact mul_le_mul_of_nonneg_left real (by norm_num)

end Coverage
