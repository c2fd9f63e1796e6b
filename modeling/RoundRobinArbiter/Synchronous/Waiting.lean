import RoundRobinArbiter.Synchronous.Events
import RoundRobinArbiter.Synchronous.Polling

namespace Synchronous

/-- A rank that pays one for every vain edge is not smaller than the wait. -/
theorem happens_within (happens : Nat → Prop) (rank : Nat → Nat)
    (falls : ∀ edge ≤ rank 0, ¬happens edge → rank (edge + 1) + 1 ≤ rank edge) :
    ∃ edge ≤ rank 0, happens edge := by
  by_contra never
  have vain : ∀ edge ≤ rank 0, ¬happens edge := fun edge inside now => never ⟨edge, inside, now⟩
  have paid : ∀ edge ≤ rank 0 + 1, rank edge + edge ≤ rank 0 := by
    intro edge inside
    induction edge with
    | zero => exact Nat.le_refl _
    | succ edge ih =>
      have before := ih (Nat.le_of_succ_le inside)
      have step := falls edge (Nat.le_of_succ_le_succ inside) (vain edge (by omega))
      omega
  have over_ := paid (rank 0 + 1) (Nat.le_refl _)
  omega

theorem log_prefix (event : Nat → Option Event) (reached : start ≤ cycle) :
    log event start <+: log event cycle := by
  induction cycle, reached using Nat.le_induction with
  | base => exact List.prefix_refl _
  | succ cycle reached ih => exact ih.trans (List.prefix_append _ _)

theorem mem_log {event : Nat → Option Event} :
    item ∈ log event cycle ↔ ∃ edge < cycle, event edge = some item := by
  induction cycle with
  | zero => simp [log]
  | succ cycle ih =>
    rw [log, List.mem_append, ih, Option.mem_toList]
    constructor
    · rintro (⟨edge, before, happened⟩ | now)
      · exact ⟨edge, Nat.lt_succ_of_lt before, happened⟩
      · exact ⟨cycle, Nat.lt_succ_self cycle, now⟩
    · rintro ⟨edge, before, happened⟩
      rcases Nat.eq_or_lt_of_le (Nat.le_of_lt_succ before) with rfl | earlier
      · exact .inr happened
      · exact .inl ⟨edge, earlier, happened⟩

theorem log_quiet {event : Nat → Option Event} (reached : start ≤ cycle)
    (quiet : ∀ k, start ≤ k → k < cycle → event k = none) : log event cycle = log event start := by
  induction cycle, reached using Nat.le_induction with
  | base => rfl
  | succ cycle reached ih =>
    rw [log, quiet cycle reached (Nat.lt_succ_self cycle),
      ih fun k after before => quiet k after (Nat.lt_succ_of_lt before)]
    exact List.append_nil _

theorem log_scheduled {event : Nat → Option Event} {times : Nat → Nat} {value : Nat → Event}
    (increasing : StrictMono times) (happens : ∀ edge item,
      event edge = some item ↔ ∃ k < total, edge = times k ∧ item = value k)
    (within : reached ≤ total) (past : ∀ k < reached, times k < cycle)
    (ahead : ∀ k < total, times k < cycle → k < reached) :
    log event cycle = (List.range reached).map value := by
  induction cycle generalizing reached with
  | zero =>
    cases reached with
    | zero => rfl
    | succ reached => cases past 0 (Nat.zero_lt_succ reached)
  | succ cycle ih =>
    rw [log]
    cases now : event cycle with
    | none =>
      have missed : ∀ k < total, times k ≠ cycle := by
        rintro k below rfl
        cases now.symm.trans ((happens _ _).mpr ⟨k, below, rfl, rfl⟩)
      rw [Option.toList_none, List.append_nil]
      refine ih within ?_ fun k below before => ahead k below (Nat.lt_succ_of_lt before)
      intro k below
      have near := past k below
      have other := missed k (by omega)
      omega
    | some item =>
      obtain ⟨k, below, rfl, rfl⟩ := (happens _ _).mp now
      have last : reached = k + 1 := by
        have inside := ahead k below (Nat.lt_succ_self _)
        by_contra more
        have next := past (k + 1) (by omega)
        have later : times k < times (k + 1) := increasing (Nat.lt_succ_self k)
        omega
      subst last
      have earlier := ih (Nat.le_of_lt below) (fun j before => increasing before)
        fun j _ before => increasing.lt_iff_lt.mp before
      rw [List.range_succ, List.map_append, earlier]
      rfl

theorem Stops.exists (responds : Nat → Prop) (positive : 0 < limit) :
    ∃ turn, Stops responds limit turn := by
  classical
  have ends : ∃ turn, responds turn ∨ limit ≤ turn + 1 := ⟨limit - 1, .inr (by omega)⟩
  have last : limit ≤ limit - 1 + 1 := by omega
  have early : Nat.find ends ≤ limit - 1 := Nat.find_min' ends (.inr last)
  refine ⟨Nat.find ends, by omega, ?_, Nat.find_spec ends⟩
  intro k below now
  exact Nat.find_min ends below (.inl now)

theorem Stops.unique {responds : Nat → Prop} (one : Stops responds limit first)
    (other : Stops responds limit second) : first = second := by
  rcases Nat.lt_trichotomy first second with before | same | after
  · rcases one.last with now | full
    · exact absurd now (other.silent first before)
    · have inside := other.inside
      omega
  · exact same
  · rcases other.last with now | full
    · exact absurd now (one.silent second after)
    · have inside := one.inside
      omega

end Synchronous
