/-! Sequences over the ticks of a clock, and how an assertion takes them: weakly, so that only
a finite prefix that nothing could complete is a failure. -/

namespace Synchronous

universe u

variable {Value : Type u}

/-- What a tick shows: its values, or the letter at which every boolean holds. -/
abbrev Letter (Value : Type u) : Type u := Option Value

def Letter.Holds (b : Value → Bool) (letter : Letter Value) : Prop :=
  ∀ value, letter = some value → b value = true

inductive Sequence (Value : Type u) where
  | empty
  | bool (b : Value → Bool)
  /-- The second starts one tick behind the first. -/
  | concat (first second : Sequence Value)
  | either (first second : Sequence Value)
  /-- Any number of times, one behind the other. -/
  | star (body : Sequence Value)

namespace Sequence

/-- A sequence fits the ticks from `start` on and before `stop`. -/
inductive Tight (word : Nat → Letter Value) : Sequence Value → Nat → Nat → Prop where
  | empty (start : Nat) : Tight word empty start start
  | bool {b : Value → Bool} {start : Nat} (holds : (word start).Holds b) :
      Tight word (bool b) start (start + 1)
  | concat {first second : Sequence Value} {start middle stop : Nat}
      (before : Tight word first start middle) (behind : Tight word second middle stop) :
      Tight word (concat first second) start stop
  | left {first second : Sequence Value} {start stop : Nat} (fits : Tight word first start stop) :
      Tight word (either first second) start stop
  | right {first second : Sequence Value} {start stop : Nat} (fits : Tight word second start stop) :
      Tight word (either first second) start stop
  | done {body : Sequence Value} (start : Nat) : Tight word (star body) start start
  | again {body : Sequence Value} {start middle stop : Nat} (once : Tight word body start middle)
      (more : Tight word (star body) middle stop) : Tight word (star body) start stop

/-- Some ticks from `start` on fit. -/
def Strong (word : Nat → Letter Value) (sequence : Sequence Value) (start : Nat) : Prop :=
  ∃ stop, start < stop ∧ Tight word sequence start stop

/-- The word of a trace up to a tick, behind which everything holds. -/
def truncated (trace : Nat → Value) (length : Nat) (tick : Nat) : Letter Value :=
  if tick < length then some (trace tick) else none

/-- The first `length` ticks of the trace do not rule the sequence out. -/
def Pending (trace : Nat → Value) (length : Nat) (sequence : Sequence Value) (start : Nat) : Prop :=
  Strong (truncated trace length) sequence start

/-- No finite prefix of the trace rules the sequence out. -/
def Weak (trace : Nat → Value) (sequence : Sequence Value) (start : Nat) : Prop :=
  ∀ length, start < length → Pending trace length sequence start

def goto (b : Value → Bool) : Sequence Value :=
  concat (star (bool fun value => !b value)) (bool b)

def times (body : Sequence Value) : Nat → Sequence Value
  | 0 => empty
  | n + 1 => concat body (times body n)

/-- `##[lo:lo + more] s`, behind the tick at which it starts. -/
def delayed (lo : Nat) (body : Sequence Value) : Nat → Sequence Value
  | 0 => concat (times (bool fun _ => true) lo) body
  | more + 1 => either (concat (times (bool fun _ => true) lo) body) (delayed (lo + 1) body more)

section Fits

variable {word : Nat → Letter Value} {b : Value → Bool} {start stop : Nat}

theorem tight_bool : Tight word (bool b) start stop ↔
    stop = start + 1 ∧ (word start).Holds b := by
  constructor
  · intro fits
    cases fits with
    | bool holds => exact ⟨rfl, holds⟩
  · rintro ⟨rfl, holds⟩
    exact .bool holds

theorem tight_concat {first second : Sequence Value} :
    Tight word (concat first second) start stop ↔
      ∃ middle, Tight word first start middle ∧ Tight word second middle stop := by
  constructor
  · intro fits
    cases fits with
    | concat before behind => exact ⟨_, before, behind⟩
  · rintro ⟨middle, before, behind⟩
    exact .concat before behind

theorem tight_either {first second : Sequence Value} :
    Tight word (either first second) start stop ↔
      Tight word first start stop ∨ Tight word second start stop := by
  constructor
  · intro fits
    cases fits with
    | left fits => exact .inl fits
    | right fits => exact .inr fits
  · rintro (fits | fits)
    · exact .left fits
    · exact .right fits

theorem tight_times (n : Nat) :
    Tight word (times (bool fun _ => true) n) start stop ↔ stop = start + n := by
  induction n generalizing start with
  | zero =>
    constructor
    · intro fits
      cases fits
      rfl
    · rintro rfl
      exact .empty _
  | succ n ih =>
    rw [times, tight_concat]
    constructor
    · rintro ⟨middle, one, more⟩
      obtain ⟨rfl, _⟩ := tight_bool.mp one
      rw [ih.mp more]
      omega
    · rintro rfl
      exact ⟨start + 1, .bool fun _ _ => rfl, ih.mpr (by omega)⟩

/-- A delayed boolean fits at one of the ticks of its window. -/
theorem tight_delayed (lo more : Nat) :
    Tight word (delayed lo (bool b) more) start stop ↔
      ∃ k, lo ≤ k ∧ k ≤ lo + more ∧ stop = start + k + 1 ∧ (word (start + k)).Holds b := by
  have here : ∀ lo, Tight word (concat (times (bool fun _ => true) lo) (bool b)) start stop ↔
      stop = start + lo + 1 ∧ (word (start + lo)).Holds b := by
    intro lo
    simp only [tight_concat, tight_times, tight_bool, exists_eq_left]
  induction more generalizing lo with
  | zero =>
    rw [delayed, here]
    constructor
    · rintro ⟨position, holds⟩
      exact ⟨lo, Nat.le_refl _, Nat.le_refl _, position, holds⟩
    · rintro ⟨k, least, most, position, holds⟩
      obtain rfl : k = lo := Nat.le_antisymm most least
      exact ⟨position, holds⟩
  | succ more ih =>
    rw [delayed, tight_either, here]
    refine (or_congr_right (ih (lo + 1))).trans ?_
    constructor
    · rintro (⟨position, holds⟩ | ⟨k, least, most, position, holds⟩)
      · exact ⟨lo, Nat.le_refl _, Nat.le_add_right _ _, position, holds⟩
      · exact ⟨k, by omega, by omega, position, holds⟩
    · rintro ⟨k, least, most, position, holds⟩
      rcases Nat.eq_or_lt_of_le least with rfl | later
      · exact .inl ⟨position, holds⟩
      · exact .inr ⟨k, later, by omega, position, holds⟩

theorem holds_truncated (trace : Nat → Value) (length tick : Nat) :
    (truncated trace length tick).Holds b ↔ (tick < length → b (trace tick) = true) := by
  unfold truncated
  split
  · rename_i inside
    exact ⟨fun holds _ => holds _ rfl, fun shown value same => Option.some.inj same ▸ shown inside⟩
  · rename_i beyond
    exact ⟨fun _ inside => absurd inside beyond, fun _ value same => nomatch same⟩

end Fits

/-- `b[->1]` is never ruled out: behind the last tick seen there may be another. -/
theorem weak_goto (trace : Nat → Value) (b : Value → Bool) (start : Nat) :
    Weak trace (goto b) start := by
  intro length _
  -- the tick at which `b` comes, or the first one that has not been seen
  have reaches : ∀ left start, length - start ≤ left →
      ∃ stop, start < stop ∧ Tight (truncated trace length) (goto b) start stop := by
    intro left
    induction left with
    | zero =>
      intro start beyond
      refine ⟨start + 1, Nat.lt_succ_self _, .concat (.done start) (.bool ?_)⟩
      rw [holds_truncated]
      intro inside
      omega
    | succ left ih =>
      intro start within
      by_cases now : b (trace start) = true
      · refine ⟨start + 1, Nat.lt_succ_self _, .concat (.done start) (.bool ?_)⟩
        rw [holds_truncated]
        exact fun _ => now
      · obtain ⟨stop, after, fits⟩ := ih (start + 1) (by omega)
        obtain ⟨middle, passed, found⟩ := tight_concat.mp fits
        refine ⟨stop, by omega, .concat (.again (.bool ?_) passed) found⟩
        rw [holds_truncated]
        intro _
        simpa using now
  exact reaches _ start (Nat.le_refl _)

/-- A boolean delayed by a bounded number of ticks is ruled out by all the ticks of its
window, and by no fewer. -/
theorem pending_delayed (trace : Nat → Value) (b : Value → Bool) (length start lo more : Nat) :
    Pending trace length (delayed lo (bool b) more) start ↔
      (∃ k, lo ≤ k ∧ k ≤ lo + more ∧ b (trace (start + k)) = true) ∨
        length ≤ start + (lo + more) := by
  constructor
  · rintro ⟨stop, _, fits⟩
    obtain ⟨k, least, most, _, holds⟩ := (tight_delayed lo more).mp fits
    rw [holds_truncated] at holds
    rcases Nat.lt_or_ge (start + k) length with inside | beyond
    · exact .inl ⟨k, least, most, holds inside⟩
    · exact .inr (by omega)
  · rintro (⟨k, least, most, now⟩ | beyond)
    · refine ⟨start + k + 1, by omega, (tight_delayed lo more).mpr ⟨k, least, most, rfl, ?_⟩⟩
      rw [holds_truncated]
      exact fun _ => now
    · refine ⟨start + (lo + more) + 1, by omega, (tight_delayed lo more).mpr
        ⟨lo + more, Nat.le_add_right _ _, Nat.le_refl _, rfl, ?_⟩⟩
      rw [holds_truncated]
      intro inside
      omega

end Sequence

end Synchronous
