import RoundRobinArbiter.Synchronous.Machine
import RoundRobinArbiter.Synchronous.Events
import Mathlib.Data.Nat.ModEq
import Mathlib.Logic.Equiv.Defs

/-! Following a rotation. A follower waits for one client at a time: it takes an event of
that client and goes on to the next one, and it passes over every other event. How often it
has taken each client is fixed by how many events it has taken. -/

namespace Rotation

open Synchronous

universe u

variable {Client : Type u} [DecidableEq Client] {count : Nat} (place : Client ≃ Fin count)

/-- The client behind a client. -/
def next (client : Client) : Client :=
  place.symm ⟨((place client).val + 1) % count,
    Nat.mod_lt _ (Nat.zero_lt_of_lt (place client).isLt)⟩

/-- The client whose turn it is after so many turns. -/
def turn (first : Client) : Nat → Client
  | 0 => first
  | turns + 1 => next place (turn first turns)

/-- The turns that pass before a client has its first one. -/
def gap (first client : Client) : Nat :=
  if (place first).val ≤ (place client).val then (place client).val - (place first).val
  else (place client).val + count - (place first).val

omit [DecidableEq Client] in
theorem gap_lt (first client : Client) : gap place first client < count := by
  have firstBound := (place first).isLt
  have clientBound := (place client).isLt
  unfold gap
  split <;> omega

omit [DecidableEq Client] in
theorem place_turn (first : Client) (turns : Nat) :
    (place (turn place first turns)).val = ((place first).val + turns) % count := by
  induction turns with
  | zero => exact (Nat.mod_eq_of_lt (place first).isLt).symm
  | succ turns ih =>
    rw [turn, next, Equiv.apply_symm_apply]
    change ((place (turn place first turns)).val + 1) % count = _
    rw [ih, Nat.mod_add_mod, Nat.add_assoc]

omit [DecidableEq Client] in
/-- It is the turn of a client whenever the rotation has come back to it. -/
theorem turn_eq_iff (first client : Client) (turns : Nat) :
    turn place first turns = client ↔ count ∣ turns + (count - gap place first client) := by
  have firstBound := (place first).isLt
  have clientBound := (place client).isLt
  have shown : turn place first turns = client ↔
      (place client).val ≡ (place first).val + turns [MOD count] := by
    rw [← place.apply_eq_iff_eq, Fin.ext_iff, place_turn, Nat.ModEq,
      Nat.mod_eq_of_lt clientBound]
    exact eq_comm
  rw [shown]
  unfold gap
  split
  · have wound : (place client).val ≡ (place first).val + turns [MOD count] ↔
        (place client).val ≡ (place first).val + turns + count [MOD count] := by
      simp only [Nat.ModEq, Nat.add_mod_right]
    rw [wound, Nat.modEq_iff_dvd' (by omega)]
    congr! 1
    omega
  · rw [Nat.modEq_iff_dvd' (by omega)]
    congr! 1
    omega

omit [DecidableEq Client] in
theorem turn_gap (first client : Client) (rounds : Nat) :
    turn place first (count * rounds + gap place first client) = client := by
  have bound := gap_lt place first client
  rw [turn_eq_iff, Nat.add_assoc, Nat.add_sub_cancel' (Nat.le_of_lt bound)]
  exact ⟨rounds + 1, rfl⟩

omit [DecidableEq Client] in
theorem turn_add_count (first : Client) (turns : Nat) :
    turn place first (turns + count) = turn place first turns := by
  have own := (turn_eq_iff place first (turn place first turns) turns).mp rfl
  rw [turn_eq_iff, Nat.add_right_comm]
  exact Nat.dvd_add own (Nat.dvd_refl count)

omit [DecidableEq Client] in
theorem turn_eq_turn {first : Client} (same : turn place first j = turn place first k) :
    j % count = k % count := by
  have places : (place (turn place first j)).val = (place (turn place first k)).val := by rw [same]
  rw [place_turn, place_turn] at places
  exact Nat.ModEq.add_left_cancel' _ places

theorem count_turn (first client : Client) (turns : Nat) :
    Nat.count (fun k => turn place first k = client) turns =
      (turns + (count - 1 - gap place first client)) / count := by
  have bound := gap_lt place first client
  induction turns with
  | zero => exact (Nat.div_eq_of_lt (by omega)).symm
  | succ turns ih =>
    have position : turns + 1 + (count - 1 - gap place first client) =
        turns + (count - 1 - gap place first client) + 1 := by omega
    have whole : turns + (count - 1 - gap place first client) + 1 =
        turns + (count - gap place first client) := by omega
    rw [Nat.count_succ, ih, position, Nat.succ_div, whole]
    simp only [turn_eq_iff]

/-- A follower: the client it waits for, and how often it has taken each client. -/
structure Follower (Client : Type u) where
  current : Client
  taken : Client → Nat

namespace Follower

def step (event : Option Client) (f : Follower Client) : Follower Client :=
  if event = some f.current then
    ⟨next place f.current, Function.update f.taken f.current (f.taken f.current + 1)⟩
  else f

def machine (first : Client) : Machine (Option Client) (Follower Client) where
  init := ⟨first, fun _ => 0⟩
  step := step place

variable (first : Client) (events : Nat → Option Client)

def run : Nat → Follower Client := (machine place first).run events

/-- The event at an edge is one that the follower takes. -/
def Takes (edge : Nat) : Prop := events edge = some (run place first events edge).current

instance (edge : Nat) : Decidable (Takes place first events edge) :=
  inferInstanceAs (Decidable (_ = _))

/-- The events taken before a cycle. -/
def turns (cycle : Nat) : Nat := Nat.count (Takes place first events) cycle

theorem turns_succ (cycle : Nat) : turns place first events (cycle + 1) =
    turns place first events cycle + if Takes place first events cycle then 1 else 0 :=
  Nat.count_succ _ _

theorem run_takes {cycle : Nat} (takes : Takes place first events cycle) :
    run place first events (cycle + 1) =
      ⟨next place (run place first events cycle).current,
        Function.update (run place first events cycle).taken (run place first events cycle).current
          ((run place first events cycle).taken (run place first events cycle).current + 1)⟩ :=
  if_pos takes

theorem run_passes {cycle : Nat} (passes : ¬Takes place first events cycle) :
    run place first events (cycle + 1) = run place first events cycle :=
  if_neg passes

/-- Where a follower has got to, and what it has taken on the way. -/
theorem run_turns (cycle : Nat) :
    (run place first events cycle).current = turn place first (turns place first events cycle) ∧
      ∀ client, (run place first events cycle).taken client =
        Nat.count (fun k => turn place first k = client) (turns place first events cycle) := by
  induction cycle with
  | zero => exact ⟨rfl, fun _ => rfl⟩
  | succ cycle ih =>
    obtain ⟨current, taken⟩ := ih
    rw [turns_succ]
    by_cases takes : Takes place first events cycle
    · rw [run_takes place first events takes, if_pos takes, current]
      refine ⟨rfl, ?_⟩
      intro client
      rw [Nat.count_succ, ← taken]
      by_cases own : turn place first (turns place first events cycle) = client
      · subst own
        simp
      · rw [if_neg own]
        exact Function.update_of_ne (Ne.symm own) _ _
    · rw [run_passes place first events takes, if_neg takes]
      exact ⟨current, taken⟩

/-- How often each client has been taken. -/
theorem taken_eq (client : Client) (cycle : Nat) :
    (run place first events cycle).taken client =
      (turns place first events cycle + (count - 1 - gap place first client)) / count := by
  rw [(run_turns place first events cycle).2, count_turn]

theorem turns_le (cycle : Nat) :
    turns place first events cycle ≤ (log events cycle).length := by
  rw [length_log]
  refine Nat.count_mono_left ?_
  intro edge _ takes
  have event : events edge = some _ := takes
  rw [event]
  rfl

/-- A follower has taken all the events exactly when they have come in the rotation. -/
theorem turns_eq_iff (cycle : Nat) :
    turns place first events cycle = (log events cycle).length ↔
      log events cycle = (List.range (log events cycle).length).map (turn place first) := by
  induction cycle with
  | zero => exact ⟨fun _ => rfl, fun _ => rfl⟩
  | succ cycle ih =>
    have bound := turns_le place first events cycle
    have current := (run_turns place first events cycle).1
    rw [turns_succ, log]
    cases event : events cycle with
    | none =>
      have passes : ¬Takes place first events cycle := by
        intro takes
        cases event.symm.trans takes
      rw [if_neg passes]
      simpa using ih
    | some client =>
      have takes : Takes place first events cycle ↔
          client = turn place first (turns place first events cycle) := by
        rw [Takes, event, current, Option.some.injEq]
      simp only [Option.toList_some, List.length_append, List.length_singleton, List.range_succ,
        List.map_append, List.map_cons, List.map_nil]
      constructor
      · intro all
        have here : Takes place first events cycle := by
          by_contra passes
          rw [if_neg passes] at all
          omega
        rw [if_pos here] at all
        have before : turns place first events cycle = (log events cycle).length :=
          Nat.succ_inj.mp all
        rw [← ih.mp before, ← before, ← takes.mp here]
      · intro same
        obtain ⟨front, last⟩ := List.append_inj same (by simp)
        have before := ih.mpr front
        have here : Takes place first events cycle := by
          rw [takes, before]
          exact List.singleton_inj.mp last
        rw [if_pos here, before]

end Follower

/-- Who is found behind `a` is the next one, in cyclic order, of those that are looked for. -/
theorem find?_behind {α : Type u} {wanted : α → Bool} {a : α} {before behind : List α}
    (distinct : (before ++ a :: behind).Nodup)
    (here : ((before ++ a :: behind).filter wanted)[i]? = some a)
    (several : 1 < ((before ++ a :: behind).filter wanted).length) :
    (behind ++ before).find? wanted = ((before ++ a :: behind).filter wanted)[
      (i + 1) % ((before ++ a :: behind).filter wanted).length]? := by
  have own : wanted a = true := (List.mem_filter.mp (List.mem_of_getElem? here)).2
  have once := distinct.filter wanted
  have parts : (before ++ a :: behind).filter wanted =
      before.filter wanted ++ a :: behind.filter wanted := by
    rw [List.filter_append, List.filter_cons_of_pos own]
  rw [← List.head?_filter, List.filter_append]
  rw [parts] at here several once ⊢
  generalize before.filter wanted = first at *
  generalize behind.filter wanted = second at *
  have there : (first ++ a :: second)[first.length]? = some a := by simp
  obtain rfl : i = first.length :=
    (List.getElem?_inj (List.getElem?_eq_some_iff.mp here).1 once).mp (here.trans there.symm)
  cases second with
  | nil =>
    -- the last one: the search starts again with the first
    cases first with
    | nil => simp at several
    | cons start more => simp
  | cons next more =>
    have inside : first.length + 1 < (first ++ a :: next :: more).length := by simp
    rw [Nat.mod_eq_of_lt inside, List.getElem?_append_right (Nat.le_succ _)]
    simp

end Rotation
