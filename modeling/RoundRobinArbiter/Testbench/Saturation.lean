import RoundRobinArbiter.Rotation.Following
import RoundRobinArbiter.Testbench.Monitor
import RoundRobinArbiter.Testbench.Responder

namespace RoundRobinArbiter

open Synchronous Rotation

theorem pick_lone {wants : Host → Bool} (other : pointer ≠ some h) (asks : wants h = true)
    (alone : ∀ g, wants g = true → g = h) : pick pointer wants = some h := by
  cases chosen : pick pointer wants with
  | none => exact absurd (pick_eq_none_iff.mp chosen h asks) other
  | some g => rw [alone g (pick_wants chosen)]

private theorem pick_crowded (wants : Host → Bool) (one : wants g = true) (other : wants h = true)
    (different : g ≠ h) (last : Host) : ∃ chosen, pick (some last) wants = some chosen := by
  rw [← Option.ne_none_iff_exists', Ne, pick_eq_none_iff]
  intro only
  exact different ((Option.some.inj (only g one)).symm.trans (Option.some.inj (only h other)))

/-- The hosts that request, in the order of the rotation. -/
def order (asks : Host → Bool) : List Host :=
  [Host.slave, Host.test, Host.extra, Host.master].filter asks

private theorem pick_behind {asks : Host → Bool} (here : (order asks)[i]? = some g)
    (several : 1 < (order asks).length) :
    pick (some g) asks = (order asks)[(i + 1) % (order asks).length]? := by
  cases g with
  | slave => exact @find?_behind i Host asks .slave [] _ (by decide) here several
  | test => exact @find?_behind i Host asks .test [.slave] _ (by decide) here several
  | extra => exact @find?_behind i Host asks .extra [.slave, .test] _ (by decide) here several
  | master =>
    exact @find?_behind i Host asks .master [.slave, .test, .extra] [] (by decide) here several

private theorem pick_start {asks : Host → Bool} (several : 1 < (order asks).length) :
    pick (some .master) asks = (order asks)[0]? := by
  have parts : order asks = (scan (some .master)).filter asks ++ [Host.master].filter asks := by
    rw [← List.filter_append]
    rfl
  rw [pick, ← List.head?_filter]
  rw [parts] at several ⊢
  cases first : (scan (some .master)).filter asks with
  | nil =>
    have most := List.length_filter_le asks [Host.master]
    rw [first, List.nil_append] at several
    exact absurd several (Nat.not_lt_of_le most)
  | cons h rest => rfl

namespace Served

variable {demands : Nat → Demand p}

/-- At every edge at least two hosts request. -/
def Crowded (demands : Nat → Demand p) : Prop :=
  ∀ edge, ∃ g h, g ≠ h ∧ ((demands edge).host g).wants = true ∧
    ((demands edge).host h).wants = true

/-- Before an edge the arbiter is ready, with a host that was served last. -/
def ReadyBehind (demands : Nat → Demand p) (edge : Nat) (last : Host) : Prop :=
  (view (some .master) .reset demands edge).ready = true ∧
    (view (some .master) .reset demands edge).pointer = some last

theorem ReadyBehind.start : ReadyBehind demands 0 .master := ⟨rfl, rfl⟩

theorem ReadyBehind.grants (ready : ReadyBehind demands edge last)
    (chosen : pick (some last) (seen .reset demands edge).wants = some h) :
    grantAt .reset demands edge = some h := by
  rw [grantAt_view .reset]
  refine Service.grant_eq_some_iff.mpr ⟨ready.1, ?_⟩
  have pointer : (Service.runFrom (.idle (some .master)) (seen .reset demands) edge).pointer =
    some last := ready.2
  rw [pointer]
  exact chosen

theorem behind_grant (room : 1 < p.limit) (granted : grantAt .reset demands edge = some h) :
    grantAt .reset demands (edge + 1) = none ∧ grantAt .reset demands (edge + 2) = none ∧
      ReadyBehind demands (edge + 3) h := by
  obtain ⟨held, second, one, two, acked⟩ := view_granted .reset room granted
  refine ⟨?_, ?_, ?_, ?_⟩
  · rw [grantAt_view .reset]
    exact Service.grantFrom_running one
  · rw [grantAt_view .reset]
    exact Service.grantFrom_running two
  · rw [acked]
    rfl
  · rw [acked]
    rfl

/-- Under load the arbiter is ready at every third edge. -/
theorem ready_crowded (room : 1 < p.limit) (crowded : Crowded demands) (k : Nat) :
    ∃ last h, ReadyBehind demands (3 * k) last ∧ grantAt .reset demands (3 * k) = some h := by
  have grants : ∀ edge last, ReadyBehind demands edge last →
      ∃ h, grantAt .reset demands edge = some h := by
    intro edge last ready
    obtain ⟨g, h, different, one, other⟩ := crowded edge
    obtain ⟨chosen, picked⟩ := pick_crowded (seen .reset demands edge).wants one other
      different last
    exact ⟨chosen, ready.grants picked⟩
  induction k with
  | zero =>
    obtain ⟨h, granted⟩ := grants 0 .master .start
    exact ⟨.master, h, .start, granted⟩
  | succ k ih =>
    obtain ⟨_, h, _, granted⟩ := ih
    obtain ⟨_, _, ready⟩ := behind_grant room granted
    obtain ⟨next, again⟩ := grants _ h ready
    exact ⟨h, next, ready, again⟩

private theorem granted_third (third : ∀ k, (grantAt .reset demands (3 * k)).isSome = true ∧
      grantAt .reset demands (3 * k + 1) = none ∧ grantAt .reset demands (3 * k + 2) = none)
    (edge : Nat) : (grantAt .reset demands edge).isSome = true ↔ 3 ∣ edge := by
  obtain ⟨granted, first, second⟩ := third (edge / 3)
  have position := Nat.div_add_mod edge 3
  have small := Nat.mod_lt edge (show 0 < 3 by decide)
  rw [Nat.dvd_iff_mod_eq_zero]
  generalize edge % 3 = rest at position small ⊢
  rw [← position]
  match rest, small with
  | 0, _ => simpa using granted
  | 1, _ => simp [first]
  | 2, _ => simp [second]

/-- Where at least two hosts request at every edge, whichever they are, there is a grant at
every third edge and at no other: no edge is lost. -/
theorem no_edge_lost (room : 1 < p.limit) (crowded : Crowded demands) (edge : Nat) :
    (grantAt .reset demands edge).isSome = true ↔ 3 ∣ edge := by
  refine granted_third ?_ edge
  intro k
  obtain ⟨_, h, _, granted⟩ := ready_crowded room crowded k
  obtain ⟨first, second, _⟩ := behind_grant room granted
  exact ⟨Option.isSome_iff_exists.mpr ⟨h, granted⟩, first, second⟩

theorem no_edge_lost_default :
    (grantAt .reset (fun _ => (⟨fun _ => .reading 0, 7⟩ : Demand .default)) 12).isSome = true ↔
      3 ∣ 12 :=
  no_edge_lost (by decide) (fun _ => ⟨.master, .slave, by decide, rfl, rfl⟩) 12

private theorem grants_crowded (room : 1 < p.limit) (crowded : Crowded demands) (k : Nat) :
    grants .reset demands (3 * k) = k := by
  induction k with
  | zero => rfl
  | succ k ih =>
    obtain ⟨_, h, _, granted⟩ := ready_crowded room crowded k
    obtain ⟨first, second, _⟩ := behind_grant room granted
    rw [grants] at ih
    rw [grants, Nat.mul_succ, Nat.count_succ, Nat.count_succ, Nat.count_succ, ih]
    simp [granted, first, second]

/-- All hosts read at every edge. -/
def allReading (_ : Nat) : Demand .default := ⟨fun _ => .reading 0, 7⟩

/-- The counter of the responder is an `int`: where all hosts read for ever it does not show
the `2 ^ 31`-st grant. -/
theorem counter_wraps :
    ¬∀ (start : Arbiter .default) (demands : Nat → Demand .default),
      (Arbiter.resettable .default).Reachable start → start.astmStm = astmIdle →
      ∀ cycle, (arbiterAt start demands cycle).busy = false →
        (responderAt start demands cycle).numTransactions.toInt = grants start demands cycle := by
  intro counts
  have room : 1 < Params.limit .default := by decide
  have crowded : Crowded allReading := fun _ => ⟨.master, .slave, by decide, rfl, rfl⟩
  obtain ⟨_, _, ready, _⟩ := ready_crowded room crowded (2 ^ 31)
  have quiet : (arbiterAt .reset allReading (3 * 2 ^ 31)).busy = false := by
    rw [(refines_view allReading .reset _).busy, ready.1]
    rfl
  have counted := counts .reset allReading .init rfl _ quiet
  have small := (responderAt .reset allReading (3 * 2 ^ 31)).numTransactions.toInt_lt
  rw [counted, grants_crowded room crowded] at small
  exact absurd small (by decide)

/-- The first edge at which a lone host can be granted. -/
def lead (h : Host) : Nat := if h = .master then 1 else 0

/-- The grant at an edge under a load that never changes. The hosts that request take turns
in the order of the rotation, one at every third edge; a lone one loses an edge to the dummy
pointer behind each of its accesses, and the Master one more at the start. -/
def staticGrant (asks : Host → Bool) (edge : Nat) : Option Host :=
  match order asks with
  | [] => none
  | [h] => if edge % 4 = lead h then some h else none
  | first :: second :: rest =>
    if 3 ∣ edge then (first :: second :: rest)[edge / 3 % (rest.length + 2)]? else none

section Static

variable {asks : Host → Bool}

private theorem ready_several (room : 1 < p.limit)
    (static : ∀ edge h, ((demands edge).host h).wants = asks h)
    (several : 1 < (order asks).length) (k : Nat) : ∃ last h, ReadyBehind demands (3 * k) last ∧
      (order asks)[k % (order asks).length]? = some h ∧
      grantAt .reset demands (3 * k) = some h := by
  have load : ∀ edge, (seen .reset demands edge).wants = asks := fun edge => funext (static edge)
  have turn : ∀ k, ∃ h, (order asks)[k % (order asks).length]? = some h := fun k =>
    ⟨_, List.getElem?_eq_getElem (Nat.mod_lt k (Nat.lt_of_succ_lt several))⟩
  induction k with
  | zero =>
    obtain ⟨h, first⟩ := turn 0
    refine ⟨.master, h, .start, first, ReadyBehind.start.grants ?_⟩
    rw [load, pick_start several, ← first, Nat.zero_mod]
  | succ k ih =>
    obtain ⟨_, g, _, here, granted⟩ := ih
    obtain ⟨_, _, ready⟩ := behind_grant room granted
    obtain ⟨h, next⟩ := turn (k + 1)
    refine ⟨g, h, ready, next, ready.grants ?_⟩
    rw [load, pick_behind here several, Nat.mod_add_mod]
    exact next

/-- A lone host that the pointer does not pass over is granted; behind its access an edge is
lost, and the pointer with it. -/
private theorem lone_round (room : 1 < p.limit)
    (alone : ∀ edge g, ((demands edge).host g).wants = true ↔ g = h)
    (ready : (view (some .master) .reset demands edge).ready = true)
    (free : (view (some .master) .reset demands edge).pointer ≠ some h) :
    (grantAt .reset demands edge = some h ∧
      ∀ k, 0 < k → k < 4 → grantAt .reset demands (edge + k) = none) ∧
    view (some .master) .reset demands (edge + 4) = .idle none := by
  have granted : grantAt .reset demands edge = some h := by
    rw [grantAt_view .reset]
    exact Service.grant_eq_some_iff.mpr
      ⟨ready, pick_lone free ((alone edge h).mpr rfl) fun g => (alone edge g).mp⟩
  obtain ⟨first, second, behind, last⟩ := behind_grant room granted
  have lost : grantAt .reset demands (edge + 3) = none := by
    rw [grantAt_view .reset]
    change (view (some .master) .reset demands (edge + 3)).grant _ = none
    rw [Service.grant, if_pos behind]
    exact pick_alone last (alone (edge + 3))
  refine ⟨⟨granted, ?_⟩, Service.step_forget behind last (alone (edge + 3))⟩
  intro k positive below
  obtain rfl | rfl | rfl : k = 1 ∨ k = 2 ∨ k = 3 := by omega
  · exact first
  · exact second
  · exact lost

private theorem lone_ready (room : 1 < p.limit)
    (alone : ∀ edge g, ((demands edge).host g).wants = true ↔ g = h) (k : Nat) :
    (view (some .master) .reset demands (lead h + 4 * k)).ready = true ∧
      (view (some .master) .reset demands (lead h + 4 * k)).pointer ≠ some h := by
  induction k with
  | zero =>
    by_cases master : h = .master
    · subst master
      have asks : ∀ g, (seen .reset demands 0).wants g = true ↔ g = .master := alone 0
      have first : view (some .master) .reset demands (lead .master + 4 * 0) = .idle none :=
        @Service.step_forget _ .master _ (.idle (some .master)) rfl rfl asks
      rw [first]
      exact ⟨rfl, (Option.some_ne_none _).symm⟩
    · rw [lead, if_neg master]
      exact ⟨rfl, fun same => master (Option.some.inj same).symm⟩
  | succ k ih =>
    have idle := (lone_round room alone ih.1 ih.2).2
    rw [Nat.mul_succ, ← Nat.add_assoc, idle]
    exact ⟨rfl, (Option.some_ne_none _).symm⟩

private theorem lone_load (room : 1 < p.limit)
    (alone : ∀ edge g, ((demands edge).host g).wants = true ↔ g = h) (edge : Nat) :
    grantAt .reset demands edge = if edge % 4 = lead h then some h else none := by
  have soon : lead h ≤ 1 := by
    unfold lead
    split <;> decide
  rcases Nat.lt_or_ge edge (lead h) with early | late
  · obtain rfl : edge = 0 := by omega
    obtain rfl : h = .master := by
      by_contra other
      rw [lead, if_neg other] at early
      exact Nat.not_lt_zero 0 early
    rw [grantAt_view .reset]
    exact pick_alone rfl (alone 0)
  · obtain ⟨n, rfl⟩ := Nat.exists_eq_add_of_le late
    obtain ⟨ready, free⟩ := lone_ready room alone (n / 4)
    obtain ⟨granted, silent⟩ := (lone_round room alone ready free).1
    have position := Nat.div_add_mod n 4
    rcases Nat.eq_zero_or_pos (n % 4) with whole | rest
    · rw [if_pos (by omega), ← granted]
      congr 1
      omega
    · rw [if_neg (by omega), ← silent (n % 4) rest (Nat.mod_lt n (by decide))]
      congr 1
      omega

end Static

private theorem mem_order {asks : Host → Bool} : h ∈ order asks ↔ asks h = true := by
  rw [order, List.mem_filter]
  exact and_iff_right (by cases h <;> decide)

/-- The schedule under every load that never changes. -/
theorem static_load (room : 1 < p.limit) (asks : Host → Bool)
    (static : ∀ edge h, ((demands edge).host h).wants = asks h) (edge : Nat) :
    grantAt .reset demands edge = staticGrant asks edge := by
  unfold staticGrant
  split
  · rename_i nobody
    cases granted : grantAt .reset demands edge with
    | none => rfl
    | some h =>
      rw [grantAt_view .reset] at granted
      have asked : asks h = true := static edge h ▸ Service.grantFrom_wants granted
      rw [← mem_order, nobody] at asked
      cases asked
  · rename_i h lone
    refine lone_load room (fun edge g => ?_) edge
    rw [static, ← mem_order, lone, List.mem_singleton]
  · rename_i first second rest turns
    have several : 1 < (order asks).length := by simp [turns]
    have length : (order asks).length = rest.length + 2 := by simp [turns]
    have third : (grantAt .reset demands edge).isSome = true ↔ 3 ∣ edge := granted_third ?_ edge
    · split
      · rename_i divides
        obtain ⟨k, rfl⟩ := divides
        obtain ⟨_, h, _, here, granted⟩ := ready_several room static several k
        rw [granted, Nat.mul_div_cancel_left k (by decide), ← turns, ← length, here]
      · rename_i other
        rw [← third, Bool.not_eq_true, Option.isSome_eq_false_iff, Option.isNone_iff_eq_none]
          at other
        exact other
    · intro k
      obtain ⟨_, h, _, _, granted⟩ := ready_several room static several k
      obtain ⟨one, two, _⟩ := behind_grant room granted
      exact ⟨by rw [granted]; rfl, one, two⟩

theorem static_load_default :
    grantAt .reset (fun _ => (⟨fun h => if h = .slave then .silent else .reading 0, 7⟩ :
      Demand .default)) 12 = staticGrant (fun h => h != .slave) 12 :=
  static_load (by decide) _ (fun _ h => by cases h <;> rfl) 12

end Served

end RoundRobinArbiter
