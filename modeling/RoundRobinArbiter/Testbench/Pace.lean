import RoundRobinArbiter.Testbench.Draining

namespace RoundRobinArbiter

open Synchronous

namespace Service

private theorem ready_ungranted {a : Service p} (ready : a.ready = true)
    (missed : a.grant i = none) : (a.step i).ready = true := by
  have edge := edge i a
  generalize a.step i = next at edge ⊢
  cases edge with
  | grant ready chosen => cases missed.symm.trans (grant_eq_some_iff.mpr ⟨ready, chosen⟩)
  | forget => rfl
  | rest => rfl
  | proceed => cases ready
  | finish => cases ready

private theorem forget_ungranted {a : Service p} (ready : a.ready = true) (asks : i.wants h = true)
    (missed : a.grant i = none) : a.step i = .idle none := by
  have edge := edge i a
  generalize a.step i = next at edge ⊢
  cases edge with
  | grant ready chosen => cases missed.symm.trans (grant_eq_some_iff.mpr ⟨ready, chosen⟩)
  | forget => rfl
  | rest _ silent => cases (silent h).symm.trans asks
  | proceed => cases ready
  | finish => cases ready

/-- Who requests at two edges in a row sees a grant at one of them. -/
theorem granted_soon {inputs : Nat → Inputs p} (ready : (run inputs cycle).ready = true)
    (asks : (inputs cycle).wants h = true) (again : (inputs (cycle + 1)).wants h = true) :
    grantAt inputs cycle ≠ none ∨ grantAt inputs (cycle + 1) ≠ none := by
  by_cases missed : grantAt inputs cycle = none
  · refine .inr fun vain => ?_
    have dummy : run inputs (cycle + 1) = .idle none := forget_ungranted ready asks missed
    change (run inputs (cycle + 1)).grant _ = none at vain
    rw [dummy] at vain
    cases pick_eq_none_iff.mp vain h again
  · exact .inl missed

end Service

namespace Trial

variable {trial : Trial p}

/-- The edges at which the rounds of a host are driven and granted. -/
structure Paced (trial : Trial p) (h : Host) (drive grant : Nat → Nat) : Prop where
  first : 0 < (trial.mail h).length → drive 0 = 1 + ((trial.draws 0).delay h).edges
  next : ∀ i, i + 1 < (trial.mail h).length →
    drive (i + 1) = grant i + 4 + ((trial.draws (grant i + 3)).delay h).edges
  after : ∀ i < (trial.mail h).length, drive i < grant i
  wants : ∀ i < (trial.mail h).length, ∀ cycle, drive i < cycle → cycle ≤ grant i + 3 →
    (trial.scenario.seen cycle).wants h = true
  only : ∀ cycle, (trial.scenario.seen cycle).wants h = true →
    ∃ i < (trial.mail h).length, drive i < cycle ∧ cycle ≤ grant i + 3
  granted : ∀ i < (trial.mail h).length, ∀ cycle, drive i < cycle → cycle ≤ grant i + 3 →
    (trial.scenario.grantAt cycle = some h ↔ cycle = grant i)

theorem paced (room : 2 < p.limit) (legal : trial.scenario.Legal) (h : Host) :
    ∃ drive grant, Paced trial h drive grant := by
  obtain ⟨rounds, told, performs, answered⟩ := bench_rounds room legal h
  have number : rounds.length = (trial.mail h).length := by
    rw [← told.given, List.length_map]
  let drive i := (rounds.map Round.drive).getD i 0
  let grant i := (rounds.map fun round => round.finish - 3).getD i 0
  have drives : ∀ i (below : i < rounds.length), drive i = rounds[i].drive := by
    intro i below
    simp [drive, below]
  have ends : ∀ i (below : i < rounds.length), grant i + 3 = rounds[i].finish := by
    intro i below
    obtain ⟨edge, _, finish, _⟩ := answered _ (List.getElem_mem below)
    simp [grant, below]
    omega
  have pairing : ∀ i (below : i < rounds.length), ∃ returned,
      Pairing trial.scenario h rounds[i].given returned (drive i) (grant i) (grant i + 3)
        (grant i + 3) := by
    intro i below
    obtain ⟨edge, _, finish, _, pairing⟩ := answered _ (List.getElem_mem below)
    obtain rfl : edge = grant i := by
      have last := ends i below
      omega
    rw [← finish] at *
    exact ⟨_, drives i below ▸ pairing⟩
  refine ⟨drive, grant, ?_, ?_, ?_, ?_, ?_, ?_⟩
  all_goals rw [← number]
  · intro some
    rw [drives 0 some, told.first some]
    exact congrArg (· + _) (Nat.zero_add 1)
  · intro i below
    have before := Nat.lt_of_succ_lt below
    rw [drives _ below, told.consecutive i below, ← ends i before]
    rfl
  · intro i below
    obtain ⟨_, pairing⟩ := pairing i below
    exact pairing.order.1
  · intro i below cycle behind within
    rw [ends i below] at within
    rw [drives i below] at behind
    have member : rounds[i].given ∈ trial.mail h :=
      told.given ▸ List.mem_map_of_mem (List.getElem_mem below)
    rw [Inputs.wants, Scenario.seen_host,
      performs.holds _ (List.getElem_mem below) cycle behind within]
    exact (legal h _ member).wants
  · intro cycle asks
    by_contra never
    rcases Nat.eq_zero_or_pos cycle with rfl | positive
    · cases asks
    have quiet := performs.quiet cycle positive fun round member => by
      obtain ⟨i, below, rfl⟩ := List.getElem_of_mem member
      by_contra inside
      rw [← drives i below, ← ends i below] at inside
      exact never ⟨i, below, by omega, by omega⟩
    cases quiet.symm.trans asks
  · intro i below cycle behind within
    obtain ⟨_, pairing⟩ := pairing i below
    exact pairing.granted cycle (Nat.le_of_lt behind) within

namespace Paced

variable {drive grant : Nat → Nat} (pace : Paced trial h drive grant)

include pace in
private theorem drive_le (i : Nat) (below : i < (trial.mail h).length) : drive 0 ≤ drive i := by
  induction i with
  | zero => exact Nat.le_refl _
  | succ i ih =>
    have inside := Nat.lt_of_succ_lt below
    have before := ih inside
    have after := pace.after i inside
    rw [pace.next i below]
    omega

include pace in
theorem silent (early : cycle ≤ drive 0) : (trial.scenario.seen cycle).wants h = false := by
  rw [← Bool.not_eq_true]
  intro asks
  obtain ⟨i, below, behind, _⟩ := pace.only cycle asks
  have first := pace.drive_le i below
  omega

include pace in
theorem granted_at (i : Nat) (below : i < (trial.mail h).length) :
    trial.scenario.grantAt (grant i) = some h :=
  (pace.granted i below _ (pace.after i below) (Nat.le_add_right _ 3)).mpr rfl

include pace in
private theorem round_of_grant (granted : trial.scenario.grantAt edge = some h) :
    ∃ i < (trial.mail h).length, edge = grant i := by
  have asks : (trial.scenario.seen edge).wants h = true := by
    rw [Scenario.grantAt_seen] at granted
    exact Service.grantFrom_wants granted
  obtain ⟨i, below, behind, within⟩ := pace.only edge asks
  exact ⟨i, below, (pace.granted i below edge behind within).mp granted⟩

include pace in
private theorem drive_soon (i : Nat) (below : i < (trial.mail h).length) (later : edge < grant i) :
    ∃ j < (trial.mail h).length, edge < grant j ∧ drive j ≤ edge + 14 := by
  induction i with
  | zero =>
    have bound := ((trial.draws 0).delay h).bounded
    exact ⟨0, below, later, by rw [pace.first below]; omega⟩
  | succ i ih =>
    have inside := Nat.lt_of_succ_lt below
    rcases Nat.lt_or_ge edge (grant i) with behind | past
    · exact ih inside behind
    · have bound := ((trial.draws (grant i + 3)).delay h).bounded
      exact ⟨i + 1, below, later, by rw [pace.next i below]; omega⟩

end Paced

/-- As long as there is another grant to come, it comes within 16 edges: a delay has at most
ten of them, and one may be lost to the dummy pointer. -/
theorem next_grant (room : 2 < p.limit) (legal : trial.scenario.Legal)
    (granted : trial.scenario.grantAt grant = some h)
    (other : trial.scenario.grantAt later = some g) (behind : grant < later) :
    ∃ next, grant < next ∧ next ≤ grant + 16 ∧ trial.scenario.grantAt next ≠ none := by
  by_contra! never
  have vain : ∀ k, grant < k → k ≤ grant + 16 → Service.grantAt trial.scenario.seen k = none :=
    fun k after within => (trial.scenario.grantAt_seen k).symm.trans (never k after within)
  obtain ⟨drives, grants, pace⟩ := paced room legal g
  obtain ⟨i, below, rfl⟩ := pace.round_of_grant other
  obtain ⟨j, inside, after, soon⟩ := pace.drive_soon i below behind
  have late : grant + 16 < grants j := by
    by_contra within
    cases (never _ after (Nat.le_of_not_lt within)).symm.trans (pace.granted_at j inside)
  have asks : ∀ k, grant + 15 ≤ k → k ≤ grant + 16 → (trial.scenario.seen k).wants g = true :=
    fun k _ _ => pace.wants j inside k (by omega) (by omega)
  have ready : ∀ k ≤ 12, (Service.run trial.scenario.seen (grant + 3 + k)).ready = true := by
    intro k within
    induction k with
    | zero =>
      rw [Nat.add_zero, (access_of_grant (Nat.lt_of_succ_lt room) granted).acked]
      rfl
    | succ k ih =>
      exact Service.ready_ungranted (ih (by omega)) (vain (grant + 3 + k) (by omega) (by omega))
  rcases Service.granted_soon (ready 12 (Nat.le_refl _)) (asks _ (by omega) (by omega))
    (asks _ (by omega) (by omega)) with first | second
  · exact first (vain _ (by omega) (by omega))
  · exact second (vain _ (by omega) (by omega))

end Trial

end RoundRobinArbiter
