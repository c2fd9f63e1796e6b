import RoundRobinArbiter.Arbiter.Access

namespace RoundRobinArbiter

open Synchronous

/-- Traces made of idle cycles and complete blocks. -/
inductive Blocks : List Stm → Prop where
  | nil : Blocks []
  | idle (earlier : Blocks trace) : Blocks (trace ++ [.idle])
  | block (earlier : Blocks trace) (h : Host) (op : Op) (more : Nat) :
      Blocks (trace ++ (List.replicate (more + 1) (.access h op) ++ [.ack h]))

/-- The part of a block that has no acknowledge cycle yet. -/
def Open : Service p → List Stm → Prop
  | .access h held _, tail => ∃ more, tail = List.replicate (more + 1) (Stm.access h held.op)
  | _, tail => tail = []

def trace (inputs : Nat → Inputs p) (cycles : Nat) : List (BitVec 13) :=
  (List.range cycles).map fun cycle => (Arbiter.run inputs cycle).astmStm

/-- One more cycle extends a parse: it closes the open block, lengthens it, opens
one or adds an idle cycle. -/
private theorem parse_step {a b : Service p} (edge : Service.Edge i a b)
    (complete : Blocks done) (tail : Open a open_) :
    ∃ done' open', done ++ open_ ++ [b.stm] = done' ++ open' ∧ Blocks done' ∧ Open b open' := by
  have closed : a.ready = true → open_ = [] := by
    intro ready
    cases a with
    | access h held elapsed => cases ready
    | _ => exact tail
  cases edge with
  | @grant _ h ready chosen =>
    have none := closed ready
    subst none
    exact ⟨done, _, by simp, complete, 0, rfl⟩
  | forget ready last alone =>
    have none := closed ready
    subst none
    exact ⟨done ++ [.idle], [], by simp, complete.idle, rfl⟩
  | rest ready silent =>
    have none := closed ready
    subst none
    exact ⟨done ++ [.idle], [], by simp, complete.idle, rfl⟩
  | @proceed h held elapsed waits within =>
    obtain ⟨more, same⟩ := tail
    subst same
    refine ⟨done, _, ?_, complete, more + 1, rfl⟩
    rw [List.append_assoc, Service.stm_access, ← List.replicate_succ']
  | @finish h held elapsed ends =>
    obtain ⟨more, same⟩ := tail
    subst same
    exact ⟨_, [], by simp, complete.block h held.op more, rfl⟩

private theorem trace_parses (inputs : Nat → Inputs p) (cycle : Nat) :
    ∃ done open_, trace inputs (cycle + 1) = (done ++ open_).map Stm.code ∧ Blocks done ∧
      Open (Service.run inputs cycle) open_ := by
  induction cycle with
  | zero => exact ⟨[.idle], [], rfl, .idle .nil, rfl⟩
  | succ cycle ih =>
    obtain ⟨done, open_, parsed, complete, tail⟩ := ih
    have edge := Service.edge (inputs cycle) (Service.run inputs cycle)
    obtain ⟨done', open', extended, complete', tail'⟩ := parse_step edge complete tail
    refine ⟨done', open', ?_, complete', tail'⟩
    have last : (Arbiter.run inputs (cycle + 1)).astmStm = _ := (refines_run inputs (cycle + 1)).stm
    have earlier : trace inputs (cycle + 1 + 1) =
        trace inputs (cycle + 1) ++ [(Arbiter.run inputs (cycle + 1)).astmStm] := by
      simp [trace, List.range_succ]
    have mapped := congrArg (List.map Stm.code) extended
    rw [List.map_append] at mapped
    rw [earlier, parsed, last]
    exact mapped

/-- Grants and completions of a run alternate and match. -/
structure Alternation (inputs : Nat → Inputs p) : Prop where
  parses : ∀ cycles, ∃ done tail, trace inputs cycles = (done ++ tail).map Stm.code ∧
    Blocks done ∧ (tail = [] ∨ ∃ h op more, tail = List.replicate (more + 1) (.access h op))
  ends : ∀ cycle h, (Arbiter.run inputs cycle).accessing h = true →
    if (inputs cycle).ackBus || (Arbiter.run inputs cycle).timeout then
      (Arbiter.run inputs (cycle + 1)).acking h = true
    else (Arbiter.run inputs (cycle + 1)).astmStm = (Arbiter.run inputs cycle).astmStm
  closes : ∀ cycle h, (Arbiter.run inputs cycle).accessing h = true →
    ∃ finish, cycle < finish ∧ (Arbiter.run inputs finish).acking h = true ∧
      ∀ between, cycle ≤ between → between < finish →
        (Arbiter.run inputs between).astmStm = (Arbiter.run inputs cycle).astmStm
  balance : ∀ cycle h,
    Nat.count (fun edge => Arbiter.grantAt inputs edge = some h) cycle =
      Nat.count (fun earlier => (Arbiter.run inputs earlier).acking h = true) (cycle + 1) +
        if (Arbiter.run inputs cycle).accessing h then 1 else 0
  separated : ∀ first second, first < second →
    (Arbiter.run inputs first).busy = true → (Arbiter.run inputs second).busy = true →
    (∃ between, first < between ∧ between < second ∧ (Arbiter.run inputs between).busy = false) ∨
      ((Arbiter.run inputs second).astmStm = (Arbiter.run inputs first).astmStm ∧
        ∀ edge, first ≤ edge → edge < second → Arbiter.grantAt inputs edge = none)

/-- One edge pays for a grant with an access, and for an acknowledge with its end. -/
private theorem edge_balance {a b : Service p} (edge : Service.Edge i a b) (h : Host) :
    (if a.grant i = some h then 1 else 0) + (if a.client = some h then 1 else 0) =
      (if b.acked = some h then 1 else 0) + (if b.client = some h then 1 else 0) := by
  cases edge with
  | @grant _ g ready chosen =>
    have granted : a.grant i = some g := Service.grant_eq_some_iff.mpr ⟨ready, chosen⟩
    rw [granted, Service.client_ready ready]
    simp [Service.acked, Service.client]
  | forget ready last alone =>
    rw [Service.client_ready ready, Service.grant, ready, pick_alone last alone]
    simp [Service.acked, Service.client]
  | rest ready silent =>
    rw [Service.client_ready ready, Service.grant, ready, pick_silent silent]
    simp [Service.acked, Service.client]
  | proceed waits within => simp [Service.grant, Service.ready, Service.acked, Service.client]
  | finish ends => simp [Service.grant, Service.ready, Service.acked, Service.client]

theorem grants_balance (inputs : Nat → Inputs p) (cycle : Nat) (h : Host) :
    Nat.count (fun edge => Service.grantAt inputs edge = some h) cycle =
      Nat.count (fun earlier => (Service.run inputs earlier).acked = some h) (cycle + 1) +
        if (Service.run inputs cycle).client = some h then 1 else 0 := by
  induction cycle with
  | zero => rfl
  | succ cycle ih =>
    have edge := Service.edge (inputs cycle) (Service.run inputs cycle)
    have paid := edge_balance edge h
    change _ + _ = (if (Service.run inputs (cycle + 1)).acked = some h then 1 else 0) +
      (if (Service.run inputs (cycle + 1)).client = some h then 1 else 0) at paid
    change (if Service.grantAt inputs cycle = some h then 1 else 0) + _ = _ at paid
    rw [Nat.count_succ, Nat.count_succ]
    omega

private theorem parsed (inputs : Nat → Inputs p) (cycles : Nat) :
    ∃ done tail, trace inputs cycles = (done ++ tail).map Stm.code ∧ Blocks done ∧
      (tail = [] ∨ ∃ h op more, tail = List.replicate (more + 1) (.access h op)) := by
  cases cycles with
  | zero => exact ⟨[], [], rfl, .nil, .inl rfl⟩
  | succ cycle =>
    obtain ⟨done, tail, parsed, complete, open_⟩ := trace_parses inputs cycle
    refine ⟨done, tail, parsed, complete, ?_⟩
    cases situation : Service.run inputs cycle with
    | access h held elapsed =>
      rw [situation] at open_
      obtain ⟨more, same⟩ := open_
      exact .inr ⟨h, held.op, more, same⟩
    | _ =>
      rw [situation] at open_
      exact .inl open_

private theorem access_goes (inputs : Nat → Inputs p)
    (runs : (Arbiter.run inputs cycle).accessing h = true) :
    if (inputs cycle).ackBus || (Arbiter.run inputs cycle).timeout then
      (Arbiter.run inputs (cycle + 1)).acking h = true
    else (Arbiter.run inputs (cycle + 1)).astmStm = (Arbiter.run inputs cycle).astmStm := by
  have refines := refines_run inputs cycle
  obtain ⟨held, elapsed, running⟩ := refines.accessing_iff.mp runs
  have stm := refines.stm
  rw [running] at refines stm
  have limit := refines.timeout
  rcases Service.access_next running with ⟨waits, within, next, _, after⟩ | ⟨stops, acked⟩
  · have open_ : (Arbiter.run inputs cycle).timeout = false := by
      rw [← Bool.not_eq_true, limit]
      omega
    have stm' := (refines_run inputs (cycle + 1)).stm
    rw [show Service.run inputs (cycle + 1) = _ from after] at stm'
    simp only [waits, open_, Bool.or_self, Bool.false_eq_true, ↓reduceIte]
    rw [stm, stm']
    rfl
  · rw [← limit, ← Bool.or_eq_true] at stops
    rw [if_pos stops]
    exact (refines_run inputs (cycle + 1)).acking_iff.mpr acked

private theorem busy_stretch (inputs : Nat → Inputs p) {first second : Nat}
    (ordered : first ≤ second)
    (busy : ∀ cycle, first ≤ cycle → cycle ≤ second → (Arbiter.run inputs cycle).busy = true) :
    ∃ h held, ∀ cycle, first ≤ cycle → cycle ≤ second →
      ∃ now, Service.run inputs cycle = .access h held now := by
  have active : ∀ cycle, first ≤ cycle → cycle ≤ second →
      (Service.run inputs cycle).ready = false := by
    intro cycle after before
    have seen := busy cycle after before
    rwa [(refines_run inputs cycle).busy, Bool.not_eq_true'] at seen
  obtain ⟨h, held, elapsed, running⟩ :=
    Service.access_of_not_ready (active first (Nat.le_refl _) ordered)
  refine ⟨h, held, ?_⟩
  intro cycle after before
  obtain ⟨k, rfl⟩ := Nat.exists_eq_add_of_le after
  exact Service.access_persists running k fun j below => active _ (by omega) (by omega)

private theorem stretches_separated (inputs : Nat → Inputs p) {first second : Nat}
    (before : first < second) (active : (Arbiter.run inputs first).busy = true)
    (later : (Arbiter.run inputs second).busy = true) :
    (∃ between, first < between ∧ between < second ∧
        (Arbiter.run inputs between).busy = false) ∨
      ((Arbiter.run inputs second).astmStm = (Arbiter.run inputs first).astmStm ∧
        ∀ edge, first ≤ edge → edge < second → Arbiter.grantAt inputs edge = none) := by
  by_cases quiet : ∃ between, first < between ∧ between < second ∧
      (Arbiter.run inputs between).busy = false
  · exact .inl quiet
  · right
    have busy : ∀ cycle, first ≤ cycle → cycle ≤ second →
        (Arbiter.run inputs cycle).busy = true := by
      intro cycle after inside
      by_contra idle
      rcases Nat.eq_or_lt_of_le after with start | above
      · exact idle (start ▸ active)
      · rcases Nat.eq_or_lt_of_le inside with final | below
        · exact idle (final ▸ later)
        · exact quiet ⟨cycle, above, below, Bool.eq_false_iff.mpr idle⟩
    obtain ⟨h, held, still⟩ := busy_stretch inputs (Nat.le_of_lt before) busy
    constructor
    · obtain ⟨_, running⟩ := still first (Nat.le_refl _) (Nat.le_of_lt before)
      obtain ⟨_, final⟩ := still second (Nat.le_of_lt before) (Nat.le_refl _)
      rw [(refines_run inputs second).stm, (refines_run inputs first).stm, final, running]
      rfl
    · intro edge after below
      obtain ⟨_, inside⟩ := still edge after (Nat.le_of_lt below)
      rw [grantAt_eq]
      exact Service.grantFrom_running inside

theorem alternation (inputs : Nat → Inputs p) : Alternation inputs where
  parses := parsed inputs
  ends _ _ runs := access_goes inputs runs
  closes cycle h runs := by
    have refines := refines_run inputs cycle
    obtain ⟨held, elapsed, running⟩ := refines.accessing_iff.mp runs
    obtain ⟨finish, later, _, acked, own⟩ := Service.access_ends running
    refine ⟨finish, later, (refines_run inputs finish).acking_iff.mpr acked, ?_⟩
    intro between after before
    obtain ⟨count, still⟩ := own between after before
    rw [refines.stm, (refines_run inputs between).stm, running]
    exact congrArg (fun a => a.stm.code) still
  balance cycle h := by
    have balanced := grants_balance inputs cycle h
    simp only [grantAt_eq, (refines_run inputs _).acking, (refines_run inputs _).accessing,
      beq_iff_eq]
    exact balanced
  separated _ _ before active later := stretches_separated inputs before active later

end RoundRobinArbiter
