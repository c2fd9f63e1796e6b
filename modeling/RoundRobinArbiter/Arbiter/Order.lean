import RoundRobinArbiter.Arbiter.Access

/-! The order of service. The pointer remembers who was served last until an edge
at which that host requests alone; from then to the next grant the arbiter scans
in the fixed order. Either way a host that keeps requesting moves forward at
every grant, which bounds how often it is passed over. -/

namespace RoundRobinArbiter

open Synchronous

/-- The first of the requesting hosts in the cyclic order Master, Slave, Test,
Extra that starts just after `last`; `last` itself comes last. -/
def FirstAfter (last : Host) (i : Inputs p) (h : Host) : Prop :=
  Rotation.First Host.place (fun g => i.wants g = true) last h

/-- The host granted last before `edge`; after reset the Master counts as granted. -/
def lastGranted (inputs : Nat → Inputs p) (edge : Nat) : Host :=
  latest (Arbiter.grantAt inputs) .master edge

/-- Since its last grant the arbiter has looked at requests at an edge at which
the host granted last was the only one to request. -/
def Forgotten (inputs : Nat → Inputs p) (edge : Nat) : Prop :=
  ∃ earlier < edge, (∀ between, earlier ≤ between → between < edge →
      Arbiter.grantAt inputs between = none) ∧
    (Arbiter.run inputs earlier).arbitrating = true ∧
    ∀ h, (inputs earlier).wants h = true ↔ h = lastGranted inputs earlier

private theorem forgotten_succ (inputs : Nat → Inputs p) (edge : Nat) :
    Forgotten inputs (edge + 1) ↔ Arbiter.grantAt inputs edge = none ∧
      (Forgotten inputs edge ∨ (Arbiter.run inputs edge).arbitrating = true ∧
        ∀ h, (inputs edge).wants h = true ↔ h = lastGranted inputs edge) := by
  constructor
  · rintro ⟨earlier, before, quiet, arbitrating, alone⟩
    refine ⟨quiet edge (by omega) (Nat.lt_succ_self edge), ?_⟩
    rcases Nat.eq_or_lt_of_le (Nat.le_of_lt_succ before) with same | further
    · subst earlier
      exact .inr ⟨arbitrating, alone⟩
    · exact .inl ⟨earlier, further, fun between after inside =>
        quiet between after (Nat.lt_succ_of_lt inside), arbitrating, alone⟩
  · rintro ⟨none, ⟨earlier, before, quiet, arbitrating, alone⟩ | ⟨arbitrating, alone⟩⟩
    · refine ⟨earlier, Nat.lt_succ_of_lt before, ?_, arbitrating, alone⟩
      intro between after inside
      rcases Nat.eq_or_lt_of_le (Nat.le_of_lt_succ inside) with same | further
      · subst between
        exact none
      · exact quiet between after further
    · refine ⟨edge, Nat.lt_succ_self edge, ?_, arbitrating, alone⟩
      intro between after inside
      have same : between = edge := by omega
      subst between
      exact none

private theorem lastGranted_succ (inputs : Nat → Inputs p) (edge : Nat) :
    lastGranted inputs (edge + 1) =
      (Arbiter.grantAt inputs edge).getD (lastGranted inputs edge) := rfl

/-- What one edge does to the pointer: a grant sets it, a lone request of the host
it names clears it, and nothing else touches it. -/
theorem Service.Edge.pointer {a b : Service p} (edge : Service.Edge i a b) :
    (∃ h, a.grant i = some h ∧ b.pointer = some h) ∨
      (a.grant i = none ∧ a.ready = true ∧ b.pointer = none ∧
        ∃ l, a.pointer = some l ∧ ∀ g, i.wants g = true ↔ g = l) ∨
      (a.grant i = none ∧ b.pointer = a.pointer ∧
        (a.ready = true → ∀ l, ¬∀ g, i.wants g = true ↔ g = l)) := by
  cases edge with
  | @grant _ h ready chosen =>
    exact .inl ⟨h, Service.grant_eq_some_iff.mpr ⟨ready, chosen⟩, rfl⟩
  | @forget _ h ready last alone =>
    refine .inr (.inl ⟨?_, ready, rfl, h, last, alone⟩)
    rw [Service.grant, ready, pick_alone last alone]
    rfl
  | rest ready silent =>
    refine .inr (.inr ⟨?_, rfl, ?_⟩)
    · rw [Service.grant, ready, pick_silent silent]
      rfl
    · intro _ l alone
      have asks := (alone l).mpr rfl
      simp [silent l] at asks
  | proceed waits within =>
    refine .inr (.inr ⟨rfl, rfl, ?_⟩)
    intro ready
    cases ready
  | finish ends =>
    refine .inr (.inr ⟨rfl, rfl, ?_⟩)
    intro ready
    cases ready

theorem pointer_remembers (inputs : Nat → Inputs p) (edge : Nat) :
    (Forgotten inputs edge ∧ (Service.run inputs edge).pointer = none) ∨
      (¬Forgotten inputs edge ∧
        (Service.run inputs edge).pointer = some (lastGranted inputs edge)) := by
  induction edge with
  | zero =>
    refine .inr ⟨?_, rfl⟩
    rintro ⟨earlier, before, _⟩
    omega
  | succ edge ih =>
    have step := (Service.edge (inputs edge) (Service.run inputs edge)).pointer
    have granted : Arbiter.grantAt inputs edge = (Service.run inputs edge).grant (inputs edge) :=
      grantAt_eq inputs edge
    change _ ∨ (_ ∧ _ ∧ (Service.run inputs (edge + 1)).pointer = none ∧ _) ∨ _ at step
    rw [forgotten_succ, lastGranted_succ, granted, (refines_run inputs edge).arbitrating]
    rcases step with ⟨h, chosen, pointer⟩ | ⟨none, ready, pointer, l, last, alone⟩ |
      ⟨none, pointer, others⟩
    · refine .inr ⟨?_, ?_⟩
      · simp [chosen]
      · rw [chosen]
        exact pointer
    · refine .inl ⟨⟨none, ?_⟩, pointer⟩
      rcases ih with ⟨forgotten, lost⟩ | ⟨_, kept⟩
      · exact .inl forgotten
      · rw [last] at kept
        cases kept
        exact .inr ⟨ready, alone⟩
    · have kept : (Service.run inputs (edge + 1)).pointer = (Service.run inputs edge).pointer :=
        pointer
      rw [none, kept, Option.getD_none]
      rcases ih with ⟨forgotten, lost⟩ | ⟨remembered, named⟩
      · exact .inl ⟨⟨rfl, .inl forgotten⟩, lost⟩
      · refine .inr ⟨?_, named⟩
        rintro ⟨_, forgotten | ⟨ready, alone⟩⟩
        · exact remembered forgotten
        · exact others ready _ alone

private theorem forgotten_iff (inputs : Nat → Inputs p) (edge : Nat) :
    Forgotten inputs edge ↔ (Arbiter.run inputs edge).currentM = nextDumy := by
  rw [(refines_run inputs edge).pointer]
  rcases pointer_remembers inputs edge with ⟨forgotten, lost⟩ | ⟨remembered, named⟩
  · rw [lost]
    exact iff_of_true forgotten rfl
  · rw [named]
    refine iff_of_false remembered ?_
    cases lastGranted inputs edge <;> decide

/-- Every grant goes to the first requester in the cyclic order behind the host granted
last, or in the fixed order Master, Slave, Test, Extra, which is the order behind the Extra
host, when that host was forgotten; until then the pointer is the dummy. -/
theorem grant_order (inputs : Nat → Inputs p) (edge : Nat) :
    (∀ h, Arbiter.grantAt inputs edge = some h →
      (¬Forgotten inputs edge → FirstAfter (lastGranted inputs edge) (inputs edge) h) ∧
        (Forgotten inputs edge → FirstAfter .extra (inputs edge) h)) ∧
      (Forgotten inputs edge ↔ (Arbiter.run inputs edge).currentM = nextDumy) := by
  refine ⟨?_, forgotten_iff inputs edge⟩
  intro h granted
  rw [grantAt_eq] at granted
  have first := pick_first (Service.grant_eq_some_iff.mp granted).2
  change Rotation.First Host.place _ (served (Service.run inputs edge).pointer) h at first
  rcases pointer_remembers inputs edge with ⟨forgotten, lost⟩ | ⟨remembered, named⟩
  · rw [lost] at first
    exact ⟨fun remembered => absurd forgotten remembered, fun _ => first⟩
  · rw [named] at first
    exact ⟨fun _ => first, fun forgotten => absurd forgotten remembered⟩

/-- The Master requests alone after reset and then together with the Slave. -/
def masterAgain : Nat → Inputs .default
  | 0 => .reads [.master] false
  | _ => .reads [.master, .slave] false

theorem grant_order_masterAgain :
    (¬Forgotten masterAgain 1 → FirstAfter (lastGranted masterAgain 1) (masterAgain 1) .master) ∧
      (Forgotten masterAgain 1 → FirstAfter .extra (masterAgain 1) .master) :=
  (grant_order masterAgain 1).1 .master (by decide)

/-- A lone request of the host served last makes the arbiter forget it: the Master,
which counts as served last, is granted again before the waiting Slave. -/
theorem master_granted_twice :
    ¬∀ (inputs : Nat → Inputs .default) (edge : Nat) (h : Host),
      Arbiter.grantAt inputs edge = some h →
        FirstAfter (lastGranted inputs edge) (inputs edge) h := by
  intro fair
  have first := fair masterAgain 1 .master (by decide)
  have passed := first.nearest .slave (by decide)
  exact absurd passed (by decide)

/-- The places between the host the scan counts as served and `h`. -/
def distance (a : Service p) (h : Host) : Nat := Rotation.ahead Host.place (served a.pointer) h

/-- While `h` requests whenever the arbiter looks and is not granted, nothing takes
it further from service, and a grant to `g` leaves it the places behind `g`. -/
theorem Service.Edge.distance {a b : Service p} (edge : Service.Edge i a b)
    (asks : a.ready = true → i.wants h = true) (waits : a.grant i ≠ some h) :
    (∃ g, a.grant i = some g ∧ distance b h = Rotation.ahead Host.place g h ∧
        distance b h < distance a h) ∨
      (a.grant i = none ∧ distance b h ≤ distance a h) := by
  cases edge with
  | @grant _ g ready chosen =>
    have granted : a.grant i = some g := Service.grant_eq_some_iff.mpr ⟨ready, chosen⟩
    have passed : g ≠ h := by
      rintro rfl
      exact waits granted
    exact .inl ⟨g, granted, rfl, (pick_first chosen).closer (asks ready) passed⟩
  | @forget _ l ready last alone =>
    have own : h = l := (alone h).mp (asks ready)
    subst own
    refine .inr ⟨?_, ?_⟩
    · rw [Service.grant, ready, pick_alone last alone]
      rfl
    · -- the host itself is last behind its own pointer, so the fixed order cannot be worse
      have behind := Rotation.ahead_self Host.place h
      have bound := Rotation.ahead_lt Host.place .extra h
      have before : RoundRobinArbiter.distance a h = Rotation.ahead Host.place h h := by
        rw [RoundRobinArbiter.distance, last]
        rfl
      have after : RoundRobinArbiter.distance (.idle none : Service p) h =
          Rotation.ahead Host.place .extra h := rfl
      omega
  | rest ready silent =>
    have asked := asks ready
    simp [silent h] at asked
  | proceed waits within => exact .inr ⟨rfl, Nat.le_refl _⟩
  | finish ends => exact .inr ⟨rfl, Nat.le_refl _⟩

private theorem distance_step {start : Arbiter p} {view : Service p} (refines : Refines start view)
    {inputs : Nat → Inputs p} {edge : Nat} {h : Host}
    (asks : (Arbiter.runFrom start inputs edge).arbitrating = true → (inputs edge).wants h = true)
    (waits : Arbiter.grantFrom start inputs edge ≠ some h) :
    (∃ g, Arbiter.grantFrom start inputs edge = some g ∧
        distance (Service.runFrom view inputs (edge + 1)) h = Rotation.ahead Host.place g h ∧
        distance (Service.runFrom view inputs (edge + 1)) h <
          distance (Service.runFrom view inputs edge) h) ∨
      (Arbiter.grantFrom start inputs edge = none ∧
        distance (Service.runFrom view inputs (edge + 1)) h ≤
          distance (Service.runFrom view inputs edge) h) := by
  rw [grantFrom_eq refines] at waits ⊢
  rw [(refines_runFrom refines inputs edge).arbitrating] at asks
  exact (Service.edge (inputs edge) (Service.runFrom view inputs edge)).distance asks waits

/-- A host that requests at every edge at which the arbiter looks at requests is
passed over by at most three grants, and by no host twice. -/
theorem bounded_bypass {start : Arbiter p} (reached : (Arbiter.resettable p).Reachable start)
    (inputs : Nat → Inputs p) (h : Host) (bound : Nat)
    (asks : ∀ edge < bound, (Arbiter.runFrom start inputs edge).arbitrating = true →
      (inputs edge).wants h = true)
    (waits : ∀ edge < bound, Arbiter.grantFrom start inputs edge ≠ some h) :
    Nat.count (fun edge => Arbiter.grantFrom start inputs edge ≠ none) bound ≤ 3 ∧
      ∀ g, Nat.count (fun edge => Arbiter.grantFrom start inputs edge = some g) bound ≤ 1 := by
  obtain ⟨view, refines⟩ := refines_reachable reached
  have moves : ∀ edge < bound, _ := fun edge inside =>
    distance_step refines (asks edge inside) (waits edge inside)
  have falls : ∀ edge < bound, distance (Service.runFrom view inputs (edge + 1)) h ≤
      distance (Service.runFrom view inputs edge) h := by
    intro edge inside
    rcases moves edge inside with ⟨g, _, _, closer⟩ | ⟨_, level⟩
    · exact Nat.le_of_lt closer
    · exact level
  constructor
  · have paid : ∀ edge < bound, distance (Service.runFrom view inputs (edge + 1)) h +
        (if Arbiter.grantFrom start inputs edge ≠ none then 1 else 0) ≤
          distance (Service.runFrom view inputs edge) h := by
      intro edge inside
      rcases moves edge inside with ⟨g, granted, _, closer⟩ | ⟨none, level⟩
      · rw [if_pos (by simp [granted])]
        exact closer
      · rw [if_neg (by simp [none])]
        exact level
    have total := count_add_rank_le (fun edge => Arbiter.grantFrom start inputs edge ≠ none)
      (fun edge => distance (Service.runFrom view inputs edge) h) paid
    have far : distance (Service.runFrom view inputs 0) h < 4 := Rotation.ahead_lt Host.place _ h
    omega
  · intro g
    have lowers : ∀ edge < bound, ∀ g, Arbiter.grantFrom start inputs edge = some g →
        distance (Service.runFrom view inputs (edge + 1)) h = Rotation.ahead Host.place g h ∧
          distance (Service.runFrom view inputs (edge + 1)) h <
            distance (Service.runFrom view inputs edge) h := by
      intro edge inside g granted
      rcases moves edge inside with ⟨f, chosen, closer⟩ | ⟨none, _⟩
      · cases chosen.symm.trans granted
        exact closer
      · cases none.symm.trans granted
    exact count_le_one fun first second before inside happens =>
      event_once (fun edge => distance (Service.runFrom view inputs edge) h)
        (fun g => Rotation.ahead Host.place g h) falls lowers before inside happens

theorem extra_bypassed_by_two :
    Nat.count (fun edge => Arbiter.grantFrom (Arbiter.reset : Arbiter .default)
        (fun _ => .reads Host.all true) edge ≠ none) 4 ≤ 3 ∧
      ∀ g, Nat.count (fun edge => Arbiter.grantFrom (Arbiter.reset : Arbiter .default)
        (fun _ => .reads Host.all true) edge = some g) 4 ≤ 1 :=
  bounded_bypass .init (fun _ => .reads Host.all true) .extra 4 (by decide) (by decide)

end RoundRobinArbiter
