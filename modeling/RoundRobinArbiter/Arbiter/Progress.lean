import RoundRobinArbiter.Arbiter.Order

/-! Progress. A host that requests at every edge is granted after a bounded number
of edges, whatever the others request and even if the device never answers: the
measure pays for the cycles the running access can still take, for the accesses
of the hosts in front, and for the one edge a lone request can lose. -/

namespace RoundRobinArbiter

open Synchronous

/-- The edges one access of another host can cost, its grant edge included. -/
def Params.turn (p : Params) : Nat := p.limit + 2

/-- The edges the running access can still take. -/
def remaining : Service p → Nat
  | .access _ _ elapsed => p.limit + 1 - elapsed.val
  | _ => 0

/-- The edges that can pass before `h` is granted, not counting the running access. -/
def queueing (a : Service p) (h : Host) : Nat :=
  if a.pointer = some h then 3 * p.turn + 1 else distance a h * p.turn

def waitBound (a : Service p) (h : Host) : Nat := remaining a + queueing a h

theorem queueing_le (a : Service p) (h : Host) : queueing a h ≤ 3 * p.turn + 1 := by
  unfold queueing
  split
  · exact Nat.le_refl _
  · have near : distance a h ≤ 3 := Nat.le_of_lt_succ (Rotation.ahead_lt Host.place _ h)
    exact Nat.le_succ_of_le (Nat.mul_le_mul_right p.turn near)

private theorem waitBound_le (a : Service p) (h : Host) : waitBound a h ≤ 4 * p.turn := by
  have queue := queueing_le a h
  have turn : p.turn = p.limit + 2 := rfl
  have access : remaining a ≤ p.limit + 1 := by
    cases a with
    | access g held elapsed => exact Nat.sub_le _ _
    | _ => exact Nat.zero_le _
  unfold waitBound
  omega

private theorem queueing_granted {p : Params} {i : Inputs p} {g h : Host} {a : Service p}
    {held : Request p} {elapsed : Fin (p.limit + 1)} (wants : i.wants h = true)
    (chosen : pick a.pointer i.wants = some g) (passed : g ≠ h) :
    queueing (.access g held elapsed : Service p) h + p.turn ≤ queueing a h := by
  have closer := (pick_first chosen).closer wants passed
  have here : queueing (.access g held elapsed : Service p) h =
      Rotation.ahead Host.place g h * p.turn := by
    rw [queueing, if_neg]
    · rfl
    · exact fun same => passed (Option.some.inj same)
  rw [here, ← Nat.succ_mul]
  unfold queueing
  split
  · rename_i own
    rw [own] at closer
    have last := Rotation.ahead_self Host.place h
    have near : Rotation.ahead Host.place g h + 1 ≤ 3 := by
      simp only [served, Option.getD_some] at closer
      omega
    exact Nat.le_succ_of_le (Nat.mul_le_mul_right p.turn near)
  · exact Nat.mul_le_mul_right p.turn closer

theorem Service.Edge.waits {a b : Service p} (edge : Service.Edge i a b)
    (asks : i.wants h = true) (vain : a.grant i ≠ some h) : waitBound b h + 1 ≤ waitBound a h := by
  have turn : p.turn = p.limit + 2 := rfl
  cases edge with
  | @grant _ g ready chosen =>
    have passed : g ≠ h := by
      rintro rfl
      exact vain (Service.grant_eq_some_iff.mpr ⟨ready, chosen⟩)
    have gained : queueing (.access g (i.host g).request 0 : Service p) h + p.turn ≤ queueing a h :=
      queueing_granted asks chosen passed
    have idle : remaining a = 0 := by
      cases a with
      | access _ _ _ => cases ready
      | _ => rfl
    have whole : remaining (.access g (i.host g).request 0 : Service p) = p.limit + 1 := rfl
    unfold waitBound
    omega
  | @forget _ l ready last alone =>
    have own : h = l := (alone h).mp asks
    subst own
    have before : queueing a h = 3 * p.turn + 1 := if_pos last
    have near : Rotation.ahead Host.place .extra h ≤ 3 :=
      Nat.le_of_lt_succ (Rotation.ahead_lt Host.place .extra h)
    have after : queueing (.idle none : Service p) h ≤ 3 * p.turn :=
      Nat.mul_le_mul_right p.turn near
    have idle : remaining (.idle none : Service p) = 0 := rfl
    unfold waitBound
    omega
  | rest ready silent => simp [silent h] at asks
  | @proceed g held elapsed waits within =>
    have before : remaining (.access g held elapsed : Service p) = p.limit + 1 - elapsed.val := rfl
    have after : remaining (.access g held ⟨elapsed.val + 1, Nat.succ_lt_succ within⟩ : Service p) =
        p.limit + 1 - (elapsed.val + 1) := rfl
    have same : queueing (.access g held ⟨elapsed.val + 1, Nat.succ_lt_succ within⟩ : Service p) h =
        queueing (.access g held elapsed : Service p) h := rfl
    unfold waitBound
    omega
  | @finish g held elapsed ends =>
    have before : remaining (.access g held elapsed : Service p) = p.limit + 1 - elapsed.val := rfl
    have bound := elapsed.isLt
    have same : queueing (.ack g : Service p) h =
        queueing (.access g held elapsed : Service p) h := rfl
    have after : remaining (.ack g : Service p) = 0 := rfl
    unfold waitBound
    omega

theorem vain_edges_le (view : Service p) (inputs : Nat → Inputs p) (h : Host) (bound : Nat)
    (asks : ∀ edge < bound, (inputs edge).wants h = true)
    (vain : ∀ edge < bound, Service.grantFrom view inputs edge ≠ some h) : bound ≤ 4 * p.turn := by
  have pays : ∀ edge < bound, waitBound (Service.runFrom view inputs (edge + 1)) h +
      (if True then 1 else 0) ≤ waitBound (Service.runFrom view inputs edge) h := by
    intro edge inside
    rw [if_pos trivial]
    exact (Service.edge (inputs edge) (Service.runFrom view inputs edge)).waits
      (asks edge inside) (vain edge inside)
  have total := count_add_rank_le (fun _ => True)
    (fun edge => waitBound (Service.runFrom view inputs edge) h) pays
  have initial := waitBound_le (Service.runFrom view inputs 0) h
  rw [Nat.count_true] at total
  omega

private theorem turn_eq {p : Params} (wide : 1 ≤ p.tw) : p.turn = 2 ^ p.tw := by
  have two : 2 ^ 1 ≤ 2 ^ p.tw := Nat.pow_le_pow_right (by decide) wide
  rw [Params.turn, Params.limit]
  omega

/-- No deadlock: in no run from a reachable state does a host request at
`4 * 2 ^ TW + 1` consecutive edges of which none grants it. -/
theorem no_starvation (wide : 2 ≤ p.tw) {start : Arbiter p}
    (reached : (Arbiter.resettable p).Reachable start) (inputs : Nat → Inputs p) (h : Host) :
    ¬∃ first, ∀ edge, first ≤ edge → edge < first + (4 * 2 ^ p.tw + 1) →
      (inputs edge).wants h = true ∧ Arbiter.grantFrom start inputs edge ≠ some h := by
  rintro ⟨first, starved⟩
  obtain ⟨view, refines⟩ := refines_reachable reached
  have bounded := vain_edges_le (Service.runFrom view inputs first) (fun k => inputs (first + k)) h
    (4 * 2 ^ p.tw + 1) (fun k inside => (starved (first + k) (by omega) (by omega)).1) (by
      intro k inside
      have vain := (starved (first + k) (by omega) (by omega)).2
      rw [grantFrom_eq refines, Service.grantFrom, Service.runFrom, Machine.runFrom_add] at vain
      exact vain)
  rw [turn_eq (Nat.le_of_succ_le wide)] at bounded
  omega

/-- Not even against three hosts that always request and a dead device. -/
theorem extra_not_starved :
    ¬∃ first, ∀ edge, first ≤ edge → edge < first + (4 * 2 ^ Params.default.tw + 1) →
      (Inputs.reads Host.all false : Inputs .default).wants .extra = true ∧
        Arbiter.grantFrom (Arbiter.reset : Arbiter .default)
          (fun _ => .reads Host.all false) edge ≠ some .extra :=
  no_starvation (by decide) .init (fun _ => .reads Host.all false) .extra

end RoundRobinArbiter
