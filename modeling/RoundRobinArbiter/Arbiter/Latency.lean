import RoundRobinArbiter.Arbiter.Progress
import RoundRobinArbiter.Synchronous.Waiting

namespace RoundRobinArbiter

open Synchronous

/-- In its `cycles`-th cycle, if it gets that far, an access is acknowledged or times out. -/
def Prompt (cycles : Nat) (view : Service p) (inputs : Nat → Inputs p) : Prop :=
  ∀ edge h held elapsed, Service.runFrom view inputs edge = .access h held elapsed →
    cycles ≤ elapsed.val + 1 → (inputs edge).ackBus = true ∨ elapsed.val = p.limit

namespace Latency

variable (cycles : Nat)

/-- The edges the running access can still take; it takes one more, however late it is. -/
def remaining : Service p → Nat
  | .access _ _ elapsed => max 1 (cycles - elapsed.val)
  | _ => 0

/-- The edges that can pass before `h` is granted, not counting the running access. -/
def queueing (a : Service p) (h : Host) : Nat :=
  if a.pointer = some h then 3 * (cycles + 1) + 1 else distance a h * (cycles + 1)

def wait (a : Service p) (h : Host) : Nat := remaining cycles a + queueing cycles a h

variable {cycles}

theorem remaining_ready {a : Service p} (ready : a.ready = true) : remaining cycles a = 0 := by
  cases a with
  | access _ _ _ => cases ready
  | _ => rfl

theorem queueing_le (a : Service p) (h : Host) : queueing cycles a h ≤ 3 * (cycles + 1) + 1 := by
  unfold queueing
  split
  · exact Nat.le_refl _
  · have near : distance a h ≤ 3 := Nat.le_of_lt_succ (Rotation.ahead_lt Host.place _ h)
    exact Nat.le_succ_of_le (Nat.mul_le_mul_right _ near)

private theorem queueing_behind (cycles : Nat) {g h : Host} (held : Request p)
    (elapsed : Fin (p.limit + 1)) (other : g ≠ h) :
    queueing cycles (.access g held elapsed : Service p) h =
        Rotation.ahead Host.place g h * (cycles + 1) ∧
      Rotation.ahead Host.place g h ≤ 2 := by
  refine ⟨if_neg fun same => other (Option.some.inj same), ?_⟩
  have bound := Rotation.ahead_lt Host.place g h
  have last := Rotation.ahead_self Host.place g
  have apart : Rotation.ahead Host.place g h ≠ Rotation.ahead Host.place g g :=
    fun same => other (Rotation.ahead_injective Host.place same).symm
  omega

theorem wait_le (positive : 1 ≤ cycles) (a : Service p) (h : Host) :
    wait cycles a h ≤
      if a.client = some h then 4 * (cycles + 1) else 3 * (cycles + 1) + 1 := by
  have queue : queueing cycles a h ≤ 3 * (cycles + 1) + 1 := queueing_le a h
  cases a with
  | access g held elapsed =>
    have running : remaining cycles (.access g held elapsed : Service p) ≤ cycles :=
      max_le positive (Nat.sub_le _ _)
    rw [show (Service.access g held elapsed).client = some g from rfl]
    by_cases own : g = h
    · rw [if_pos (congrArg some own), wait]
      omega
    · obtain ⟨same, near⟩ := queueing_behind cycles held elapsed own
      have short := Nat.mul_le_mul_right (cycles + 1) near
      rw [if_neg fun same => own (Option.some.inj same), wait, same]
      omega
  | _ =>
    rw [wait, remaining_ready rfl, Nat.zero_add]
    exact queue

theorem queueing_granted {a : Service p} {i : Inputs p} {g h : Host} {held : Request p}
    {elapsed : Fin (p.limit + 1)} (wants : i.wants h = true)
    (chosen : pick a.pointer i.wants = some g) (passed : g ≠ h) :
    queueing cycles (.access g held elapsed : Service p) h + (cycles + 1) ≤
      queueing cycles a h := by
  obtain ⟨here, near⟩ := queueing_behind cycles held elapsed passed
  have closer := (pick_first chosen).closer wants passed
  rw [here, ← Nat.succ_mul, queueing]
  split
  · exact Nat.le_succ_of_le (Nat.mul_le_mul_right _ (Nat.succ_le_succ near))
  · exact Nat.mul_le_mul_right _ closer

private theorem wait_edge (positive : 1 ≤ cycles) {i : Inputs p} {a b : Service p}
    (edge : Service.Edge i a b)
    (prompt : ∀ g held elapsed, a = .access g held elapsed → cycles ≤ elapsed.val + 1 →
      i.ackBus = true ∨ elapsed.val = p.limit)
    (asks : i.wants h = true) (vain : a.grant i ≠ some h) :
    wait cycles b h + 1 ≤ wait cycles a h := by
  cases edge with
  | @grant _ g ready chosen =>
    have passed : g ≠ h := by
      rintro rfl
      exact vain (Service.grant_eq_some_iff.mpr ⟨ready, chosen⟩)
    have gained : queueing cycles (.access g (i.host g).request 0 : Service p) h + (cycles + 1) ≤
        queueing cycles a h := queueing_granted asks chosen passed
    have whole : remaining cycles (.access g (i.host g).request 0 : Service p) = max 1 cycles := rfl
    rw [wait, wait, remaining_ready ready, whole]
    omega
  | @forget _ l ready last alone =>
    obtain rfl := (alone h).mp asks
    have before : queueing cycles a h = 3 * (cycles + 1) + 1 := if_pos last
    have near : Rotation.ahead Host.place .extra h ≤ 3 :=
      Nat.le_of_lt_succ (Rotation.ahead_lt Host.place .extra h)
    have after : queueing cycles (.idle none : Service p) h ≤ 3 * (cycles + 1) :=
      Nat.mul_le_mul_right _ near
    rw [wait, wait, remaining_ready ready, remaining_ready rfl]
    omega
  | rest ready silent => cases asks.symm.trans (silent h)
  | @proceed g held elapsed waits within =>
    have early : elapsed.val + 1 < cycles := by
      by_contra late
      rcases prompt g held elapsed rfl (Nat.le_of_not_lt late) with answered | full
      · cases waits.symm.trans answered
      · omega
    have before : remaining cycles (.access g held elapsed : Service p) =
        max 1 (cycles - elapsed.val) := rfl
    have after : remaining cycles
        (.access g held ⟨elapsed.val + 1, Nat.succ_lt_succ within⟩ : Service p) =
          max 1 (cycles - (elapsed.val + 1)) := rfl
    have same : queueing cycles
        (.access g held ⟨elapsed.val + 1, Nat.succ_lt_succ within⟩ : Service p) h =
          queueing cycles (.access g held elapsed : Service p) h := rfl
    rw [wait, wait, same, before, after]
    omega
  | @finish g held elapsed ends =>
    have before : 1 ≤ remaining cycles (.access g held elapsed : Service p) := le_max_left _ _
    have same : queueing cycles (.ack g : Service p) h =
        queueing cycles (.access g held elapsed : Service p) h := rfl
    rw [wait, wait, same, remaining_ready rfl]
    omega

end Latency

theorem granted_within (positive : 1 ≤ cycles) {view : Service p} {inputs : Nat → Inputs p}
    (prompt : Prompt cycles view inputs) (h : Host)
    (asks : ∀ edge ≤ Latency.wait cycles view h, (inputs edge).wants h = true) :
    ∃ edge ≤ Latency.wait cycles view h, Service.grantFrom view inputs edge = some h := by
  refine happens_within _ (fun edge => Latency.wait cycles (Service.runFrom view inputs edge) h) ?_
  intro edge inside vain
  exact Latency.wait_edge positive (Service.edge (inputs edge) (Service.runFrom view inputs edge))
    (prompt edge) (asks edge inside) vain

/-- The device acknowledges every access in its `cycles`-th cycle at the latest, unless the
timeout ends it before. -/
def AcknowledgesWithin (cycles : Nat) (start : Arbiter p) (inputs : Nat → Inputs p) : Prop :=
  ∀ edge, (Arbiter.runFrom start inputs edge).busy = true →
    cycles ≤ (Arbiter.runFrom start inputs edge).timeoutCnt.toNat + 1 →
    (inputs edge).ackBus = true ∨ (Arbiter.runFrom start inputs edge).timeout = true

theorem AcknowledgesWithin.prompt {start : Arbiter p} {view : Service p}
    (refines : Refines start view) (device : AcknowledgesWithin cycles start inputs) :
    Prompt cycles view inputs := by
  intro edge h held elapsed running late
  have shown := refines_runFrom refines inputs edge
  rw [running] at shown
  have busy : (Arbiter.runFrom start inputs edge).busy = true := shown.busy
  rw [← shown.counts h held elapsed rfl] at late
  rw [← shown.timeout]
  exact device edge busy late

/-- The edges at which `h` can request in vain: its own access, if that is running, and one
access of each other host, with an edge that a lone request can lose. -/
def vainEdges (cycles : Nat) (s : Arbiter p) (h : Host) : Nat :=
  if s.accessing h then 4 * (cycles + 1) else 3 * (cycles + 1) + 1

/-- Whatever the other hosts request, a host that keeps requesting is granted within a time
that depends on the deadline of the device only, and not on the width of the timeout. -/
theorem granted_in_time (positive : 1 ≤ cycles) {start : Arbiter p}
    (reached : (Arbiter.resettable p).Reachable start) {inputs : Nat → Inputs p}
    (device : AcknowledgesWithin cycles start inputs) (first : Nat) (h : Host)
    (asks : ∀ k ≤ vainEdges cycles (Arbiter.runFrom start inputs first) h,
      (inputs (first + k)).wants h = true) :
    ∃ k ≤ vainEdges cycles (Arbiter.runFrom start inputs first) h,
      Arbiter.grantFrom start inputs (first + k) = some h := by
  obtain ⟨view, refines⟩ := refines_reachable reached
  have shown := refines_runFrom refines inputs first
  have later : Prompt cycles (Service.runFrom view inputs first) fun k => inputs (first + k) := by
    intro k
    rw [Service.runFrom, Service.runFrom, ← Machine.runFrom_add]
    exact device.prompt refines (first + k)
  have short : Latency.wait cycles (Service.runFrom view inputs first) h ≤
      vainEdges cycles (Arbiter.runFrom start inputs first) h := by
    rw [vainEdges, shown.accessing]
    simpa only [beq_iff_eq] using Latency.wait_le positive (Service.runFrom view inputs first) h
  obtain ⟨k, within, granted⟩ := granted_within positive later h
    fun k inside => asks k (inside.trans short)
  refine ⟨k, within.trans short, ?_⟩
  rw [grantFrom_eq refines]
  rw [Service.grantFrom, Service.runFrom, Service.runFrom, ← Machine.runFrom_add] at granted
  exact granted

/-- All hosts read on and on, and the device answers at once. -/
theorem extra_granted_in_time :
    ∃ k ≤ vainEdges 1 (Arbiter.runFrom (Arbiter.reset : Arbiter .default)
        (fun _ => .reads Host.all true) 5) .extra,
      Arbiter.grantFrom (Arbiter.reset : Arbiter .default) (fun _ => .reads Host.all true)
        (5 + k) = some .extra :=
  granted_in_time (by decide) .init (fun _ _ _ => .inl rfl) 5 .extra fun _ _ => rfl

end RoundRobinArbiter
