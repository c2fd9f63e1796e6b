import RoundRobinArbiter.Arbiter.Blocks
import RoundRobinArbiter.Arbiter.Bus
import RoundRobinArbiter.Arbiter.Progress

namespace RoundRobinArbiter

open Synchronous

/-- A host raises one of `rd` and `wr`, holds its port until bit 0 of its own
acknowledge is set, that cycle included, and then drops the request. -/
structure Handshake (inputs : Nat → Inputs p) (h : Host) : Prop where
  exclusive : ∀ cycle, ¬(((inputs cycle).host h).rd = true ∧ ((inputs cycle).host h).wr = true)
  holds : ∀ cycle, (inputs cycle).wants h = true →
    ((Arbiter.run inputs cycle).ack h).getLsbD 0 = false →
    (inputs (cycle + 1)).host h = (inputs cycle).host h
  releases : ∀ cycle, (inputs cycle).wants h = true →
    ((Arbiter.run inputs cycle).ack h).getLsbD 0 = true → (inputs (cycle + 1)).wants h = false

/-- The request a host raises in a cycle. -/
def raised (inputs : Nat → Inputs p) (h : Host) : Nat → Option (Request p)
  | 0 => if (inputs 0).wants h then some ((inputs 0).host h).request else none
  | cycle + 1 =>
    if (inputs (cycle + 1)).wants h && !(inputs cycle).wants h then
      some ((inputs (cycle + 1)).host h).request
    else none

/-- The access of a host that starts at an edge, as the device sees it. -/
def started (inputs : Nat → Inputs p) (h : Host) (edge : Nat) : Option (Request p) :=
  if Arbiter.grantAt inputs edge = some h then some (Arbiter.run inputs (edge + 1)).request
  else none

/-- The request of a host whose service has not begun. -/
def waiting (inputs : Nat → Inputs p) (h : Host) (cycle : Nat) : Option (Request p) :=
  if (inputs cycle).wants h && !(Arbiter.run inputs cycle).accessing h &&
      !(Arbiter.run inputs cycle).acking h then
    some ((inputs cycle).host h).request
  else none

/-- The accesses of a host are its requests, one for one and in order. -/
structure ExactlyOnce (inputs : Nat → Inputs p) (h : Host) : Prop where
  /-- The accesses seen up to a cycle are the requests raised up to it, but for one that waits. -/
  ordered : ∀ cycle, log (raised inputs h) (cycle + 1) =
    log (started inputs h) cycle ++ (waiting inputs h cycle).toList
  /-- No waiting request is lost. -/
  begun : ∀ cycle held, waiting inputs h cycle = some held →
    ∃ edge, cycle ≤ edge ∧ started inputs h edge = some held
  /-- Requests and ACK pulses alternate: at most one request is outstanding. -/
  outstanding : ∀ cycle, (log (raised inputs h) (cycle + 1)).length =
    Nat.count (fun earlier => (Arbiter.run inputs earlier).acking h = true) (cycle + 1) +
      if (inputs cycle).wants h && !(Arbiter.run inputs cycle).acking h then 1 else 0
  /-- An access shows the granted port to its end and ends in one ACK pulse. -/
  completed : ∀ edge, Arbiter.grantAt inputs edge = some h → ∃ finish, edge + 1 < finish ∧
    (∀ cycle, edge < cycle → cycle < finish →
      (Arbiter.run inputs cycle).accessing h = true ∧
      (Arbiter.run inputs cycle).lines = ((inputs edge).host h).lines ∧
      (Arbiter.run inputs cycle).rdBus = ((inputs edge).host h).rd ∧
      (Arbiter.run inputs cycle).wrBus = ((inputs edge).host h).wr) ∧
    (Arbiter.run inputs finish).acking h = true ∧
    (Arbiter.run inputs (finish + 1)).acking h = false ∧
    ((inputs (finish - 1)).ackBus = true →
      (Arbiter.run inputs finish).drd h = (inputs (finish - 1)).dataBusRd)

section Requests

variable {inputs : Nat → Inputs p} {h : Host} {cycle : Nat}

theorem waiting_eq : waiting inputs h cycle =
    if (inputs cycle).wants h = true ∧ (Service.run inputs cycle).owner ≠ some h then
      some ((inputs cycle).host h).request
    else none := by
  have refines := refines_run inputs cycle
  unfold waiting
  rw [refines.accessing, refines.acking]
  congr 1
  cases Service.run inputs cycle <;>
    simp [Service.client, Service.acked, Service.owner]

theorem waiting_some {held : Request p} (waits : waiting inputs h cycle = some held) :
    (inputs cycle).wants h = true ∧ ((inputs cycle).host h).request = held := by
  rw [waiting_eq] at waits
  split at waits
  · rename_i open_
    exact ⟨open_.1, Option.some.inj waits⟩
  · cases waits

theorem started_eq : started inputs h cycle =
    if Service.grantAt inputs cycle = some h then some ((inputs cycle).host h).request
    else none := by
  unfold started
  rw [grantAt_eq]
  split
  · rename_i granted
    have refines := refines_run inputs (cycle + 1)
    rw [show Service.run inputs (cycle + 1) = _ from Service.grantFrom_access granted] at refines
    rw [refines.shows]
  · rfl

theorem Handshake.keeps (obeys : Handshake inputs h) (asks : (inputs cycle).wants h = true)
    (unfinished : Service.run inputs cycle ≠ .ack h) :
    (inputs (cycle + 1)).host h = (inputs cycle).host h := by
  refine obeys.holds cycle asks ?_
  have refines := refines_run inputs cycle
  rw [← Bool.not_eq_true, refines.completion_iff, refines.acking_iff]
  exact unfinished

private theorem Handshake.drops (obeys : Handshake inputs h) (asks : (inputs cycle).wants h = true)
    (acked : Service.run inputs cycle = .ack h) : (inputs (cycle + 1)).wants h = false := by
  refine obeys.releases cycle asks ?_
  have refines := refines_run inputs cycle
  rw [refines.completion_iff, refines.acking_iff]
  exact acked

theorem wants_congr {i j : Inputs p} (same : i.host h = j.host h) : i.wants h = j.wants h :=
  congrArg HostPort.wants same

theorem Handshake.served_wants (obeys : Handshake inputs h) (cycle : Nat)
    (served : (Service.run inputs cycle).owner = some h) : (inputs cycle).wants h = true := by
  induction cycle with
  | zero => cases served
  | succ cycle ih =>
    rcases Service.owner_succ.mp served with granted | ⟨held, elapsed, running⟩
    · have asks := Service.grantFrom_wants granted
      have unfinished : Service.run inputs cycle ≠ .ack h :=
        fun acked => Service.ack_not_granted acked granted
      rw [wants_congr (obeys.keeps asks unfinished)]
      exact asks
    · have asks := ih (Service.owner_eq_some_iff.mpr (.inl ⟨held, elapsed, running⟩))
      have unfinished : Service.run inputs cycle ≠ .ack h :=
        fun acked => nomatch running.symm.trans acked
      rw [wants_congr (obeys.keeps asks unfinished)]
      exact asks

private theorem Handshake.exchange (obeys : Handshake inputs h) (cycle : Nat) :
    (waiting inputs h cycle).toList ++ (raised inputs h (cycle + 1)).toList =
      (started inputs h cycle).toList ++ (waiting inputs h (cycle + 1)).toList := by
  have next : (Service.run inputs (cycle + 1)).owner = some h ↔ _ := Service.owner_succ
  rw [waiting_eq, waiting_eq, started_eq, raised]
  cases asks : (inputs cycle).wants h with
  | false =>
    have idle : (Service.run inputs cycle).owner ≠ some h := by
      intro served
      rw [obeys.served_wants cycle served] at asks
      cases asks
    have ungranted : Service.grantAt inputs cycle ≠ some h := by
      intro granted
      rw [Service.grantFrom_wants granted] at asks
      cases asks
    have unserved : (Service.run inputs (cycle + 1)).owner ≠ some h := by
      rw [Ne, next]
      rintro (granted | running)
      · exact ungranted granted
      · exact idle (Service.owner_eq_some_iff.mpr (.inl running))
    simp [ungranted, unserved]
  | true =>
    by_cases acked : Service.run inputs cycle = .ack h
    · have ungranted : Service.grantAt inputs cycle ≠ some h := Service.ack_not_granted acked
      have owned : (Service.run inputs cycle).owner = some h := by rw [acked]; rfl
      simp [obeys.drops asks acked, owned, ungranted]
    · have kept := obeys.keeps asks acked
      rw [wants_congr kept, kept, asks]
      by_cases owned : (Service.run inputs cycle).owner = some h
      · have running := (Service.owner_eq_some_iff.mp owned).resolve_right acked
        have ungranted : Service.grantAt inputs cycle ≠ some h := by
          obtain ⟨held, elapsed, running⟩ := running
          intro granted
          cases (Service.grantFrom_running running).symm.trans granted
        simp [owned, ungranted, next.mpr (.inr running)]
      · by_cases granted : Service.grantAt inputs cycle = some h
        · simp [owned, granted, next.mpr (.inl granted)]
        · have unserved : (Service.run inputs (cycle + 1)).owner ≠ some h := by
            rw [Ne, next]
            rintro (now | running)
            · exact granted now
            · exact owned (Service.owner_eq_some_iff.mpr (.inl running))
          simp [owned, granted, unserved]

theorem Handshake.ordered (obeys : Handshake inputs h) (cycle : Nat) :
    log (raised inputs h) (cycle + 1) =
      log (started inputs h) cycle ++ (waiting inputs h cycle).toList := by
  induction cycle with
  | zero =>
    rw [waiting_eq]
    cases asks : (inputs 0).wants h <;> simp [log, raised, asks, Service.run, Service.runFrom,
      Machine.runFrom, Service.owner]
  | succ cycle ih =>
    rw [log, ih, log, List.append_assoc, List.append_assoc, obeys.exchange]

theorem Handshake.waits_on (obeys : Handshake inputs h) {held : Request p}
    (waits : waiting inputs h cycle = some held) (more : Nat)
    (passed : ∀ k < more, Service.grantAt inputs (cycle + k) ≠ some h) :
    waiting inputs h (cycle + more) = some held := by
  induction more with
  | zero => exact waits
  | succ more ih =>
    have before := ih (fun k below => passed k (Nat.lt_succ_of_lt below))
    have edge := obeys.exchange (cycle + more)
    have unstarted : started inputs h (cycle + more) = none := by
      rw [started_eq, if_neg (passed more (Nat.lt_succ_self more))]
    have unraised : raised inputs h (cycle + more + 1) = none := by
      simp [raised, (waiting_some before).1]
    rw [before, unstarted, unraised] at edge
    simpa [Nat.add_assoc] using edge.symm

theorem Handshake.begun (obeys : Handshake inputs h) {held : Request p}
    (waits : waiting inputs h cycle = some held) :
    ∃ edge, cycle ≤ edge ∧ started inputs h edge = some held := by
  have granted : ∃ k, Service.grantAt inputs (cycle + k) = some h := by
    by_contra never
    have passed : ∀ k, Service.grantAt inputs (cycle + k) ≠ some h :=
      fun k now => never ⟨k, now⟩
    have asks : ∀ k < 4 * p.turn + 1, (inputs (cycle + k)).wants h = true :=
      fun k _ => (waiting_some (obeys.waits_on waits k fun j _ => passed j)).1
    have bounded := vain_edges_le (Service.run inputs cycle) (fun k => inputs (cycle + k)) h
      (4 * p.turn + 1) asks (by
        intro k _
        rw [Service.grantFrom, Service.runFrom, Service.run, Service.runFrom, ← Machine.runFrom_add]
        exact passed k)
    omega
  have now := Nat.find_spec granted
  have before := obeys.waits_on waits (Nat.find granted) fun k below => Nat.find_min granted below
  refine ⟨cycle + Nat.find granted, Nat.le_add_right _ _, ?_⟩
  rw [started_eq, if_pos now, (waiting_some before).2]

theorem Handshake.outstanding (obeys : Handshake inputs h) (cycle : Nat) :
    (log (raised inputs h) (cycle + 1)).length =
      Nat.count (fun earlier => (Arbiter.run inputs earlier).acking h = true) (cycle + 1) +
        if (inputs cycle).wants h && !(Arbiter.run inputs cycle).acking h then 1 else 0 := by
  have balance := grants_balance inputs cycle h
  have starts : (fun edge => (started inputs h edge).isSome = true) =
      fun edge => Service.grantAt inputs edge = some h := by
    funext edge
    rw [started_eq]
    split <;> simp_all
  have pulses : (fun earlier => (Arbiter.run inputs earlier).acking h = true) =
      fun earlier => (Service.run inputs earlier).acked = some h := by
    funext earlier
    rw [(refines_run inputs earlier).acking, beq_iff_eq]
  have counted : Nat.count (fun edge => (started inputs h edge).isSome = true) cycle =
      Nat.count (fun edge => Service.grantAt inputs edge = some h) cycle := by
    simp only [starts]
  have acks : Nat.count (fun earlier => (Arbiter.run inputs earlier).acking h = true) (cycle + 1) =
      Nat.count (fun earlier => (Service.run inputs earlier).acked = some h) (cycle + 1) := by
    simp only [pulses]
  have served := obeys.served_wants cycle
  rw [obeys.ordered, List.length_append, length_log, counted, acks, balance, waiting_eq,
    (refines_run inputs cycle).acking, Nat.add_assoc, Nat.add_left_cancel_iff]
  cases situation : Service.run inputs cycle with
  | idle pointer => cases asks : (inputs cycle).wants h <;> simp [Service.client, Service.owner,
      Service.acked]
  | access g held elapsed =>
    by_cases own : g = h
    · subst own
      rw [served (by rw [situation]; rfl)]
      simp [Service.client, Service.owner, Service.acked]
    · cases asks : (inputs cycle).wants h <;> simp [Service.client, Service.owner,
        Service.acked, own]
  | ack g =>
    by_cases own : g = h
    · subst own
      simp [Service.client, Service.owner, Service.acked]
    · cases asks : (inputs cycle).wants h <;> simp [Service.client, Service.owner,
        Service.acked, own]

theorem Handshake.direction (obeys : Handshake inputs h) (asks : (inputs cycle).wants h = true) :
    (!((inputs cycle).host h).rd) = ((inputs cycle).host h).wr := by
  have one := obeys.exclusive cycle
  have some : (((inputs cycle).host h).rd || ((inputs cycle).host h).wr) = true := asks
  cases read : ((inputs cycle).host h).rd <;> cases write : ((inputs cycle).host h).wr <;>
    simp_all

theorem Handshake.completed (obeys : Handshake inputs h)
    (granted : Arbiter.grantAt inputs edge = some h) : ∃ finish, edge + 1 < finish ∧
    (∀ cycle, edge < cycle → cycle < finish →
      (Arbiter.run inputs cycle).accessing h = true ∧
      (Arbiter.run inputs cycle).lines = ((inputs edge).host h).lines ∧
      (Arbiter.run inputs cycle).rdBus = ((inputs edge).host h).rd ∧
      (Arbiter.run inputs cycle).wrBus = ((inputs edge).host h).wr) ∧
    (Arbiter.run inputs finish).acking h = true ∧
    (Arbiter.run inputs (finish + 1)).acking h = false ∧
    ((inputs (finish - 1)).ackBus = true →
      (Arbiter.run inputs finish).drd h = (inputs (finish - 1)).dataBusRd) := by
  rw [grantAt_eq] at granted
  obtain ⟨finish, later, _, acked, own⟩ := Service.access_ends (Service.grantFrom_access granted)
  refine ⟨finish, later, ?_, ?_, ?_, ?_⟩
  · intro cycle after before
    obtain ⟨elapsed, running⟩ := own cycle after before
    have refines := refines_run inputs cycle
    rw [show Service.run inputs cycle = _ from running] at refines
    refine ⟨refines.accessing_iff.mpr ⟨_, _, rfl⟩, refines.lines _ _ _ rfl,
      refines.carries.2.2.2.2.1, ?_⟩
    rw [refines.carries.2.2.2.2.2, obeys.direction (Service.grantFrom_wants granted)]
  · exact (refines_run inputs finish).acking_iff.mpr acked
  · rw [← Bool.not_eq_true, (refines_run inputs (finish + 1)).acking_iff]
    exact Service.ack_once acked h
  · intro answered
    obtain ⟨last, rfl⟩ : ∃ last, finish = last + 1 := ⟨finish - 1, by omega⟩
    exact if_pos answered

end Requests

/-- Whatever the other hosts and the device do, a host that obeys the handshake
gets one access for each of its requests. -/
theorem exactly_once {inputs : Nat → Inputs p} (obeys : Handshake inputs h) :
    ExactlyOnce inputs h where
  ordered := obeys.ordered
  begun _ _ waits := obeys.begun waits
  outstanding := obeys.outstanding
  completed _ granted := obeys.completed granted

/-- The last edge at which each host asks for its read, the one of its ACK cycle. -/
def readUntil : Host → Nat
  | .slave => 2
  | .test => 4
  | .extra => 6
  | .master => 8

/-- All hosts read once from the first edge on, and are answered at once. -/
def fourReads (cycle : Nat) : Inputs .default :=
  .reads (Host.all.filter fun h => cycle ≤ readUntil h) (cycle % 2 == 1)

private theorem fourReads_wants (cycle : Nat) (h : Host) :
    (fourReads cycle).wants h = true ↔ cycle ≤ readUntil h := by
  have shown : (fourReads cycle).wants h = decide (cycle ≤ readUntil h) := by
    simp only [fourReads, Inputs.reads, Inputs.wants, List.mem_filter, Host.mem_all, true_and]
    split <;> simp_all [HostPort.wants, HostPort.reading, HostPort.silent]
  rw [shown, decide_eq_true_iff]

private theorem fourReads_early (asks : (fourReads cycle).wants h = true) : cycle < 9 := by
  have last : readUntil h ≤ 8 := by cases h <;> decide
  exact Nat.lt_succ_of_le (((fourReads_wants cycle h).mp asks).trans last)

private theorem fourReads_handshake (h : Host) : Handshake fourReads h where
  exclusive cycle both := by
    have silent : ((fourReads cycle).host h).wr = false := by
      simp only [fourReads, Inputs.reads]
      split <;> rfl
    cases silent.symm.trans both.2
  holds cycle asks unfinished := by
    have run : ∀ k < 9, ∀ h ∈ Host.all, (fourReads k).wants h = true →
        ((Arbiter.run fourReads k).ack h).getLsbD 0 = false →
        (fourReads (k + 1)).host h = (fourReads k).host h := by decide
    exact run cycle (fourReads_early asks) h (Host.mem_all h) asks unfinished
  releases cycle asks finished := by
    have run : ∀ k < 9, ∀ h ∈ Host.all, (fourReads k).wants h = true →
        ((Arbiter.run fourReads k).ack h).getLsbD 0 = true →
        (fourReads (k + 1)).wants h = false := by decide
    exact run cycle (fourReads_early asks) h (Host.mem_all h) asks finished

theorem fourReads_once : ExactlyOnce fourReads .master := exactly_once (fourReads_handshake .master)

end RoundRobinArbiter
