import RoundRobinArbiter.Testbench.Delivery
import RoundRobinArbiter.Testbench.Rounds

namespace RoundRobinArbiter

open Synchronous

namespace Host

/-- The sum over an array of counters. -/
def total (counts : Host → Nat) : Nat := Host.all.foldl (fun sum h => sum + counts h) 0

theorem total_add (first second : Host → Nat) :
    total (fun h => first h + second h) = total first + total second := by
  simp only [total, Host.all, List.foldl_cons, List.foldl_nil]
  omega

theorem total_count (event : Nat → Option Host) (cycle : Nat) :
    total (fun h => Nat.count (fun edge => event edge = some h) cycle) =
      Nat.count (fun edge => (event edge).isSome = true) cycle := by
  induction cycle with
  | zero => rfl
  | succ cycle ih =>
    simp only [Nat.count_succ, total_add, ih]
    cases event cycle with
    | none => rfl
    | some h => cases h <;> rfl

end Host

namespace Trial

variable (trial : Trial p)

/-- What the driver of a host samples. -/
def samples (h : Host) : Samples p := fun edge =>
  ((trial.scenario.arbiter edge).ack h, (trial.scenario.arbiter edge).drd h,
    (trial.draws edge).delay h)

theorem driver_steps (h : Host) (cycle : Nat) : trial.scenario.driver h (cycle + 1) =
    (trial.scenario.driver h cycle).step (trial.samples h cycle).1 (trial.samples h cycle).2.1
      (trial.samples h cycle).2.2 := rfl

variable {trial}

private theorem stops_of_pairing (room : 2 < p.limit) {given returned : Transaction p}
    (pairing : Pairing trial.scenario h given returned drive grant (grant + 3) (grant + 3))
    (soon : grant ≤ drive + 11) : ∃ turn, grant + 3 = drive + 1 + turn ∧
      Stops (fun k => (trial.samples h (drive + 1 + k)).1 ≠ 0) Driver.timeoutLimit turn := by
  have limit : Driver.timeoutLimit = 65535 := rfl
  obtain ⟨after, _, _⟩ := pairing.order
  obtain ⟨turn, position⟩ := Nat.exists_eq_add_of_le (show drive + 1 ≤ grant + 3 by omega)
  refine ⟨turn, position, by omega, ?_, .inl ?_⟩
  · intro k below shown
    obtain ⟨_, now⟩ := pairing.waits (drive + 1 + k) (by omega) (by omega)
    obtain ⟨_, next⟩ := pairing.waits (drive + 1 + k + 1) (by omega) (by omega)
    exact not_acking_between now next
      ((trial.scenario.refines _).acking_iff.mpr ((ack_iff room h _).mp shown))
  · rw [← position]
    exact ack_of_acking pairing.acked

/-- A round of the bench is an access of its own, granted within 11 edges and answered with
the word drawn for it. -/
def Answered (trial : Trial p) (h : Host) (round : Round p) : Prop :=
  ∃ grant ≤ round.drive + 11, round.finish = grant + 3 ∧
    round.returned = round.given.answered (trial.draws (grant + 1)).urandom ∧
    Pairing trial.scenario h round.given round.returned round.drive grant round.finish round.finish

theorem bench_rounds (room : 2 < p.limit) (legal : trial.scenario.Legal) (h : Host) :
    ∃ rounds, Rounds (trial.samples h) 0 (trial.mail h) rounds ∧
      Performs (trial.scenario.driver h) (trial.samples h) 0 rounds ∧
      ∀ round ∈ rounds, Answered trial h round := by
  obtain ⟨rounds, told, performs⟩ := performs_mailbox (trial.driver_steps h) rfl
  refine ⟨rounds, told, performs, ?_⟩
  intro round member
  obtain ⟨_, turn, finish, stops, answer⟩ := told.stops round member
  obtain ⟨grant, soon, returned, pairing⟩ := delivered room legal (performs.drives round member)
  obtain ⟨turn', position, stops'⟩ := stops_of_pairing room pairing soon
  obtain rfl := stops.unique stops'
  have here : round.finish = grant + 3 := finish.trans position.symm
  have same : round.returned = round.given.answered (trial.draws (grant + 1)).urandom := by
    rw [answer, here, Transaction.respond]
    exact (if_pos (ack_of_acking pairing.acked)).trans pairing.answer.symm
  refine ⟨grant, soon, here, same, ?_⟩
  rw [here, same]
  exact pairing

/-- Every transaction of a mailbox has come back, with the normal acknowledge and, for a
read, a word that the responder drew. -/
structure Drained (trial : Trial p) (h : Host) (cycle : Nat) : Prop where
  returned : List.Forall₂ (fun given returned => ∃ edge, returned =
      given.answered (trial.draws edge).urandom)
    (trial.mail h) (log (trial.scenario.returns h) cycle)
  queue : (trial.scenario.driver h cycle).queue = []
  silent : (trial.scenario.driver h cycle).port.wants = false
  errors : (trial.scenario.driver h cycle).errors = 0

theorem driver_errors (room : 2 < p.limit) (legal : trial.scenario.Legal) (h : Host)
    (cycle : Nat) : (trial.scenario.driver h cycle).errors = 0 := by
  obtain ⟨rounds, _, performs, answered⟩ := bench_rounds room legal h
  rcases Nat.eq_zero_or_pos cycle with rfl | later
  · rfl
  · have none : (rounds.takeWhile fun round => decide (round.finish < cycle)).countP
        Round.expired = 0 := by
      rw [List.countP_eq_zero]
      intro round member
      have limit : Driver.timeoutLimit = 65535 := rfl
      obtain ⟨grant, soon, finish, _⟩ := answered round (List.takeWhile_subset _ member)
      rw [Round.expired, decide_eq_true_eq]
      omega
    rw [performs.errors cycle later, none]
    rfl

/-- Legal transactions take at most 25 edges each, whatever is drawn. -/
theorem bench_drains (room : 2 < p.limit) (legal : trial.scenario.Legal) (h : Host) (cycle : Nat)
    (late : (trial.mail h).length * 25 < cycle) : Drained trial h cycle := by
  obtain ⟨rounds, told, performs, answered⟩ := bench_rounds room legal h
  have short : ∀ round ∈ rounds, round.finish ≤ round.drive + 14 := by
    intro round member
    obtain ⟨grant, soon, finish, _⟩ := answered round member
    omega
  have before : ∀ round ∈ rounds, round.finish < cycle := by
    intro round member
    have bound := told.within 14 short round member
    rw [← List.length_map Round.given, told.given] at bound
    omega
  have all : rounds.takeWhile (fun round => decide (round.finish < cycle)) = rounds := by
    rw [List.takeWhile_eq_self_iff]
    simpa using before
  have logged : log (trial.scenario.returns h) cycle = _ := performs.log_returned rfl cycle
  rw [all] at logged
  refine ⟨?_, ?_, ?_, ?_⟩
  · rw [← told.given, logged, List.forall₂_map_left_iff, List.forall₂_map_right_iff,
      List.forall₂_same]
    intro round member
    obtain ⟨grant, _, _, same, _⟩ := answered round member
    exact ⟨grant + 1, same⟩
  · rw [performs.queue cycle (by omega), List.dropWhile_eq_nil_iff.mpr (by simpa using before)]
    rfl
  · exact performs.quiet cycle (by omega) fun round member => .inr (before round member)
  · exact driver_errors room legal h cycle

/-- Every round of every driver is answered, in the order of its mailbox and in a bounded
time. -/
theorem mailboxes_served (room : 2 < p.limit) (legal : trial.scenario.Legal) (h : Host) :
    (∃ rounds, (∀ list, Rounds (trial.samples h) 0 (trial.mail h) list ↔ list = rounds) ∧
      Performs (trial.scenario.driver h) (trial.samples h) 0 rounds ∧
      ∀ round ∈ rounds, Answered trial h round) ∧
    ∀ cycle, (trial.mail h).length * 25 < cycle → Drained trial h cycle := by
  refine ⟨?_, bench_drains room legal h⟩
  obtain ⟨rounds, told, performs, answered⟩ := bench_rounds room legal h
  refine ⟨rounds, fun list => ⟨fun other => other.unique told, ?_⟩, performs, answered⟩
  rintro rfl
  exact told

theorem oneEach_mailbox_served :
    (∃ rounds, (∀ list, Rounds (oneEach.samples .master) 0 (oneEach.mail .master) list ↔
        list = rounds) ∧
      Performs (oneEach.scenario.driver .master) (oneEach.samples .master) 0 rounds ∧
      ∀ round ∈ rounds, Answered oneEach .master round) ∧
    ∀ cycle, (oneEach.mail .master).length * 25 < cycle → Drained oneEach .master cycle :=
  mailboxes_served (by decide) oneEach_legal .master

/-- The transactions of a host that the device has not been asked for: those the driver has
not returned, but for the one that is being served. -/
def owed (trial : Trial p) (h : Host) (cycle : Nat) : List (Transaction p) :=
  if (trial.scenario.arbiter cycle).accessing h || (trial.scenario.arbiter cycle).acking h then
    (trial.scenario.driver h cycle).queue.tail
  else (trial.scenario.driver h cycle).queue

theorem owed_eq (trial : Trial p) (h : Host) (cycle : Nat) : trial.owed h cycle =
    if (Service.run trial.scenario.seen cycle).owner = some h then
      (trial.scenario.driver h cycle).queue.tail
    else (trial.scenario.driver h cycle).queue := by
  have refines := trial.scenario.refines cycle
  rw [owed, refines.accessing, refines.acking]
  cases Service.run trial.scenario.seen cycle <;>
    simp [Service.client, Service.acked, Service.owner]

private theorem owed_served (served : (Service.run trial.scenario.seen cycle).owner = some h) :
    trial.owed h cycle = (trial.scenario.driver h cycle).queue.tail := by
  rw [owed_eq, if_pos served]

theorem owed_idle (idle : (Service.run trial.scenario.seen cycle).owner ≠ some h) :
    trial.owed h cycle = (trial.scenario.driver h cycle).queue := by
  rw [owed_eq, if_neg idle]

private theorem owed_granted (room : 2 < p.limit) (legal : trial.scenario.Legal)
    (granted : Service.grantAt trial.scenario.seen cycle = some h) :
    ∃ t, ((trial.scenario.seen cycle).host h).request = t.port.request ∧
      trial.owed h cycle = t :: trial.owed h (cycle + 1) := by
  have free : (Service.run trial.scenario.seen cycle).owner ≠ some h := by
    intro served
    rcases Service.owner_eq_some_iff.mp served with ⟨_, _, running⟩ | acked
    · cases (Service.grantFrom_running running).symm.trans granted
    · exact Service.ack_not_granted acked granted
  obtain ⟨t, count, point⟩ :=
    (trial.scenario.consistent h cycle).waits (Service.grantFrom_wants granted)
  have unfinished : (trial.scenario.arbiter cycle).acking h ≠ true := by
    intro acked
    exact Service.ack_not_granted ((trial.scenario.refines cycle).acking_iff.mp acked) granted
  rw [owed_idle free, owed_served (Service.owner_succ.mpr (.inl granted))]
  rcases (trial.scenario.driver_edge h cycle).queue with ⟨_, same⟩ | ⟨head, returned, _⟩
  · refine ⟨t, ?_, ?_⟩
    · rw [Scenario.seen_host, (trial.scenario.consistent h cycle).driven t count point]
    · rw [same, Driver.queue, point]
      rfl
  · exact absurd (return_acking (undisturbed room legal h _) returned) unfinished

private theorem owed_ungranted (room : 2 < p.limit) (legal : trial.scenario.Legal)
    (ungranted : Service.grantAt trial.scenario.seen cycle ≠ some h) :
    trial.owed h (cycle + 1) = trial.owed h cycle := by
  have queue := (trial.scenario.driver_edge h cycle).queue
  by_cases acked : Service.run trial.scenario.seen cycle = .ack h
  · have next : (Service.run trial.scenario.seen (cycle + 1)).owner ≠ some h := by
      intro served
      rcases Service.owner_succ.mp served with granted | ⟨held, elapsed, running⟩
      · exact ungranted granted
      · cases acked.symm.trans running
    have served : (Service.run trial.scenario.seen cycle).owner = some h := by
      rw [acked]
      rfl
    rw [owed_idle next, owed_served served]
    obtain ⟨t, count, point⟩ := (trial.scenario.consistent h cycle).waits
      ((handshake room legal h).served_wants cycle served)
    have returned := (trial.scenario.driver_edge h cycle).ends point
      (.inl (ack_of_acking ((trial.scenario.refines cycle).acking_iff.mpr acked)))
    rcases queue with ⟨none, _⟩ | ⟨head, _, split⟩
    · cases none.symm.trans returned
    · rw [split]
      rfl
  · have kept : (trial.scenario.driver h (cycle + 1)).queue =
        (trial.scenario.driver h cycle).queue := by
      rcases queue with ⟨_, same⟩ | ⟨head, returned, _⟩
      · exact same
      · exact absurd ((trial.scenario.refines cycle).acking_iff.mp
          (return_acking (undisturbed room legal h _) returned)) acked
    have same : (Service.run trial.scenario.seen (cycle + 1)).owner = some h ↔
        (Service.run trial.scenario.seen cycle).owner = some h := by
      rw [Service.run, Service.owner_succ, Service.owner_eq_some_iff]
      exact ⟨fun served => .inl (served.resolve_left ungranted),
        fun served => .inr (served.resolve_right acked)⟩
    simp only [owed_eq, kept, same]

/-- In every cycle the accesses that the device has seen of a host are its mailbox, in order,
up to the transactions that have not been served. -/
theorem device_order (room : 2 < p.limit) (legal : trial.scenario.Legal) (h : Host)
    (cycle : Nat) : (trial.mail h).map (fun t => t.port.request) =
      log (started trial.scenario.seen h) cycle ++
        (trial.owed h cycle).map fun t => t.port.request := by
  induction cycle with
  | zero =>
    rw [owed_idle fun served => by cases served]
    rfl
  | succ cycle ih =>
    rw [log, started_eq, ih]
    by_cases granted : Service.grantAt trial.scenario.seen cycle = some h
    · obtain ⟨t, request, split⟩ := owed_granted room legal granted
      rw [if_pos granted, split, request, List.append_assoc]
      rfl
    · rw [if_neg granted, owed_ungranted room legal granted, List.append_assoc]
      rfl

/-- Between accesses what the responder has counted and what it still owes to the hosts are
together all the transactions there are, modulo `2 ^ 32`. -/
theorem responder_total (room : 2 < p.limit) (legal : trial.scenario.Legal) (cycle : Nat)
    (quiet : (trial.scenario.arbiter cycle).busy = false) :
    (trial.responder cycle).numTransactions +
        .ofNat 32 (Host.total fun h => (trial.owed h cycle).length) =
      .ofNat 32 (Host.total fun h => (trial.mail h).length) := by
  rw [(trial.scenario.refines cycle).busy, Bool.not_eq_false'] at quiet
  have counted := ((trial.phase (Nat.lt_of_succ_lt room) cycle).settled quiet).1
  have grants : Served.grants .reset trial.demand cycle =
      Nat.count (fun edge => (Service.grantAt trial.scenario.seen edge).isSome = true) cycle := by
    rw [Served.grants]
    congr 1
    funext edge
    rw [← grantAt_eq, Scenario.grantAt_seen]
  have accesses : ∀ h, (trial.mail h).length =
      Nat.count (fun edge => Service.grantAt trial.scenario.seen edge = some h) cycle +
        (trial.owed h cycle).length := by
    intro h
    have starts : (fun edge => (started trial.scenario.seen h edge).isSome = true) =
        fun edge => Service.grantAt trial.scenario.seen edge = some h := by
      funext edge
      rw [started_eq]
      split <;> simp_all
    have order := congrArg List.length (device_order room legal h cycle)
    rw [List.length_append, List.length_map, List.length_map, length_log] at order
    simpa only [starts] using order
  rw [counted, grants, ← Host.total_count, ← BitVec.ofNat_add, ← Host.total_add]
  simp only [accesses]

theorem owed_nil (empty : (trial.scenario.driver h cycle).queue = []) :
    trial.owed h cycle = [] := by
  rw [owed_eq, empty]
  split <;> rfl

theorem responder_done (room : 2 < p.limit) (legal : trial.scenario.Legal)
    (empty : ∀ h, (trial.scenario.driver h cycle).queue = []) :
    (trial.responder cycle).numTransactions =
      .ofNat 32 (Host.total fun h => (trial.mail h).length) := by
  have quiet : (trial.scenario.arbiter cycle).busy = false := by
    rw [(trial.scenario.refines cycle).busy, Bool.not_eq_false', ← Bool.not_eq_false]
    intro busy
    obtain ⟨h, held, elapsed, running⟩ := Service.access_of_not_ready busy
    have wants := (handshake room legal h).served_wants cycle
      (Service.owner_eq_some_iff.mpr (.inl ⟨held, elapsed, running⟩))
    cases (Scenario.silent_of_empty (empty h)).symm.trans wants
  have all := responder_total room legal cycle quiet
  have none : (fun h => (trial.owed h cycle).length) = fun _ => 0 :=
    funext fun h => congrArg List.length (owed_nil (empty h))
  rw [none] at all
  exact (BitVec.add_zero _).symm.trans all

/-- The device is asked for every mailbox, in order and once, and the responder has counted
what it has been asked for, as far as an `int` can. -/
theorem device_served (room : 2 < p.limit) (legal : trial.scenario.Legal) :
    (∀ h cycle, (trial.mail h).map (fun t => t.port.request) =
      log (started trial.scenario.seen h) cycle ++
        (trial.owed h cycle).map fun t => t.port.request) ∧
    (∀ h cycle, (trial.mail h).length * 25 < cycle →
      log (started trial.scenario.seen h) cycle = (trial.mail h).map fun t => t.port.request) ∧
    ∀ cycle, (trial.scenario.arbiter cycle).busy = false →
      (trial.responder cycle).numTransactions +
          .ofNat 32 (Host.total fun h => (trial.owed h cycle).length) =
        .ofNat 32 (Host.total fun h => (trial.mail h).length) := by
  refine ⟨device_order room legal, ?_, responder_total room legal⟩
  intro h cycle late
  have order := device_order room legal h cycle
  rw [owed_nil (bench_drains room legal h cycle late).queue] at order
  exact (order.trans (List.append_nil _)).symm

theorem oneEach_device_served :
    (∀ h cycle, (oneEach.mail h).map (fun t => t.port.request) =
      log (started oneEach.scenario.seen h) cycle ++
        (oneEach.owed h cycle).map fun t => t.port.request) ∧
    (∀ h cycle, (oneEach.mail h).length * 25 < cycle →
      log (started oneEach.scenario.seen h) cycle =
        (oneEach.mail h).map fun t => t.port.request) ∧
    ∀ cycle, (oneEach.scenario.arbiter cycle).busy = false →
      (oneEach.responder cycle).numTransactions +
          .ofNat 32 (Host.total fun h => (oneEach.owed h cycle).length) =
        .ofNat 32 (Host.total fun h => (oneEach.mail h).length) :=
  device_served (by decide) oneEach_legal

end Trial

end RoundRobinArbiter
