import RoundRobinArbiter.Synchronous.Waiting
import RoundRobinArbiter.Testbench.Completeness
import Mathlib.Data.List.TakeWhile

/-! A driver as its tasks read: draw a delay, get a transaction, drive it, wait for the
acknowledge, and again. The clocked driver performs these rounds edge for edge, whatever
the device under test does, and is silent in between. -/

namespace RoundRobinArbiter

open Synchronous

/-- The samples of a driver: acknowledge and read data of its host, and the delay it draws. -/
abbrev Samples (p : Params) : Type := Nat → BitVec 2 × BitVec p.dw × Delay

/-- One turn of the loop of `run`: the edge at which `given` is driven, and the edge at which
it comes back. -/
structure Round (p : Params) where
  given : Transaction p
  drive : Nat
  finish : Nat
  returned : Transaction p

/-- The wait of a round used up the limit, with or without an acknowledge in its last turn. -/
def Round.expired (round : Round p) : Bool :=
  decide (Driver.timeoutLimit ≤ round.finish - round.drive)

/-- The rounds of a mailbox behind the edge at which the first delay is drawn. A delay is
drawn at the edge at which the transaction before it comes back. -/
inductive Rounds (samples : Samples p) : Nat → List (Transaction p) → List (Round p) → Prop where
  | done (edge : Nat) : Rounds samples edge [] []
  | next {edge turn : Nat} {t : Transaction p} {mailbox : List (Transaction p)}
      {rounds : List (Round p)} (drive finish : Nat)
      (delayed : drive = edge + 1 + (samples edge).2.2.edges) (waited : finish = drive + 1 + turn)
      (stops : Stops (fun k => (samples (drive + 1 + k)).1 ≠ 0) Driver.timeoutLimit turn)
      (later : Rounds samples finish mailbox rounds) :
      Rounds samples edge (t :: mailbox)
        (⟨t, drive, finish, t.respond (samples finish).1 (samples finish).2.1⟩ :: rounds)

namespace Rounds

variable {samples : Samples p}

theorem given (rounds : Rounds samples edge mailbox list) : list.map Round.given = mailbox := by
  induction rounds with
  | done edge => rfl
  | next drive finish delayed waited stops later ih => exact congrArg (List.cons _) ih

/-- How a round ends: with the first acknowledge, or at the edge that reaches the limit. -/
theorem stops (rounds : Rounds samples edge mailbox list) : ∀ round ∈ list, edge < round.drive ∧
    ∃ turn, round.finish = round.drive + 1 + turn ∧
      Stops (fun k => (samples (round.drive + 1 + k)).1 ≠ 0) Driver.timeoutLimit turn ∧
      round.returned =
        round.given.respond (samples round.finish).1 (samples round.finish).2.1 := by
  induction rounds with
  | done edge => exact fun _ member => absurd member List.not_mem_nil
  | @next edge turn t mailbox list drive finish delayed waited stops later ih =>
    intro round member
    rcases List.mem_cons.mp member with rfl | behind
    · exact ⟨show edge < drive by omega, turn, waited, stops, rfl⟩
    · obtain ⟨after, rest⟩ := ih round behind
      exact ⟨by omega, rest⟩

theorem first (rounds : Rounds samples edge mailbox list) (some : 0 < list.length) :
    list[0].drive = edge + 1 + (samples edge).2.2.edges := by
  cases rounds with
  | done edge => cases some
  | next drive finish delayed waited stops later => exact delayed

theorem consecutive (rounds : Rounds samples edge mailbox list) (i : Nat)
    (below : i + 1 < list.length) :
    list[i + 1].drive = list[i].finish + 1 + (samples list[i].finish).2.2.edges := by
  induction rounds generalizing i with
  | done edge => cases below
  | next drive finish delayed waited stops later ih =>
    have inside := Nat.succ_lt_succ_iff.mp below
    cases i with
    | zero => exact later.first inside
    | succ i => exact ih i inside

theorem within (rounds : Rounds samples edge mailbox list) (wait : Nat)
    (short : ∀ round ∈ list, round.finish ≤ round.drive + wait) :
    ∀ round ∈ list, round.finish ≤ edge + list.length * (wait + 11) := by
  induction rounds with
  | done edge => exact fun _ member => absurd member List.not_mem_nil
  | @next edge turn t mailbox list drive finish delayed waited stops later ih =>
    have bound := (samples edge).2.2.bounded
    have here : finish ≤ drive + wait := short _ List.mem_cons_self
    intro round member
    rw [List.length_cons, Nat.succ_mul]
    rcases List.mem_cons.mp member with rfl | behind
    · change finish ≤ _
      omega
    · have last := ih (fun other inside => short other (List.mem_cons_of_mem _ inside)) round behind
      omega

private theorem limited (rounds : Rounds samples edge mailbox list) :
    ∀ round ∈ list, round.finish ≤ round.drive + Driver.timeoutLimit := by
  intro round member
  obtain ⟨_, turn, finish, stops, _⟩ := rounds.stops round member
  have inside := stops.inside
  omega

theorem unique (rounds : Rounds samples edge mailbox list)
    (others : Rounds samples edge mailbox list') : list = list' := by
  induction rounds generalizing list' with
  | done edge =>
    cases others
    rfl
  | @next edge turn t mailbox list drive finish delayed waited stops later ih =>
    cases others with
    | @next _ turn' _ _ rest drive' finish' delayed' waited' stops' later' =>
      obtain rfl : drive' = drive := delayed'.trans delayed.symm
      obtain rfl : turn' = turn := stops'.unique stops
      obtain rfl : finish' = finish := waited'.trans waited.symm
      rw [ih later']

end Rounds

/-- A driver performs rounds: it shows the transaction of a round from the edge behind its
drive to its return, and no request at any other time. -/
structure Performs (states : Nat → Driver p) (samples : Samples p) (edge : Nat)
    (rounds : List (Round p)) : Prop where
  drives : ∀ round ∈ rounds, (states round.drive).point = .drive round.given
  holds : ∀ round ∈ rounds, ∀ cycle, round.drive < cycle → cycle ≤ round.finish →
    (states cycle).port = round.given.port
  quiet : ∀ cycle, edge < cycle → (∀ round ∈ rounds, cycle ≤ round.drive ∨ round.finish < cycle) →
    (states cycle).port.wants = false
  returns : ∀ cycle, edge < cycle →
    log (fun k => (states k).returns (samples k).1 (samples k).2.1) cycle =
      log (fun k => (states k).returns (samples k).1 (samples k).2.1) (edge + 1) ++
        (rounds.takeWhile fun round => decide (round.finish < cycle)).map Round.returned
  queue : ∀ cycle, edge < cycle → (states cycle).queue =
    (rounds.dropWhile fun round => decide (round.finish < cycle)).map Round.given
  errors : ∀ cycle, edge < cycle → (states cycle).errors = (states (edge + 1)).errors +
    (rounds.takeWhile fun round => decide (round.finish < cycle)).countP Round.expired

section Phases

variable {states : Nat → Driver p} {samples : Samples p}
variable (steps : ∀ cycle, states (cycle + 1) =
  (states cycle).step (samples cycle).1 (samples cycle).2.1 (samples cycle).2.2)

include steps in
theorem delay_runs (d : Driver p) (origin : states start = { d with point := .delay edges })
    (k : Nat) (below : k < edges) :
    states (start + k) = { d with point := .delay (edges - k) } := by
  induction k with
  | zero => exact origin
  | succ k ih =>
    rw [← Nat.add_assoc, steps, ih (Nat.lt_of_succ_lt below), Driver.step]
    exact if_neg (by omega)

include steps in
theorem delay_ends (d : Driver p) (origin : states start = { d with point := .delay edges })
    (positive : 1 ≤ edges) : states (start + edges) = Driver.get { d with point := .delay 1 } := by
  obtain ⟨k, rfl⟩ := Nat.exists_eq_add_of_le' positive
  rw [← Nat.add_assoc, steps, delay_runs steps d origin k (Nat.lt_succ_self k), Driver.step,
    Nat.add_sub_cancel_left]
  rfl

include steps in
private theorem get_runs (origin : (states start).point = .get) (k : Nat) :
    states (start + k) = states start := by
  induction k with
  | zero => rfl
  | succ k ih => rw [← Nat.add_assoc, steps, ih, Driver.step, origin]

include steps in
private theorem wait_runs (d : Driver p) {t : Transaction p}
    (origin : states drive = { d with point := .drive t })
    (stops : Stops (fun k => (samples (drive + 1 + k)).1 ≠ 0) Driver.timeoutLimit turn) :
    ∀ k ≤ turn, states (drive + 1 + k) = { d with port := t.port, point := .ack t k } := by
  have next : ∀ cycle count, states (drive + 1 + cycle) =
      { d with port := t.port, point := .ack t count } → ¬(samples (drive + 1 + cycle)).1 ≠ 0 →
      count + 1 < Driver.timeoutLimit →
      states (drive + 1 + (cycle + 1)) =
        { d with port := t.port, point := .ack t (count + 1) } := by
    intro cycle count waits silent patient
    rw [not_not] at silent
    have patience : ¬Driver.timeoutLimit ≤ count + 1 := Nat.not_le.mpr patient
    have on : Driver.gotResponse 0 (count + 1) = false := by simp [Driver.gotResponse, patience]
    rw [← Nat.add_assoc, steps, waits, Driver.step, silent]
    dsimp only
    rw [Transaction.respond_zero, Driver.countError, if_neg patience, on]
    rfl
  refine stops.waits next ?_
  rw [Nat.add_zero, steps, origin, Driver.step]

include steps in
private theorem wait_ends {d : Driver p} {t : Transaction p}
    (waits : states finish = { d with port := t.port, point := .ack t turn })
    (stops : (samples finish).1 ≠ 0 ∨ Driver.timeoutLimit ≤ turn + 1) :
    (states finish).returns (samples finish).1 (samples finish).2.1 =
        some (t.respond (samples finish).1 (samples finish).2.1) ∧
      (states (finish + 1)).mailbox = d.mailbox ∧
      (states (finish + 1)).point = .delay (samples finish).2.2.edges ∧
      (states (finish + 1)).port.wants = false ∧
      (states (finish + 1)).errors =
        d.errors + if Driver.timeoutLimit ≤ turn + 1 then 1 else 0 := by
  have got : Driver.gotResponse (samples finish).1 (turn + 1) = true := by
    simpa [Driver.gotResponse] using stops
  have next : states (finish + 1) =
      (Driver.countError (states finish) (turn + 1)).clear.addRandomDelay (samples finish).2.2 := by
    rw [steps, waits, Driver.step]
    exact if_pos got
  have kept : (Driver.countError (states finish) (turn + 1)).mailbox = d.mailbox := by
    rw [Driver.countError, waits]
    split <;> rfl
  refine ⟨?_, ?_, ?_, ?_, ?_⟩
  · rw [waits, Driver.returns]
    exact if_pos got
  · rw [next, ← kept]
    rfl
  · rw [next]
    rfl
  · rw [next]
    rfl
  · rw [next, waits]
    change (Driver.countError _ _).errors = _
    unfold Driver.countError
    split <;> rfl

end Phases

/-- What a driver shows from the edge that draws a delay to the return of the transaction
behind it. -/
inductive Cycle (d : Driver p) (t : Transaction p) (mailbox : List (Transaction p)) (drive : Nat) :
    Nat → Driver p → Prop where
  | delay {cycle left : Nat} (before : cycle < drive) :
      Cycle d t mailbox drive cycle { d with mailbox := t :: mailbox, point := .delay left }
  | drive : Cycle d t mailbox drive drive { d with mailbox := mailbox, point := .drive t }
  | ack (count : Nat) : Cycle d t mailbox drive (drive + 1 + count)
      { d with mailbox := mailbox, port := t.port, point := .ack t count }

namespace Cycle

variable {d s : Driver p} {t : Transaction p} {mailbox : List (Transaction p)} {drive cycle : Nat}

theorem queue (shows : Cycle d t mailbox drive cycle s) : s.queue = t :: mailbox := by
  cases shows <;> rfl

theorem errors (shows : Cycle d t mailbox drive cycle s) : s.errors = d.errors := by
  cases shows <;> rfl

private theorem port_before (shows : Cycle d t mailbox drive cycle s) (before : cycle ≤ drive) :
    s.port = d.port := by
  cases shows with
  | delay _ => rfl
  | drive => rfl
  | ack count => omega

private theorem port_behind (shows : Cycle d t mailbox drive cycle s) (behind : drive < cycle) :
    s.port = t.port := by
  cases shows with
  | delay before => omega
  | drive => omega
  | ack count => rfl

theorem returns {samples : Samples p} (shows : Cycle d t mailbox drive cycle s)
    (stops : Stops (fun k => (samples (drive + 1 + k)).1 ≠ 0) Driver.timeoutLimit turn)
    (before : cycle < drive + 1 + turn) :
    s.returns (samples cycle).1 (samples cycle).2.1 = none := by
  cases shows with
  | delay _ => rfl
  | drive => rfl
  | ack count =>
    have below : count < turn := by omega
    have silent := not_not.mp (stops.silent count below)
    have inside := stops.inside
    exact ((Driver.edge _ _ _ (samples (drive + 1 + count)).2.2).goes_on rfl silent (by omega)).1

end Cycle

section Loop

variable {states : Nat → Driver p} {samples : Samples p}
variable (steps : ∀ cycle, states (cycle + 1) =
  (states cycle).step (samples cycle).1 (samples cycle).2.1 (samples cycle).2.2)

include steps in
private theorem cycle_of_round {d : Driver p} {t : Transaction p} {mailbox : List (Transaction p)}
    (origin : states (edge + 1) =
      { d with mailbox := t :: mailbox, point := .delay (samples edge).2.2.edges })
    (delayed : drive = edge + 1 + (samples edge).2.2.edges)
    (stops : Stops (fun k => (samples (drive + 1 + k)).1 ≠ 0) Driver.timeoutLimit turn)
    (cycle : Nat) (after : edge < cycle) (before : cycle ≤ drive + 1 + turn) :
    Cycle d t mailbox drive cycle (states cycle) := by
  have driven : states drive = { d with mailbox := mailbox, point := .drive t } := by
    rw [delayed]
    exact delay_ends steps { d with mailbox := t :: mailbox } origin (samples edge).2.2.positive
  rcases Nat.lt_trichotomy cycle drive with early | rfl | late
  · obtain ⟨k, rfl⟩ := Nat.exists_eq_add_of_le after
    rw [delay_runs steps { d with mailbox := t :: mailbox } origin k (by omega)]
    exact .delay early
  · rw [driven]
    exact .drive
  · obtain ⟨k, rfl⟩ := Nat.exists_eq_add_of_le late
    rw [wait_runs steps { d with mailbox := mailbox } driven stops k (by omega)]
    exact .ack k

include steps in
/-- From the edge that draws a delay on, a driver performs the rounds of its mailbox. -/
private theorem performs_rounds (mailbox : List (Transaction p)) (edge : Nat)
    (holds : (states (edge + 1)).mailbox = mailbox)
    (point : (states (edge + 1)).point = .delay (samples edge).2.2.edges)
    (silent : (states (edge + 1)).port.wants = false) :
    ∃ rounds, Rounds samples edge mailbox rounds ∧ Performs states samples edge rounds := by
  induction mailbox generalizing edge with
  | nil =>
    generalize same : states (edge + 1) = d at holds point silent
    have origin : states (edge + 1) = { d with point := .delay (samples edge).2.2.edges } := by
      rw [same, ← point]
    -- with an empty mailbox the loop stops in `get` behind its delay
    have rests : ∀ cycle, edge < cycle → (states cycle).port = d.port ∧
        (states cycle).queue = [] ∧ (states cycle).errors = d.errors ∧
        (states cycle).returns (samples cycle).1 (samples cycle).2.1 = none := by
      intro cycle after
      obtain ⟨k, rfl⟩ := Nat.exists_eq_add_of_le after
      rcases Nat.lt_or_ge k (samples edge).2.2.edges with early | late
      · rw [delay_runs steps d origin k early]
        exact ⟨rfl, holds, rfl, rfl⟩
      · obtain ⟨more, rfl⟩ := Nat.exists_eq_add_of_le late
        have got : states (edge + 1 + (samples edge).2.2.edges) = { d with point := .get } := by
          rw [delay_ends steps d origin (samples edge).2.2.positive, Driver.get, holds]
        rw [← Nat.add_assoc, get_runs steps (by rw [got]), got]
        exact ⟨rfl, holds, rfl, rfl⟩
    refine ⟨[], .done edge, fun _ member => absurd member List.not_mem_nil,
      fun _ member => absurd member List.not_mem_nil, ?_, ?_, ?_, ?_⟩
    · intro cycle after _
      rw [(rests cycle after).1]
      exact silent
    · intro cycle after
      rw [log_quiet after fun k from_ _ => (rests k from_).2.2.2]
      exact (List.append_nil _).symm
    · exact fun cycle after => (rests cycle after).2.1
    · intro cycle after
      rw [(rests cycle after).2.2.1, same]
      rfl
  | cons t mailbox ih =>
    generalize same : states (edge + 1) = d at holds point silent
    have origin : states (edge + 1) =
        { d with mailbox := t :: mailbox, point := .delay (samples edge).2.2.edges } := by
      rw [same, ← holds, ← point]
    generalize delayed : edge + 1 + (samples edge).2.2.edges = drive
    obtain ⟨turn, stops⟩ := Stops.exists (fun k => (samples (drive + 1 + k)).1 ≠ 0)
      (show 0 < Driver.timeoutLimit by decide)
    have shows := cycle_of_round steps origin delayed.symm stops
    have quiet : ∀ cycle, edge < cycle → cycle < drive + 1 + turn →
        (states cycle).returns (samples cycle).1 (samples cycle).2.1 = none :=
      fun cycle after before => (shows cycle after (Nat.le_of_lt before)).returns stops before
    have driven : states drive = { d with mailbox := mailbox, point := .drive t } := by
      rw [← delayed]
      exact delay_ends steps { d with mailbox := t :: mailbox } origin (samples edge).2.2.positive
    obtain ⟨returned, holds', point', silent', errors'⟩ := wait_ends steps
      (wait_runs steps { d with mailbox := mailbox } driven stops turn (Nat.le_refl _)) stops.last
    generalize finishes : drive + 1 + turn = finish
      at shows quiet returned holds' point' silent' errors'
    obtain ⟨rounds, told, performs⟩ := ih finish holds' point' silent'
    refine ⟨_, .next drive finish delayed.symm finishes.symm stops told, ?_, ?_, ?_, ?_, ?_, ?_⟩
    · intro round member
      rcases List.mem_cons.mp member with rfl | behind
      · exact congrArg Driver.point driven
      · exact performs.drives round behind
    · intro round member cycle after before
      rcases List.mem_cons.mp member with rfl | behind
      · change drive < cycle at after
        exact (shows cycle (by omega) before).port_behind after
      · exact performs.holds round behind cycle after before
    · intro cycle after outside
      rcases Nat.lt_or_ge finish cycle with behind | inside
      · exact performs.quiet cycle behind fun round member =>
          outside round (List.mem_cons_of_mem _ member)
      · have early : cycle ≤ drive := (outside _ List.mem_cons_self).resolve_right
          (Nat.not_lt.mpr inside)
        rw [(shows cycle after inside).port_before early]
        exact silent
    · intro cycle after
      rcases Nat.lt_or_ge finish cycle with behind | inside
      · have first : log (fun k => (states k).returns (samples k).1 (samples k).2.1) finish =
            log (fun k => (states k).returns (samples k).1 (samples k).2.1) (edge + 1) :=
          log_quiet (by omega) fun k from_ before => quiet k from_ (by omega)
        rw [performs.returns cycle behind, log, returned, first,
          List.takeWhile_cons_of_pos (by simpa using behind), List.append_assoc]
        rfl
      · rw [log_quiet after fun k from_ before => quiet k from_ (by omega),
          List.takeWhile_cons_of_neg (by simpa using inside)]
        exact (List.append_nil _).symm
    · intro cycle after
      rcases Nat.lt_or_ge finish cycle with behind | inside
      · rw [performs.queue cycle behind, List.dropWhile_cons_of_pos (by simpa using behind)]
      · rw [(shows cycle after inside).queue, List.dropWhile_cons_of_neg (by simpa using inside),
          List.map_cons, told.given]
    · intro cycle after
      rw [same]
      rcases Nat.lt_or_ge finish cycle with behind | inside
      · have counted : Round.expired ⟨t, drive, finish,
            t.respond (samples finish).1 (samples finish).2.1⟩ =
              decide (Driver.timeoutLimit ≤ turn + 1) := by
          have spent : finish - drive = turn + 1 := by omega
          rw [Round.expired, spent]
        rw [performs.errors cycle behind, errors',
          List.takeWhile_cons_of_pos (by simpa using behind), List.countP_cons, counted]
        simp only [decide_eq_true_eq]
        exact (Nat.add_assoc _ _ _).trans (congrArg _ (Nat.add_comm _ _))
      · rw [(shows cycle after inside).errors,
          List.takeWhile_cons_of_neg (by simpa using inside)]
        rfl

include steps in
theorem performs_mailbox (initial : states 0 = .start mailbox) :
    ∃ rounds, Rounds samples 0 mailbox rounds ∧ Performs states samples 0 rounds := by
  have first : states (0 + 1) = (Driver.start mailbox).addRandomDelay (samples 0).2.2 := by
    rw [steps, initial]
    rfl
  refine performs_rounds steps mailbox 0 ?_ ?_ ?_ <;> rw [first] <;> rfl

end Loop

namespace Performs

variable {states : Nat → Driver p} {samples : Samples p} {rounds : List (Round p)}

theorem log_returned (performs : Performs states samples 0 rounds)
    (initial : states 0 = .start mailbox) (cycle : Nat) :
    log (fun k => (states k).returns (samples k).1 (samples k).2.1) cycle =
      (rounds.takeWhile fun round => decide (round.finish < cycle)).map Round.returned := by
  rcases Nat.eq_zero_or_pos cycle with rfl | later
  · rw [List.takeWhile_eq_nil_iff.mpr (by simp)]
    rfl
  · rw [performs.returns cycle later, log, initial]
    rfl

end Performs

namespace Traffic

variable (traffic : Traffic p)

/-- What the driver of a host samples. -/
def samples (h : Host) : Samples p :=
  fun edge => ((traffic.dut edge).ack h, (traffic.dut edge).drd h, traffic.delay edge h)

theorem driver_steps (h : Host) (cycle : Nat) : traffic.driver h (cycle + 1) =
    (traffic.driver h cycle).step (traffic.samples h cycle).1 (traffic.samples h cycle).2.1
      (traffic.samples h cycle).2.2 := rfl

/-- Whatever the device under test does, the driver of a host performs the rounds of its
mailbox, one behind the other, and there is only one way to tell them. -/
theorem driver_rounds (h : Host) :
    ∃ rounds, (∀ list, Rounds (traffic.samples h) 0 (traffic.mail h) list ↔ list = rounds) ∧
      Performs (traffic.driver h) (traffic.samples h) 0 rounds := by
  obtain ⟨rounds, told, performs⟩ := performs_mailbox (traffic.driver_steps h) rfl
  refine ⟨rounds, fun list => ⟨fun other => other.unique told, ?_⟩, performs⟩
  rintro rfl
  exact told

/-- However it behaves, all drivers are done after at most 65546 edges a transaction. -/
theorem drivers_finish (h : Host) (cycle : Nat)
    (late : (traffic.mail h).length * 65546 < cycle) :
    traffic.finished h cycle = (traffic.mail h).length ∧
      (traffic.driver h cycle).queue = [] ∧ (traffic.driver h cycle).port.wants = false := by
  obtain ⟨rounds, told, performs⟩ := performs_mailbox (traffic.driver_steps h) rfl
  have number : rounds.length = (traffic.mail h).length := by
    rw [← told.given, List.length_map]
  have before : ∀ round ∈ rounds, round.finish < cycle := by
    intro round member
    have bound := told.within _ told.limited round member
    have limit : Driver.timeoutLimit = 65535 := rfl
    rw [number, limit] at bound
    omega
  have all : rounds.takeWhile (fun round => decide (round.finish < cycle)) = rounds := by
    rw [List.takeWhile_eq_self_iff]
    simpa using before
  have logged := performs.log_returned rfl cycle
  rw [all] at logged
  refine ⟨?_, ?_, ?_⟩
  · rw [← number, finished, ← length_log]
    exact (congrArg List.length logged).trans (List.length_map _)
  · rw [performs.queue cycle (by omega), List.dropWhile_eq_nil_iff.mpr (by simpa using before)]
    rfl
  · exact performs.quiet cycle (by omega) fun round member => .inr (before round member)

end Traffic

/-- The Slave's read, and a device under test that never answers. -/
def unansweredTraffic : Traffic .default where
  mail := unansweredRead.mail
  delay edge := (unansweredRead.around edge).delay
  dut _ := Arbiter.outputs .reset 0

theorem unansweredTraffic_finishes : unansweredTraffic.finished .slave 65547 = 1 ∧
    (unansweredTraffic.driver .slave 65547).queue = [] ∧
    (unansweredTraffic.driver .slave 65547).port.wants = false :=
  Traffic.drivers_finish unansweredTraffic .slave 65547 (by decide)

end RoundRobinArbiter
