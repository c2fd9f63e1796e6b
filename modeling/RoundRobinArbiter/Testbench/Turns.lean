import RoundRobinArbiter.Rotation.Following
import RoundRobinArbiter.Testbench.Fidelity
import RoundRobinArbiter.Testbench.Generator
import RoundRobinArbiter.Testbench.Outcomes

/-! The counters of the bench as the turns of a rotation. The monitor follows the rotation
Slave, Test, Extra, Master, so that its total decides every counter; of the whole bench it
takes the completions that come when it is their turn, and the test ends by itself only
where that is all of them. -/

namespace RoundRobinArbiter

open Synchronous Rotation

/-- The host behind a host in the rotation is the one of `get_next_host`. -/
theorem Host.next_eq (h : Host) : Rotation.next Host.place h = h.next := rfl

namespace Monitor

variable {wires : Nat → Interface p}

/-- The monitor is the follower of every sequence of events of which it puts those that come
in its turn. -/
theorem follows {events : Nat → Option Host} (puts : ∀ edge, putHost wires edge =
      if events edge = some (stageAt wires edge).host then some (stageAt wires edge).host
      else none) (cycle : Nat) :
    (Follower.run Host.place .slave events cycle).current = (stageAt wires cycle).host ∧
      (Follower.run Host.place .slave events cycle).taken = fun h => recorded wires h cycle := by
  induction cycle with
  | zero => exact ⟨rfl, rfl⟩
  | succ cycle ih =>
    obtain ⟨current, taken⟩ := ih
    have counted : (fun h => recorded wires h (cycle + 1)) = fun h =>
        recorded wires h cycle + if putHost wires cycle = some h then 1 else 0 :=
      funext fun h => recorded_succ wires h cycle
    have turned := (stage_edge wires cycle).host
    have here := puts cycle
    rw [counted]
    by_cases takes : Follower.Takes Host.place .slave events cycle
    · have event : events cycle = some (stageAt wires cycle).host := current ▸ takes
      rw [if_pos event] at here
      rw [Follower.run_takes _ _ _ takes, current, taken, here]
      refine ⟨?_, ?_⟩
      · rcases turned with ⟨none, _⟩ | ⟨_, _, next⟩
        · rw [putHost, none] at here
          cases here
        · exact (Host.next_eq _).trans next.symm
      · funext h
        by_cases own : (stageAt wires cycle).host = h
        · subst own
          simp
        · rw [if_neg fun same => own (Option.some.inj same), Nat.add_zero]
          exact Function.update_of_ne (Ne.symm own) _ fun h => recorded wires h cycle
    · have other : events cycle ≠ some (stageAt wires cycle).host := by
        rw [← current]
        exact takes
      rw [if_neg other] at here
      rw [Follower.run_passes _ _ _ takes, current, taken, here]
      refine ⟨?_, rfl⟩
      rcases turned with ⟨_, same⟩ | ⟨_, put, _⟩
      · exact same.symm
      · rw [putHost, put] at here
        cases here

private theorem follows_puts (wires : Nat → Interface p) (cycle : Nat) :
    (Follower.run Host.place .slave (putHost wires) cycle).current = (stageAt wires cycle).host ∧
      (Follower.run Host.place .slave (putHost wires) cycle).taken =
        fun h => recorded wires h cycle := by
  refine follows ?_ cycle
  intro edge
  rcases (stage_edge wires edge).host with ⟨none, _⟩ | ⟨t, put, _⟩
  · rw [putHost, none]
    rfl
  · rw [putHost, put]
    exact (if_pos rfl).symm

end Monitor

theorem Host.total_taken (events : Nat → Option Host) (cycle : Nat) :
    Host.total (Follower.run Host.place .slave events cycle).taken =
      Follower.turns Host.place .slave events cycle := by
  have counts := fun h => Follower.taken_eq Host.place .slave events h cycle
  have slave : gap Host.place .slave .slave = 0 := rfl
  have test : gap Host.place .slave .test = 1 := rfl
  have extra : gap Host.place .slave .extra = 2 := rfl
  have master : gap Host.place .slave .master = 3 := rfl
  simp only [Host.total, Host.all, List.foldl_cons, List.foldl_nil, counts, slave, test, extra,
    master]
  omega

namespace Monitor

variable {wires : Nat → Interface p}

/-- All that has been put before a cycle. -/
def recordedAll (wires : Nat → Interface p) (cycle : Nat) : Nat :=
  Host.total fun h => recorded wires h cycle

private theorem recordedAll_succ (wires : Nat → Interface p) (cycle : Nat) :
    recordedAll wires (cycle + 1) =
      recordedAll wires cycle + if (putAt wires cycle).isSome then 1 else 0 := by
  simp only [recordedAll, recorded_succ]
  rw [Host.total_add, putHost]
  congr 1
  cases putAt wires cycle with
  | none => rfl
  | some put =>
    obtain ⟨h, t⟩ := put
    cases h <;> rfl

/-- The rotation shares them out. -/
theorem recorded_eq (wires : Nat → Interface p) (cycle : Nat) (h : Host) :
    recorded wires h cycle =
      (recordedAll wires cycle + (3 - gap Host.place .slave h)) / 4 := by
  have taken := (follows_puts wires cycle).2
  rw [recordedAll, ← taken, Host.total_taken, ← congrFun taken h]
  exact Follower.taken_eq Host.place .slave _ h cycle

/-- How many transactions there can be before the monitor has to wait for a host: the one in
hand, and those of the hosts in between. -/
def remaining (h : Host) : Stage p → Nat
  | .watch g => gap Host.place g h
  | .collect g _ => gap Host.place g.next h + 1
  | .respond g _ _ => gap Host.place g.next h + 1

private theorem remaining_le (h : Host) (stage : Stage p) : remaining h stage ≤ 4 := by
  have bound := fun g => gap_lt Host.place g h
  cases stage with
  | watch g => exact Nat.le_of_lt (bound g)
  | collect g t => exact bound g.next
  | respond g t count => exact bound g.next

private theorem gap_next {g h : Host} (other : g ≠ h) :
    gap Host.place g.next h + 1 = gap Host.place g h := by
  revert other
  cases g <;> cases h <;> decide

private theorem remaining_step {w : Interface p} {stage after : Stage p}
    {put : Option (Host × Transaction p)} (edge : Stage.Edge w stage after put)
    (silent : w.wants h = false) :
    remaining h after + (if put.isSome then 1 else 0) ≤ remaining h stage := by
  have other : ∀ g, w.wants g = true → g ≠ h := by
    rintro g wants rfl
    cases silent.symm.trans wants
  cases edge with
  | miss => exact Nat.le_refl _
  | detect wants => exact Nat.le_of_eq (gap_next (other _ wants))
  | sample => exact Nat.le_refl _
  | wait => exact Nat.le_refl _
  | pass => exact Nat.le_refl _
  | chain stops inner wants =>
    exact Nat.succ_le_succ (Nat.le_of_eq (gap_next (other _ wants)))

end Monitor

namespace Scoreboard

/-- The sign bit of the Slave's counter is the first to be set, and the Master comes last in
the rotation. -/
theorem allDone_iff (wires : Nat → Interface p) (cycle n : Nat) :
    (run wires cycle).allDone n = true ↔
      4 * n ≤ Monitor.recordedAll wires cycle % 2 ^ 34 ∧
        Monitor.recordedAll wires cycle % 2 ^ 34 + 3 < 2 ^ 33 := by
  have slave : gap Host.place .slave .slave = 0 := rfl
  have master : gap Host.place .slave .master = 3 := rfl
  simp only [allDone_eq_true, numTransactions_run, Monitor.recorded_eq,
    BitVec.toInt_eq_toNat_cond, BitVec.toNat_ofNat]
  generalize Monitor.recordedAll wires cycle = all
  constructor
  · intro enough
    have first := enough .slave
    have last := enough .master
    rw [slave] at first
    rw [master] at last
    omega
  · intro enough h
    have bound := gap_lt Host.place .slave h
    omega

/-- Whatever is on the wires, the number of all transactions decides how many there are of
every host, modulo `2 ^ 32` its counter, and with the counters when `wait_for_completion`
ends. -/
theorem counters_balanced (wires : Nat → Interface p) (cycle : Nat) :
    (∀ h, Monitor.recorded wires h cycle =
        (Monitor.recordedAll wires cycle + (3 - gap Host.place .slave h)) / 4 ∧
      (run wires cycle).numTransactions h = .ofNat 32 (Monitor.recorded wires h cycle)) ∧
    ∀ numTransactions, (run wires cycle).allDone numTransactions = true ↔
      4 * numTransactions ≤ Monitor.recordedAll wires cycle % 2 ^ 34 ∧
        Monitor.recordedAll wires cycle % 2 ^ 34 + 3 < 2 ^ 33 :=
  ⟨fun h => ⟨Monitor.recorded_eq wires cycle h, numTransactions_run wires h cycle⟩,
    allDone_iff wires cycle⟩

/-- A host that has fallen silent stops the counters of all the others, whatever is on the
wires: there are at most four more transactions, for ever. -/
theorem counters_stop (wires : Nat → Interface p) (h : Host) (start : Nat)
    (silent : ∀ cycle, start ≤ cycle → (wires cycle).wants h = false) (cycle : Nat)
    (later : start ≤ cycle) : ∃ more : Host → Nat, Host.total more ≤ 4 ∧ ∀ g,
      Monitor.recorded wires g cycle = Monitor.recorded wires g start + more g ∧
      (run wires cycle).numTransactions g =
        (run wires start).numTransactions g + .ofNat 32 (more g) := by
  have paid : Monitor.recordedAll wires cycle + Monitor.remaining h (Monitor.stageAt wires cycle) ≤
      Monitor.recordedAll wires start + Monitor.remaining h (Monitor.stageAt wires start) := by
    induction cycle, later using Nat.le_induction with
    | base => exact Nat.le_refl _
    | succ cycle later ih =>
      have step := Monitor.remaining_step (Monitor.stage_edge wires cycle) (silent cycle later)
      rw [Monitor.recordedAll_succ]
      omega
  have bound := Monitor.remaining_le h (Monitor.stageAt wires start)
  have split : ∀ g, Monitor.recorded wires g cycle = Monitor.recorded wires g start +
      (Monitor.recorded wires g cycle - Monitor.recorded wires g start) := fun g =>
    (Nat.add_sub_of_le (Nat.count_monotone _ later)).symm
  refine ⟨fun g => Monitor.recorded wires g cycle - Monitor.recorded wires g start, ?_, ?_⟩
  · have all : Monitor.recordedAll wires cycle = Monitor.recordedAll wires start + Host.total
        fun g => Monitor.recorded wires g cycle - Monitor.recorded wires g start := by
      rw [Monitor.recordedAll, Monitor.recordedAll, ← Host.total_add]
      exact congrArg Host.total (funext split)
    omega
  · intro g
    refine ⟨split g, ?_⟩
    rw [numTransactions_run, numTransactions_run, ← BitVec.ofNat_add, ← split]

/-- The Slave's read is answered, but the Master never requests. -/
theorem slaveWaits_counters_stop : ∃ more : Host → Nat, Host.total more ≤ 4 ∧ ∀ g,
    Monitor.recorded (slaveWaits fun _ => 1) g 1000 =
        Monitor.recorded (slaveWaits fun _ => 1) g 0 + more g ∧
      (run (slaveWaits fun _ => 1) 1000).numTransactions g =
        (run (slaveWaits fun _ => 1) 0).numTransactions g + .ofNat 32 (more g) :=
  counters_stop (slaveWaits fun _ => 1) .master 0 (fun _ _ => rfl) 1000 (Nat.zero_le _)

end Scoreboard

theorem Driver.returned_add_queue {drivers : Nat → Driver p}
    {returns : Nat → Option (Transaction p)} {ack : Nat → BitVec 2} {drd : Nat → BitVec p.dw}
    (edges : ∀ edge, Edge (ack edge) (drd edge) (drivers edge) (drivers (edge + 1))
      (returns edge)) (cycle : Nat) :
    (log returns cycle).length + (drivers cycle).queue.length = (drivers 0).queue.length := by
  induction cycle with
  | zero => exact Nat.zero_add _
  | succ cycle ih =>
    rw [log, List.length_append, ← ih]
    rcases (edges cycle).queue with ⟨none, same⟩ | ⟨head, returned, split⟩
    · rw [none, same]
      rfl
    · rw [returned, split]
      simp only [Option.toList_some, List.length_cons, List.length_nil]
      omega

/-- The shortest mailbox bounds what is recorded of all of them and what the counters show
together, whatever the device under test does. -/
theorem Traffic.recorded_le (traffic : Traffic p) (h : Host) (cycle : Nat) :
    Monitor.recordedAll traffic.wires cycle ≤
        4 * (traffic.mail h).length + gap Host.place .slave h ∧
      Host.all.foldl
          (fun total g => total + ((traffic.scoreboard cycle).numTransactions g).toInt) (0 : Int) ≤
        (4 * (traffic.mail h).length + gap Host.place .slave h : Nat) := by
  have counted := (Traffic.lagging traffic h cycle).counted
  have all := Driver.returned_add_queue (traffic.driver_edge h) cycle
  have share := Monitor.recorded_eq traffic.wires cycle h
  have bound := gap_lt Host.place .slave h
  rw [length_log] at all
  rw [finished] at counted
  change _ + _ = (traffic.mail h).length at all
  have total : Monitor.recordedAll traffic.wires cycle ≤
      4 * (traffic.mail h).length + gap Host.place .slave h := by omega
  refine ⟨total, ?_⟩
  have shown := fun g => Scoreboard.numTransactions_le traffic.wires g cycle
  have master := shown .master
  have slave := shown .slave
  have test := shown .test
  have extra := shown .extra
  simp only [Monitor.recordedAll, Host.total, Host.all, List.foldl_cons, List.foldl_nil] at total
  simp only [scoreboard, Host.all, List.foldl_cons, List.foldl_nil]
  omega

/-- The host whose ACK cycle it is. -/
def Scenario.ackedHost (scenario : Scenario p) (cycle : Nat) : Option Host :=
  Host.all.find? (scenario.arbiter cycle).acking

namespace Scenario

variable (scenario : Scenario p)

private theorem ackedHost_eq (cycle : Nat) :
    scenario.ackedHost cycle = (Service.run scenario.seen cycle).acked := by
  have same : (scenario.arbiter cycle).acking =
      fun h => (Service.run scenario.seen cycle).acked == some h :=
    funext fun _ => (scenario.refines cycle).acking
  rw [ackedHost, same]
  cases (Service.run scenario.seen cycle).acked with
  | none => rfl
  | some h => cases h <;> rfl

theorem ackedHost_iff (h : Host) (cycle : Nat) :
    scenario.ackedHost cycle = some h ↔ Service.run scenario.seen cycle = .ack h := by
  rw [ackedHost_eq]
  cases Service.run scenario.seen cycle <;> simp [Service.acked]

end Scenario

namespace Trial

variable {trial : Trial p}

/-- With legal transactions the monitor takes those of the completions that come in its
turn, and the scoreboard counts them. -/
theorem scoreboard_follows (room : 2 < p.limit) (legal : trial.scenario.Legal) (cycle : Nat) :
    (Follower.run Host.place .slave trial.scenario.ackedHost cycle).current =
        (Scoreboard.run trial.scenario.wires cycle).expectedHost ∧
      (Follower.run Host.place .slave trial.scenario.ackedHost cycle).taken =
        fun h => Monitor.recorded trial.scenario.wires h cycle := by
  rw [Scoreboard.expected_run]
  refine Monitor.follows ?_ cycle
  intro edge
  by_cases acked : trial.scenario.ackedHost edge =
      some (Monitor.stageAt trial.scenario.wires edge).host
  · rw [if_pos acked]
    have shown := (trial.scenario.ackedHost_iff _ _).mp acked
    obtain ⟨t, count, stage⟩ := respond_of_acked room legal shown rfl
    rw [Monitor.putHost, Monitor.put_of_stops stage (.inl ((ack_iff room _ edge).mpr shown))]
    rfl
  · rw [if_neg acked]
    rcases (Monitor.stage_edge trial.scenario.wires edge).host with ⟨none, _⟩ | ⟨t, put, _⟩
    · rw [Monitor.putHost, none]
      rfl
    · exact absurd ((trial.scenario.ackedHost_iff _ _).mpr (acked_of_put room legal put)) acked

private theorem acked_le (room : 2 < p.limit) (legal : trial.scenario.Legal) (h : Host)
    (cycle : Nat) : Nat.count (fun edge => trial.scenario.ackedHost edge = some h) cycle ≤
      (trial.mail h).length := by
  have all := Driver.returned_add_queue (trial.scenario.driver_edge h) cycle
  rw [length_log] at all
  have counted : Nat.count (fun edge => trial.scenario.ackedHost edge = some h) cycle ≤
      Nat.count (fun edge => (trial.scenario.returns h edge).isSome = true) cycle := by
    refine Nat.count_mono_left ?_
    intro edge _ event
    have acked := (trial.scenario.ackedHost_iff h edge).mp event
    have served : (Service.run trial.scenario.seen edge).owner = some h := by
      rw [acked]
      rfl
    obtain ⟨t, count, point⟩ := (trial.scenario.consistent h edge).waits
      ((handshake room legal h).served_wants edge served)
    rw [(trial.scenario.driver_edge h edge).ends point (.inl ((ack_iff room h edge).mpr acked))]
    rfl
  exact counted.trans (Nat.le_of_add_right_le (Nat.le_of_eq all))

section Filled

variable (room : 2 < p.limit) (legal : trial.scenario.Legal) (n : Nat)
variable (filled : ∀ h, (trial.mail h).length = n)

include room legal filled in
theorem acked_log_le (cycle : Nat) : (log trial.scenario.ackedHost cycle).length ≤ 4 * n := by
  have counts := fun h => acked_le room legal h cycle
  simp only [filled] at counts
  rw [length_log, ← Host.total_count]
  have master := counts .master
  have slave := counts .slave
  have test := counts .test
  have extra := counts .extra
  simp only [Host.total, Host.all, List.foldl_cons, List.foldl_nil]
  omega

include room legal filled in
/-- All that can be recorded has been when all completions have come in the rotation. -/
theorem recordedAll_iff_rotation (cycle : Nat) :
    4 * n ≤ Monitor.recordedAll trial.scenario.wires cycle ↔
      log trial.scenario.ackedHost cycle = (List.range (4 * n)).map (turn Host.place .slave) := by
  rw [Monitor.recordedAll, ← (scoreboard_follows room legal cycle).2, Host.total_taken]
  have taken := Follower.turns_eq_iff Host.place .slave trial.scenario.ackedHost cycle
  constructor
  · intro enough
    have most := acked_log_le room legal n filled cycle
    have fewer := Follower.turns_le Host.place .slave trial.scenario.ackedHost cycle
    have length : (log trial.scenario.ackedHost cycle).length = 4 * n := by omega
    rw [← length]
    exact taken.mp (by omega)
  · intro rotation
    have length : (log trial.scenario.ackedHost cycle).length = 4 * n := by
      rw [rotation, List.length_map, List.length_range]
    rw [← length] at rotation ⊢
    exact Nat.le_of_eq (taken.mpr rotation).symm

include room legal filled in
private theorem recordedAll_le (cycle : Nat) :
    Monitor.recordedAll trial.scenario.wires cycle ≤ 4 * n := by
  rw [Monitor.recordedAll, ← (scoreboard_follows room legal cycle).2, Host.total_taken]
  exact (Follower.turns_le Host.place .slave trial.scenario.ackedHost cycle).trans
    (acked_log_le room legal n filled cycle)

include room legal filled in
theorem allDone_iff_rotation (int : n < 2 ^ 31) (cycle : Nat) :
    (Scoreboard.run trial.scenario.wires cycle).allDone n = true ↔
      log trial.scenario.ackedHost cycle = (List.range (4 * n)).map (turn Host.place .slave) := by
  have most := recordedAll_le room legal n filled cycle
  rw [Scoreboard.allDone_iff, ← recordedAll_iff_rotation room legal n filled]
  omega

include room legal filled in
theorem acked_log_settled (late : n * 25 < start) (later : start ≤ cycle) :
    log trial.scenario.ackedHost cycle = log trial.scenario.ackedHost start := by
  refine log_quiet later ?_
  intro k after _
  rw [Option.eq_none_iff_forall_ne_some]
  intro h event
  have acked := (trial.scenario.ackedHost_iff h k).mp event
  have wants := (handshake room legal h).served_wants k (Service.owner_eq_some_iff.mpr (.inr acked))
  have empty := (bench_drains room legal h k (by rw [filled]; omega)).queue
  cases (Scenario.silent_of_empty empty).symm.trans wants

include room legal filled in
theorem rotation_of_allDone {done : Nat}
    (all : (Scoreboard.run trial.scenario.wires done).allDone n = true) (late : n * 25 < cycle) :
    log trial.scenario.ackedHost cycle = (List.range (4 * n)).map (turn Host.place .slave) := by
  have enough := ((Scoreboard.allDone_iff _ _ _).mp all).1.trans (Nat.mod_le _ _)
  have rotation := (recordedAll_iff_rotation room legal n filled done).mp enough
  have length : (log trial.scenario.ackedHost done).length = 4 * n := by
    rw [rotation, List.length_map, List.length_range]
  have most := acked_log_le room legal n filled (max done cycle)
  have grown := log_prefix trial.scenario.ackedHost (Nat.le_max_left done cycle)
  rw [← acked_log_settled room legal n filled late (Nat.le_max_right done cycle), ← rotation]
  exact (grown.eq_of_length_le (by omega)).symm

include room legal filled in
/-- With as many legal transactions for every host the test ends by itself exactly if all of
them complete in the rotation Slave, Test, Extra, Master. Their number is an `int`. -/
theorem completes_iff (int : n < 2 ^ 31) :
    (∃ cycle, (Scoreboard.run trial.scenario.wires cycle).allDone n = true) ↔
      ∀ cycle, n * 25 < cycle → log trial.scenario.ackedHost cycle =
        (List.range (4 * n)).map (turn Host.place .slave) := by
  constructor
  · rintro ⟨done, all⟩ cycle late
    exact rotation_of_allDone room legal n filled all late
  · intro rotation
    refine ⟨n * 25 + 1, (allDone_iff_rotation room legal n filled int _).mpr ?_⟩
    exact rotation (n * 25 + 1) (Nat.lt_succ_self _)

end Filled

theorem oneEach_completes_iff :
    (∃ cycle, (Scoreboard.run oneEach.scenario.wires cycle).allDone 1 = true) ↔
      ∀ cycle, 1 * 25 < cycle → log oneEach.scenario.ackedHost cycle =
        (List.range (4 * 1)).map (turn Host.place .slave) :=
  completes_iff (by decide) oneEach_legal 1 (fun _ => rfl) (by decide)

end Trial

end RoundRobinArbiter
