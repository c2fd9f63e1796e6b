import RoundRobinArbiter.Testbench.Scoreboard

namespace RoundRobinArbiter

open Synchronous

namespace Driver

def machine (mailbox : List (Transaction p)) :
    Machine (BitVec 2 × BitVec p.dw × Delay) (Driver p) where
  init := start mailbox
  step sample d := d.step sample.1 sample.2.1 sample.2.2

end Driver

/-- What the drivers and the monitor meet: the mailboxes, the delays the drivers draw
and whatever the device under test does. -/
structure Traffic (p : Params) where
  mail : Host → List (Transaction p)
  delay : Nat → Host → Delay
  dut : Nat → Outputs p

namespace Traffic

variable (traffic : Traffic p)

def driver (h : Host) : Nat → Driver p :=
  (Driver.machine (traffic.mail h)).run fun edge =>
    ((traffic.dut edge).ack h, (traffic.dut edge).drd h, traffic.delay edge h)

def wires (edge : Nat) : Interface p :=
  { traffic.dut edge with host := fun h => (traffic.driver h edge).port }

def returns (h : Host) (edge : Nat) : Option (Transaction p) :=
  (traffic.driver h edge).returns ((traffic.dut edge).ack h) ((traffic.dut edge).drd h)

/-- The transactions that the driver of a host has finished before a cycle. -/
def finished (h : Host) (cycle : Nat) : Nat :=
  Nat.count (fun edge => (traffic.returns h edge).isSome = true) cycle

def scoreboard : Nat → Scoreboard := Scoreboard.run traffic.wires

theorem driver_edge (h : Host) (edge : Nat) :
    Driver.Edge ((traffic.wires edge).ack h) ((traffic.wires edge).drd h)
      (traffic.driver h edge) (traffic.driver h (edge + 1)) (traffic.returns h edge) :=
  Driver.edge _ _ _ (traffic.delay edge h)

theorem consistent (h : Host) (cycle : Nat) : (traffic.driver h cycle).Consistent := by
  induction cycle with
  | zero => exact .start _
  | succ cycle ih => exact (traffic.driver_edge h cycle).consistent ih

theorem finished_succ (h : Host) (cycle : Nat) : traffic.finished h (cycle + 1) =
    traffic.finished h cycle + if (traffic.returns h cycle).isSome then 1 else 0 :=
  Nat.count_succ _ _

variable {traffic}

private theorem waits_or_finishes {t : Transaction p}
    (point : (traffic.driver h cycle).point = .ack t count) :
    ((traffic.wires cycle).ack h = 0 ∧ count + 1 < Driver.timeoutLimit ∧
        (traffic.driver h (cycle + 1)).point = .ack t (count + 1)) ∨
      traffic.finished h (cycle + 1) = traffic.finished h cycle + 1 := by
  rcases (traffic.driver_edge h cycle).after_ack point with
    ⟨silent, patient, _, _, next⟩ | ⟨_, returned, _⟩
  · exact .inl ⟨silent, patient, next⟩
  · refine .inr ?_
    rw [finished_succ, returned]
    rfl

end Traffic

namespace Stage

/-- For how many edges the monitor has been following a host. -/
def following (h : Host) : Stage p → Option Nat
  | watch _ => none
  | collect g _ => if g = h then some 1 else none
  | respond g _ count => if g = h then some (count + 2) else none

theorem next_ne (h : Host) : h.next ≠ h := by
  cases h <;> decide

/-- For a host, an edge ends what the monitor follows, starts it, takes it one edge on,
or is about another host. -/
theorem Edge.following {w : Interface p} {a next : Stage p} {put : Option (Host × Transaction p)}
    (edge : Edge w a next put) (h : Host) :
    (put.map Prod.fst = some h ∧ next.following h = none ∧ ∃ count,
        a.following h = some (count + 2) ∧
        (w.ack h ≠ 0 ∨ Monitor.timeoutLimit ≤ count + 1)) ∨
      (put.map Prod.fst ≠ some h ∧
        (next.following h = none ∨ (next.following h = some 1 ∧ w.wants h = true) ∨
          ∃ count, a.following h = some count ∧ next.following h = some (count + 1))) := by
  cases edge with
  | miss silent => exact .inr ⟨nofun, .inl rfl⟩
  | @detect g wants =>
    refine .inr ⟨nofun, ?_⟩
    by_cases own : g = h
    · subst own
      exact .inr (.inl ⟨if_pos rfl, wants⟩)
    · exact .inl (if_neg own)
  | @sample g t =>
    refine .inr ⟨nofun, ?_⟩
    by_cases own : g = h
    · exact .inr (.inr ⟨1, if_pos own, if_pos own⟩)
    · exact .inl (if_neg own)
  | @wait g t count silent patient =>
    refine .inr ⟨nofun, ?_⟩
    by_cases own : g = h
    · exact .inr (.inr ⟨count + 2, if_pos own, if_pos own⟩)
    · exact .inl (if_neg own)
  | @pass g t count stops missed =>
    by_cases own : g = h
    · subst own
      exact .inl ⟨rfl, rfl, count, if_pos rfl, stops⟩
    · exact .inr ⟨fun same => own (Option.some.inj same), .inl rfl⟩
  | @chain g t count stops inner wants =>
    by_cases own : g = h
    · subst own
      exact .inl ⟨rfl, if_neg (next_ne g), count, if_pos rfl, stops⟩
    · refine .inr ⟨fun same => own (Option.some.inj same), ?_⟩
      by_cases turned : g.next = h
      · exact .inr (.inl ⟨if_pos turned, turned ▸ wants⟩)
      · exact .inl (if_neg turned)

end Stage

namespace Traffic

variable {traffic : Traffic p}

/-- The driver of a host is done with more than has been counted, or has been waiting for
some edges. -/
def Ahead (traffic : Traffic p) (h : Host) (cycle edges : Nat) : Prop :=
  Monitor.recorded traffic.wires h cycle + 1 ≤ traffic.finished h cycle ∨
    ∃ t count, (traffic.driver h cycle).point = .ack t count ∧ edges ≤ count

/-- What is counted is finished, and the driver is ahead of the monitor where that one
follows its transaction. -/
structure Lagging (traffic : Traffic p) (h : Host) (cycle : Nat) : Prop where
  counted : Monitor.recorded traffic.wires h cycle ≤ traffic.finished h cycle
  ahead : ∀ edges, (Monitor.stageAt traffic.wires cycle).following h = some edges →
    Ahead traffic h cycle edges

private theorem finished_le (traffic : Traffic p) (h : Host) (cycle : Nat) :
    traffic.finished h cycle ≤ traffic.finished h (cycle + 1) := by
  rw [finished_succ]
  exact Nat.le_add_right _ _

private theorem waiting_ahead {t : Transaction p}
    (counted : Monitor.recorded traffic.wires h cycle ≤ traffic.finished h cycle)
    (same : Monitor.recorded traffic.wires h (cycle + 1) = Monitor.recorded traffic.wires h cycle)
    (point : (traffic.driver h cycle).point = .ack t count) (bound : edges ≤ count + 1) :
    Ahead traffic h (cycle + 1) edges := by
  rcases waits_or_finishes point with ⟨_, _, next⟩ | done
  · exact .inr ⟨t, count + 1, next, bound⟩
  · refine .inl ?_
    rw [same, done]
    exact Nat.succ_le_succ counted

private theorem Lagging.step (lagging : Lagging traffic h cycle) :
    Lagging traffic h (cycle + 1) := by
  have counted := lagging.counted
  have further := finished_le traffic h cycle
  have count := Monitor.recorded_succ traffic.wires h cycle
  rcases (Monitor.stage_edge traffic.wires cycle).following h with
    ⟨put, over_, edges, follows, stops⟩ | ⟨other, next⟩
  · -- the monitor is done with the host, and so is the driver: it saw the same acknowledge
    -- and has counted more edges
    rw [Monitor.putHost, if_pos put] at count
    refine ⟨?_, fun k again => by cases over_.symm.trans again⟩
    rcases lagging.ahead _ follows with done | ⟨t, waited, point, longer⟩
    · omega
    · rcases waits_or_finishes point with ⟨silent, patient, _⟩ | done
      · rcases stops with acked | expired
        · exact absurd silent acked
        · have same : Driver.timeoutLimit = Monitor.timeoutLimit := rfl
          omega
      · omega
  · rw [Monitor.putHost, if_neg other, Nat.add_zero] at count
    refine ⟨by omega, ?_⟩
    intro k follows
    rcases next with none | ⟨first, wants⟩ | ⟨edges, before, after⟩
    · cases none.symm.trans follows
    · cases first.symm.trans follows
      obtain ⟨t, waited, point⟩ := (traffic.consistent h cycle).waits wants
      exact waiting_ahead counted count point (Nat.succ_le_succ (Nat.zero_le waited))
    · cases after.symm.trans follows
      rcases lagging.ahead edges before with done | ⟨t, waited, point, longer⟩
      · exact .inl (by omega)
      · exact waiting_ahead counted count point (Nat.succ_le_succ longer)

theorem lagging (traffic : Traffic p) (h : Host) (cycle : Nat) : Lagging traffic h cycle := by
  induction cycle with
  | zero => exact ⟨Nat.le_refl 0, nofun⟩
  | succ cycle ih => exact ih.step

end Traffic

/-- `all_done` at the end of one turn of `wait_for_completion`. -/
def Scoreboard.allDone (s : Scoreboard) (numTransactions : Nat) : Bool :=
  Host.all.all fun h => !decide ((s.numTransactions h).toInt < numTransactions)

theorem Scoreboard.allDone_eq_true {s : Scoreboard} :
    s.allDone n = true ↔ ∀ h, n ≤ (s.numTransactions h).toInt := by
  simp only [allDone, List.all_eq_true, Host.mem_all, Bool.not_eq_true', decide_eq_false_iff_not,
    Int.not_lt, forall_const]

/-- A counter never shows more than has been recorded. -/
theorem Scoreboard.numTransactions_le (wires : Nat → Interface p) (h : Host) (cycle : Nat) :
    ((run wires cycle).numTransactions h).toInt ≤ Monitor.recorded wires h cycle := by
  rw [numTransactions_run]
  exact toInt_ofNat_le 32 _

/-- Whatever the device under test does, no transaction is recorded before its driver has
finished it, the counters of the scoreboard show no more than that, and the test does not
end before the drivers have. -/
theorem never_overcounted (traffic : Traffic p) (cycle : Nat) :
    (∀ h, Monitor.recorded traffic.wires h cycle ≤ traffic.finished h cycle) ∧
      (∀ h, ((traffic.scoreboard cycle).numTransactions h).toInt ≤ traffic.finished h cycle) ∧
      ∀ numTransactions, (traffic.scoreboard cycle).allDone numTransactions = true →
        ∀ h, numTransactions ≤ traffic.finished h cycle := by
  have recorded := fun h => (Traffic.lagging traffic h cycle).counted
  have counted : ∀ h, ((traffic.scoreboard cycle).numTransactions h).toInt ≤
      traffic.finished h cycle := by
    intro h
    have shown := Scoreboard.numTransactions_le traffic.wires h cycle
    exact shown.trans (Int.ofNat_le.mpr (recorded h))
  refine ⟨recorded, counted, ?_⟩
  intro numTransactions done h
  have enough := Scoreboard.allDone_eq_true.mp done h
  exact Int.ofNat_le.mp (enough.trans (counted h))

end RoundRobinArbiter
