import RoundRobinArbiter.Testbench.Draining

namespace RoundRobinArbiter

open Synchronous

namespace Trial

variable {trial : Trial p}

private theorem first_unanswered (room : 1 < p.limit)
    (running : Service.run trial.scenario.seen cycle = .access h held elapsed)
    (first : elapsed.val = 0) : Service.run trial.scenario.seen (cycle + 1) ≠ .ack h := by
  intro acked
  have phase := trial.phase room cycle
  rw [running] at phase
  rcases Service.access_next running with ⟨_, _, _, _, after⟩ | ⟨answered | full, _⟩
  · cases acked.symm.trans after
  · have second := phase.answers.2.mp answered
    omega
  · omega

/-- The monitor is in time for the host it is at: it is not yet being acknowledged where the
monitor can only detect it, and its driver has waited longer than the monitor has followed. -/
def InTime (trial : Trial p) (cycle : Nat) : Stage p → Prop
  | .watch h => Service.run trial.scenario.seen cycle ≠ .ack h ∧
      ∀ held elapsed, Service.run trial.scenario.seen cycle = .access h held elapsed →
        elapsed.val = 0
  | .collect h _ => Service.run trial.scenario.seen cycle ≠ .ack h ∧
      ∃ t count, (trial.scenario.driver h cycle).point = .ack t count ∧ 1 ≤ count
  | .respond h _ edges => ∃ t count,
      (trial.scenario.driver h cycle).point = .ack t count ∧ edges + 2 ≤ count

section Steps

variable (room : 2 < p.limit) (legal : trial.scenario.Legal)

include room legal in
theorem waits_on {t : Transaction p} (point : (trial.scenario.driver h cycle).point = .ack t count)
    (unfinished : Service.run trial.scenario.seen cycle ≠ .ack h) :
    (trial.scenario.driver h (cycle + 1)).point = .ack t (count + 1) :=
  ((waits_or_acked (undisturbed room legal h cycle) point).resolve_right fun acked =>
    unfinished ((trial.scenario.refines cycle).acking_iff.mp acked)).2

include room legal in
/-- A host that does not request is not served in the next cycle, but for a fresh access. -/
private theorem inTime_silent (silent : (trial.scenario.seen cycle).wants h = false) :
    InTime trial (cycle + 1) (.watch h) := by
  have free : (Service.run trial.scenario.seen cycle).owner ≠ some h := by
    intro served
    cases silent.symm.trans ((handshake room legal h).served_wants cycle served)
  refine ⟨?_, ?_⟩
  · intro acked
    obtain ⟨held, elapsed, running⟩ := Service.ack_previous acked
    exact free (Service.owner_eq_some_iff.mpr (.inl ⟨held, elapsed, running⟩))
  · intro held elapsed running
    rcases Service.access_previous running with ⟨_, _, first⟩ | ⟨previous, _, before⟩
    · exact first
    · exact absurd (Service.owner_eq_some_iff.mpr (.inl ⟨held, previous, before⟩)) free

private theorem inTime_acked (acked : Service.run trial.scenario.seen cycle = .ack g) (h : Host) :
    InTime trial (cycle + 1) (.watch h) := by
  refine ⟨Service.ack_once acked h, ?_⟩
  intro held elapsed running
  rcases Service.access_previous running with ⟨_, _, first⟩ | ⟨previous, _, before⟩
  · exact first
  · cases acked.symm.trans before

include room legal in
/-- The monitor puts a transaction in the ACK cycle of its host only. -/
theorem acked_of_stops {t : Transaction p} (inTime : InTime trial cycle (.respond h t count))
    (stops : (trial.scenario.wires cycle).ack h ≠ 0 ∨ Monitor.timeoutLimit ≤ count + 1) :
    Service.run trial.scenario.seen cycle = .ack h := by
  rcases stops with shown | expired
  · exact (ack_iff room h cycle).mp shown
  · obtain ⟨given, waited, point, longer⟩ := inTime
    have short := waits_short room (legal.waits point).wants point
    have limit : Monitor.timeoutLimit = 65535 := rfl
    omega

include room legal in
private theorem inTime_step
    (inTime : InTime trial cycle (Monitor.stageAt trial.scenario.wires cycle)) :
    InTime trial (cycle + 1) (Monitor.stageAt trial.scenario.wires (cycle + 1)) := by
  have step := Monitor.stage_edge trial.scenario.wires cycle
  generalize Monitor.stageAt trial.scenario.wires (cycle + 1) = next,
    Monitor.putAt trial.scenario.wires cycle = put at step ⊢
  generalize Monitor.stageAt trial.scenario.wires cycle = stage at step inTime
  cases step with
  | miss silent => exact inTime_silent room legal silent
  | @detect h wants =>
    obtain ⟨unfinished, first⟩ := inTime
    obtain ⟨t, count, point⟩ := (trial.scenario.consistent h cycle).waits wants
    refine ⟨?_, t, count + 1, waits_on room legal point unfinished, Nat.le_add_left _ _⟩
    intro acked
    obtain ⟨held, elapsed, running⟩ := Service.ack_previous acked
    exact first_unanswered (Nat.lt_of_succ_lt room) running (first held elapsed running) acked
  | sample =>
    obtain ⟨unfinished, t, count, point, positive⟩ := inTime
    exact ⟨t, count + 1, waits_on room legal point unfinished, Nat.succ_le_succ positive⟩
  | @wait h t edges silent patient =>
    obtain ⟨given, count, point, longer⟩ := inTime
    have unfinished : Service.run trial.scenario.seen cycle ≠ .ack h :=
      fun acked => (ack_iff room h cycle).mpr acked silent
    exact ⟨given, count + 1, waits_on room legal point unfinished, Nat.succ_le_succ longer⟩
  | @pass h t edges stops missed =>
    exact inTime_acked (acked_of_stops room legal inTime stops) h.next
  | @chain h t edges stops inner wants =>
    have acked := acked_of_stops room legal inTime stops
    obtain ⟨given, count, point⟩ := (trial.scenario.consistent h.next cycle).waits wants
    have unfinished : Service.run trial.scenario.seen cycle ≠ .ack h.next :=
      fun other => Stage.next_ne h (Service.ack.inj (other.symm.trans acked))
    exact ⟨Service.ack_once acked h.next, given, count + 1,
      waits_on room legal point unfinished, Nat.le_add_left _ _⟩

include room legal in
theorem inTime (cycle : Nat) :
    InTime trial cycle (Monitor.stageAt trial.scenario.wires cycle) := by
  induction cycle with
  | zero => exact ⟨nofun, nofun⟩
  | succ cycle ih => exact inTime_step room legal ih

include room legal in
private theorem port_kept
    (stage : Monitor.stageAt trial.scenario.wires cycle = .respond h t count) :
    ∃ edge, (trial.scenario.driver h edge).port = (trial.scenario.driver h cycle).port ∧
      t = Monitor.observed trial.scenario.wires h edge := by
  obtain ⟨edge, position, _, _, same, _⟩ := Monitor.respond_detected stage
  refine ⟨edge, ?_, same⟩
  have follows := inTime room legal cycle
  rw [stage] at follows
  obtain ⟨given, waited, point, longer⟩ := follows
  obtain ⟨drive, since, _, all⟩ := Scenario.waiting_since point
  obtain ⟨k, reached⟩ : ∃ k, edge = drive + 1 + k := ⟨edge - (drive + 1), by omega⟩
  have waiting := all k (by omega)
  rw [← reached] at waiting
  rw [(trial.scenario.consistent h edge).driven given k waiting,
    (trial.scenario.consistent h cycle).driven given waited point]

include room legal in
/-- A host in its ACK cycle is followed if the monitor is at it. -/
theorem respond_of_acked (acked : Service.run trial.scenario.seen cycle = .ack h)
    (own : (Monitor.stageAt trial.scenario.wires cycle).host = h) :
    ∃ t count, Monitor.stageAt trial.scenario.wires cycle = .respond h t count := by
  have follows := inTime room legal cycle
  generalize Monitor.stageAt trial.scenario.wires cycle = stage at follows own
  subst own
  cases stage with
  | watch h => exact absurd acked follows.1
  | collect h t => exact absurd acked follows.1
  | respond h t count => exact ⟨t, count, rfl⟩

include room legal in
theorem acked_of_put (put : Monitor.putAt trial.scenario.wires cycle = some (h, t)) :
    Service.run trial.scenario.seen cycle = .ack h := by
  obtain ⟨edge, forwards, _⟩ := Monitor.put_forwards put
  obtain ⟨k, position⟩ := Nat.exists_eq_add_of_le forwards.later
  have stage := forwards.respond k (Nat.le_of_eq position.symm)
  have follows := inTime room legal cycle
  rw [← position] at stage
  rw [stage] at follows
  refine acked_of_stops room legal follows ?_
  have stops := forwards.stops
  rwa [position, Nat.add_sub_cancel_left, ← position] at stops

end Steps

/-- What the monitor records of a host is what completes of it while the monitor is at it:
nothing is made up, altered, recorded twice or recorded late. -/
theorem forwarded_exact (room : 2 < p.limit) (legal : trial.scenario.Legal) (h : Host)
    (cycle : Nat) : trial.scenario.forwarded h cycle =
      if (Monitor.stageAt trial.scenario.wires cycle).host = h then
        trial.scenario.completed h cycle
      else none := by
  have refines := trial.scenario.refines cycle
  rw [Scenario.forwarded, Scenario.completed]
  by_cases own : (Monitor.stageAt trial.scenario.wires cycle).host = h
  · rw [if_pos own]
    by_cases acked : Service.run trial.scenario.seen cycle = .ack h
    · obtain ⟨t, count, stage⟩ := respond_of_acked room legal acked own
      have shown : (trial.scenario.wires cycle).ack h ≠ 0 := (ack_iff room h cycle).mpr acked
      obtain ⟨edge, kept, rfl⟩ := port_kept room legal stage
      have done := Transaction.completion_collected ((trial.scenario.wires edge).host h)
        (trial.scenario.wires (edge + 1)) shown
      rw [Monitor.put_of_stops stage (.inl shown), if_pos (refines.acking_iff.mpr acked), ← kept]
      simp only [↓reduceIte, Monitor.observed, done]
      rfl
    · rw [if_neg fun acking => acked (refines.acking_iff.mp acking)]
      cases put : Monitor.putAt trial.scenario.wires cycle with
      | none => rfl
      | some item =>
        obtain ⟨g, t⟩ := item
        have other : g ≠ h := by
          rintro rfl
          exact acked (acked_of_put room legal put)
        exact if_neg other
  · rw [if_neg own]
    rcases (Monitor.stage_edge trial.scenario.wires cycle).host with ⟨none, _⟩ | ⟨t, put, _⟩
    · rw [none]
    · rw [put]
      exact if_neg own

theorem oneEach_forwarded : oneEach.scenario.forwarded .extra 12 =
    if (Monitor.stageAt oneEach.scenario.wires 12).host = .extra then
      oneEach.scenario.completed .extra 12
    else none :=
  forwarded_exact (by decide) oneEach_legal .extra 12

end Trial

end RoundRobinArbiter
