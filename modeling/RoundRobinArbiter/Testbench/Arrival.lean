import RoundRobinArbiter.Testbench.Env
import RoundRobinArbiter.Testbench.Pace

namespace RoundRobinArbiter

open Synchronous Rotation

private theorem Service.idle_ungranted {inputs : Nat → Inputs p}
    (never : ∀ k < cycle, grantAt inputs k = none) :
    run inputs cycle = .idle (some .master) ∨ run inputs cycle = .idle none := by
  induction cycle with
  | zero => exact .inl rfl
  | succ cycle ih =>
    have before := ih fun k earlier => never k (Nat.lt_succ_of_lt earlier)
    have step : run inputs (cycle + 1) = (run inputs cycle).step (inputs cycle) := rfl
    have ungranted : (run inputs cycle).grant (inputs cycle) = none :=
      never cycle (Nat.lt_succ_self cycle)
    have edge := Service.edge (inputs cycle) (run inputs cycle)
    rw [step]
    generalize run inputs cycle = a at before ungranted edge ⊢
    generalize a.step (inputs cycle) = next at edge ⊢
    cases edge with
    | grant ready chosen =>
      cases ungranted.symm.trans (grant_eq_some_iff.mpr ⟨ready, chosen⟩)
    | forget => exact .inr rfl
    | rest =>
      rcases before with rfl | rfl
      · exact .inl rfl
      · exact .inr rfl
    | proceed => rcases before with last | last <;> cases last
    | finish => rcases before with last | last <;> cases last

private theorem Service.only_master {a : Service p} {i : Inputs p}
    (idle : a = .idle (some .master) ∨ a = .idle none) (asks : i.wants h = true)
    (missed : a.grant i = none) : h = .master ∧ a.step i = .idle none := by
  have ready : a.ready = true := by rcases idle with rfl | rfl <;> rfl
  have vain : pick a.pointer i.wants = none := by
    rwa [grant, if_pos ready] at missed
  have only := pick_eq_none_iff.mp vain
  rcases idle with rfl | rfl
  · obtain rfl := (Option.some.inj (only h asks)).symm
    refine ⟨rfl, step_forget rfl rfl fun g => ⟨?_, ?_⟩⟩
    · intro other
      exact (Option.some.inj (only g other)).symm
    · rintro rfl
      exact asks
  · cases only h asks

namespace Trial

variable {trial : Trial p}

private theorem first_grant (granted : trial.scenario.grantAt grant = some h) :
    ∃ first g, trial.scenario.grantAt first = some g ∧
      ∀ k < first, trial.scenario.grantAt k = none := by
  classical
  have some : ∃ k, (trial.scenario.grantAt k).isSome = true := ⟨grant, by rw [granted]; rfl⟩
  obtain ⟨g, here⟩ := Option.isSome_iff_exists.mp (Nat.find_spec some)
  refine ⟨Nat.find some, g, here, ?_⟩
  intro k before
  have none := Nat.find_min some before
  rwa [Bool.not_eq_true, Option.isSome_eq_false_iff, Option.isNone_iff_eq_none] at none

/-- A driver that comes later than another one is not served first: with the Master alone the
arbiter loses an edge, but then takes the Master before anybody else. -/
private theorem late_not_first {early late : Host} {drive grant drive' grant' : Nat → Nat}
    (one : Paced trial early drive grant) (other : Paced trial late drive' grant')
    (filled : ∀ h, 0 < (trial.mail h).length) (before : drive 0 < drive' 0)
    (never : ∀ k < first, trial.scenario.grantAt k = none) :
    trial.scenario.grantAt first ≠ some late := by
  intro granted
  have unserved : ∀ k < first, Service.grantAt trial.scenario.seen k = none := by
    intro k earlier
    rw [← Scenario.grantAt_seen]
    exact never k earlier
  have wanted : (trial.scenario.seen first).wants late = true := by
    rw [Scenario.grantAt_seen] at granted
    exact Service.grantFrom_wants granted
  have behind : drive' 0 < first := by
    by_contra soon
    cases (other.silent (Nat.le_of_not_lt soon)).symm.trans wanted
  have reached : first ≤ grant 0 := by
    by_contra passed
    cases (never _ (Nat.lt_of_not_le passed)).symm.trans (one.granted_at 0 (filled early))
  -- the early driver requests at this edge and the next, and is not granted at the first
  have asks : ∀ k, k = drive 0 + 1 ∨ k = drive 0 + 2 →
      (trial.scenario.seen k).wants early = true :=
    fun k near => one.wants 0 (filled early) k (by omega) (by omega)
  have missed : (Service.run trial.scenario.seen (drive 0 + 1)).grant
      (trial.scenario.seen (drive 0 + 1)) = none := unserved (drive 0 + 1) (by omega)
  have alone := Service.only_master (Service.idle_ungranted fun k earlier =>
    unserved k (by omega)) (asks _ (.inl rfl)) missed
  obtain ⟨rfl, dummy⟩ := alone
  have idle : Service.run trial.scenario.seen (drive 0 + 2) = .idle none := dummy
  have next : Service.grantAt trial.scenario.seen (drive 0 + 2) = some .master := by
    change (Service.run trial.scenario.seen (drive 0 + 2)).grant _ = _
    rw [idle]
    exact Service.grant_eq_some_iff.mpr ⟨rfl, List.find?_cons_of_pos (asks _ (.inr rfl))⟩
  rcases Nat.lt_or_ge (drive 0 + 2) first with earlier | now
  · cases (unserved _ earlier).symm.trans next
  · obtain rfl : first = drive 0 + 2 := by omega
    rw [Scenario.grantAt_seen, next] at granted
    cases granted
    have same := (one.first (filled _)).trans (other.first (filled _)).symm
    omega

/-- Where some driver draws a shorter first delay than the Slave's, the test never ends by
itself: the monitor waits for the Slave and misses what has come before it. -/
theorem late_slave_hangs (room : 2 < p.limit) (legal : trial.scenario.Legal) (n : Nat)
    (filled : ∀ h, (trial.mail h).length = n) (some : 0 < n) (early : Host)
    (shorter : ((trial.draws 0).delay early).edges < ((trial.draws 0).delay .slave).edges) :
    (∀ cycle, (Scoreboard.run trial.scenario.wires cycle).allDone n = false) ∧
      (trial.test n).completed = none := by
  have nonempty : ∀ h, 0 < (trial.mail h).length := fun h => filled h ▸ some
  obtain ⟨drive, grant, one⟩ := paced room legal early
  obtain ⟨drive', grant', slave⟩ := paced room legal .slave
  obtain ⟨first, g, granted, never⟩ := first_grant (one.granted_at 0 (nonempty early))
  have other : g ≠ .slave := by
    rintro rfl
    have before : drive 0 < drive' 0 := by
      rw [one.first (nonempty early), slave.first (nonempty .slave)]
      exact Nat.add_lt_add_left shorter 1
    exact late_not_first one slave nonempty before never granted
  have access := access_of_grant (Nat.lt_of_succ_lt room) granted
  have acked : trial.scenario.ackedHost (first + 3) = Option.some g :=
    (trial.scenario.ackedHost_iff g _).mpr access.acked
  have unacked : ∀ k < first + 3, trial.scenario.ackedHost k = none := by
    intro k before
    rw [Option.eq_none_iff_forall_ne_some]
    intro h event
    have done := (trial.scenario.ackedHost_iff h k).mp event
    obtain ⟨edge, earlier, was, _⟩ := Service.ack_granted done
    rw [← Scenario.grantAt_seen] at was
    rcases Nat.lt_or_ge edge first with soon | since
    · cases (never edge soon).symm.trans was
    · obtain ⟨_, running⟩ := access.running k (by omega)
      cases done.symm.trans running
  have unfinished : ∀ cycle, (Scoreboard.run trial.scenario.wires cycle).allDone n = false := by
    intro cycle
    rw [← Bool.not_eq_true]
    intro done
    have late : n * 25 < max (n * 25 + 1) (first + 4) :=
      Nat.lt_of_lt_of_le (Nat.lt_succ_self _) (Nat.le_max_left _ _)
    have rotation := rotation_of_allDone room legal n filled done late
    have grown := log_prefix trial.scenario.ackedHost (Nat.le_max_right (n * 25 + 1) (first + 4))
    have none : log trial.scenario.ackedHost (first + 3) = [] :=
      log_quiet (Nat.zero_le _) fun k _ before => unacked k before
    rw [rotation, log, none, acked] at grown
    obtain ⟨rest, same⟩ := grown
    have heads := congrArg List.head? same
    have positive : 4 * n ≠ 0 := by omega
    rw [List.head?_map, List.head?_range, if_neg positive] at heads
    exact other (Option.some.inj heads)
  refine ⟨unfinished, ?_⟩
  rcases trial.test_ends n with ⟨edge, _, done, _⟩ | ⟨_, same⟩
  · rw [env_scoreboard, unfinished] at done
    cases done
  · rw [same]

/-- The driver of the Slave draws two edges every time, and the others one. -/
def lateSlave : Trial .default where
  mail := oneEach.mail
  draws edge :=
    { delay := fun h => if h = .slave then ⟨2, by decide, by decide⟩ else
        (unansweredRead.around edge).delay h
      urandom := 0 }

private theorem lateSlave_legal : lateSlave.scenario.Legal := oneEach_legal

theorem lateSlave_hangs :
    (∀ cycle, (Scoreboard.run lateSlave.scenario.wires cycle).allDone 1 = false) ∧
      (lateSlave.test 1).completed = none :=
  late_slave_hangs (by decide) lateSlave_legal 1 (fun _ => rfl) (by decide) .test (by decide)

end Trial

end RoundRobinArbiter
