import RoundRobinArbiter.Arbiter.Observation

namespace RoundRobinArbiter.Service

variable {start : Service p} {inputs : Nat → Inputs p} {h : Host} {held : Request p}
variable {elapsed : Fin (p.limit + 1)} {cycle : Nat}

theorem runFrom_succ (start : Service p) (inputs : Nat → Inputs p) (cycle : Nat) :
    runFrom start inputs (cycle + 1) = (runFrom start inputs cycle).step (inputs cycle) := rfl

theorem grantFrom_access (granted : grantFrom start inputs cycle = some h) :
    runFrom start inputs (cycle + 1) = .access h ((inputs cycle).host h).request 0 :=
  grant_step granted

theorem grantFrom_running (running : runFrom start inputs cycle = .access h held elapsed) :
    grantFrom start inputs cycle = none := by
  simp [grantFrom, running, grant, ready]

/-- The cycle after an access cycle belongs to the same host. -/
theorem access_next (running : runFrom start inputs cycle = .access h held elapsed) :
    ((inputs cycle).ackBus = false ∧ elapsed.val < p.limit ∧
        ∃ next : Fin (p.limit + 1), next.val = elapsed.val + 1 ∧
          runFrom start inputs (cycle + 1) = .access h held next) ∨
      (((inputs cycle).ackBus = true ∨ elapsed.val = p.limit) ∧
        runFrom start inputs (cycle + 1) = .ack h) := by
  have edge := Service.edge (inputs cycle) (runFrom start inputs cycle)
  rw [← runFrom_succ, running] at edge
  generalize runFrom start inputs (cycle + 1) = after at edge ⊢
  cases edge with
  | grant ready chosen => cases ready
  | forget ready last alone => cases ready
  | rest ready silent => cases ready
  | proceed waits within => exact .inl ⟨waits, within, _, rfl, rfl⟩
  | finish ends => exact .inr ⟨ends, rfl⟩

/-- An access cycle follows the grant of its host or another cycle of the same access. -/
theorem access_previous (running : runFrom start inputs (cycle + 1) = .access h held elapsed) :
    (grantFrom start inputs cycle = some h ∧ held = ((inputs cycle).host h).request ∧
        elapsed.val = 0) ∨
      ∃ previous : Fin (p.limit + 1), elapsed.val = previous.val + 1 ∧
        runFrom start inputs cycle = .access h held previous := by
  have edge := Service.edge (inputs cycle) (runFrom start inputs cycle)
  rw [← runFrom_succ, running] at edge
  generalize same : runFrom start inputs cycle = before at edge
  cases edge with
  | grant ready chosen =>
    refine .inl ⟨?_, rfl, rfl⟩
    rw [grantFrom, same, grant_eq_some_iff]
    exact ⟨ready, chosen⟩
  | proceed waits within => exact .inr ⟨_, rfl, rfl⟩

theorem ack_previous (acked : runFrom start inputs (cycle + 1) = .ack h) :
    ∃ held elapsed, runFrom start inputs cycle = .access h held elapsed := by
  have edge := Service.edge (inputs cycle) (runFrom start inputs cycle)
  rw [← runFrom_succ, acked] at edge
  generalize runFrom start inputs cycle = before at edge
  cases edge with
  | finish ends => exact ⟨_, _, rfl⟩

theorem ack_once (acked : runFrom start inputs cycle = .ack h) (g : Host) :
    runFrom start inputs (cycle + 1) ≠ .ack g := by
  intro again
  obtain ⟨held, elapsed, running⟩ := ack_previous again
  rw [acked] at running
  cases running

theorem ack_not_granted (acked : runFrom start inputs cycle = .ack h) :
    grantFrom start inputs cycle ≠ some h := by
  rw [grantFrom, acked]
  intro granted
  exact pick_ne_pointer (grant_eq_some_iff.mp granted).2 rfl

theorem grantFrom_wants (granted : grantFrom start inputs cycle = some h) :
    (inputs cycle).wants h = true :=
  pick_wants (grant_eq_some_iff.mp granted).2

theorem access_runs_on (running : runFrom start inputs cycle = .access h held elapsed)
    (more : Nat) (room : elapsed.val + more ≤ p.limit)
    (waits : ∀ k < more, (inputs (cycle + k)).ackBus = false) :
    ∃ now : Fin (p.limit + 1), now.val = elapsed.val + more ∧
      runFrom start inputs (cycle + more) = .access h held now := by
  induction more with
  | zero => exact ⟨elapsed, rfl, running⟩
  | succ more ih =>
    obtain ⟨now, count, before⟩ := ih (by omega) (fun k below => waits k (by omega))
    have silent := waits more (Nat.lt_succ_self more)
    rcases access_next before with ⟨_, _, next, counted, after⟩ | ⟨ends, _⟩
    · exact ⟨next, by omega, after⟩
    · rcases ends with acked | last
      · rw [silent] at acked
        cases acked
      · omega

/-- As long as nothing is arbitrated one access runs, unanswered and counting. -/
theorem access_counts (running : runFrom start inputs cycle = .access h held elapsed)
    (more : Nat) (busy : ∀ k ≤ more, (runFrom start inputs (cycle + k)).ready = false) :
    (∃ now : Fin (p.limit + 1), now.val = elapsed.val + more ∧
      runFrom start inputs (cycle + more) = .access h held now) ∧
    ∀ k < more, (inputs (cycle + k)).ackBus = false := by
  induction more with
  | zero => exact ⟨⟨elapsed, rfl, running⟩, nofun⟩
  | succ more ih =>
    obtain ⟨⟨now, count, before⟩, waited⟩ := ih (fun k below => busy k (Nat.le_succ_of_le below))
    rcases access_next before with ⟨waits, _, next, counted, after⟩ | ⟨_, acked⟩
    · refine ⟨⟨next, by omega, after⟩, ?_⟩
      intro k below
      rcases Nat.eq_or_lt_of_le (Nat.le_of_lt_succ below) with last | earlier
      · subst last
        exact waits
      · exact waited k earlier
    · have active := busy (more + 1) (Nat.le_refl _)
      rw [← Nat.add_assoc, acked] at active
      cases active

theorem access_persists (running : runFrom start inputs cycle = .access h held elapsed)
    (more : Nat) (busy : ∀ k ≤ more, (runFrom start inputs (cycle + k)).ready = false) :
    ∃ now, runFrom start inputs (cycle + more) = .access h held now := by
  obtain ⟨⟨now, _, after⟩, _⟩ := access_counts running more busy
  exact ⟨now, after⟩

theorem access_of_not_ready {a : Service p} (busy : a.ready = false) :
    ∃ h held elapsed, a = .access h held elapsed := by
  cases a with
  | access h held elapsed => exact ⟨h, held, elapsed, rfl⟩
  | _ => cases busy

/-- Every access ends, in the acknowledge cycle of its host and after cycles that
are all its own. The induction is on the cycles the timeout still allows. -/
theorem access_ends (running : runFrom start inputs cycle = .access h held elapsed) :
    ∃ finish, cycle < finish ∧ finish ≤ cycle + (p.limit - elapsed.val) + 1 ∧
      runFrom start inputs finish = .ack h ∧
      ∀ between, cycle ≤ between → between < finish →
        ∃ count, runFrom start inputs between = .access h held count := by
  generalize left : p.limit - elapsed.val = remaining
  induction remaining generalizing cycle elapsed with
  | zero =>
    rcases access_next running with ⟨_, within, _⟩ | ⟨_, acked⟩
    · omega
    · refine ⟨cycle + 1, Nat.lt_succ_self cycle, by omega, acked, ?_⟩
      intro between after before
      have here : between = cycle := by omega
      subst between
      exact ⟨elapsed, running⟩
  | succ remaining ih =>
    rcases access_next running with ⟨_, _, next, counted, after⟩ | ⟨_, acked⟩
    · obtain ⟨finish, later, bound, acked, own⟩ := ih after (by omega)
      refine ⟨finish, by omega, by omega, acked, ?_⟩
      intro between from_ before
      rcases Nat.eq_or_lt_of_le from_ with same | further
      · subst between
        exact ⟨elapsed, running⟩
      · exact own between further before
    · refine ⟨cycle + 1, Nat.lt_succ_self cycle, by omega, acked, ?_⟩
      intro between after before
      have here : between = cycle := by omega
      subst between
      exact ⟨elapsed, running⟩

/-- A running access was granted `elapsed + 1` edges ago, holds the request its
host made at that edge and has not been acknowledged since. -/
theorem access_granted (running : run inputs cycle = .access h held elapsed) :
    ∃ edge, cycle = edge + 1 + elapsed.val ∧
      grantAt inputs edge = some h ∧
      held = ((inputs edge).host h).request ∧
      ∀ k < elapsed.val, (inputs (edge + 1 + k)).ackBus = false := by
  induction cycle generalizing elapsed with
  | zero => cases running
  | succ cycle ih =>
    rcases access_previous running with ⟨granted, request, first⟩ | ⟨previous, counted, before⟩
    · refine ⟨cycle, by omega, granted, request, ?_⟩
      intro k below
      omega
    · obtain ⟨edge, position, granted, request, waited⟩ := ih before
      refine ⟨edge, by omega, granted, request, ?_⟩
      intro k below
      rcases Nat.eq_or_lt_of_le (Nat.le_of_lt_succ (counted ▸ below)) with same | earlier
      · rw [same, ← position]
        rcases access_next before with ⟨waits, _⟩ | ⟨_, acked⟩
        · exact waits
        · cases running.symm.trans acked
      · exact waited k earlier

/-- An acknowledge cycle ends an access that was granted and has run, with the request
made at its grant, since. -/
theorem ack_granted (acked : run inputs finish = .ack h) :
    ∃ edge, edge + 1 < finish ∧ grantAt inputs edge = some h ∧
      ∀ cycle, edge < cycle → cycle < finish →
        ∃ now, run inputs cycle = .access h ((inputs edge).host h).request now := by
  cases finish with
  | zero => cases acked
  | succ last =>
    obtain ⟨held, elapsed, running⟩ := ack_previous acked
    obtain ⟨edge, since, granted, _, waited⟩ := access_granted running
    refine ⟨edge, by omega, granted, ?_⟩
    intro cycle after before
    obtain ⟨k, rfl⟩ := Nat.exists_eq_add_of_le after
    have room : (0 : Fin (p.limit + 1)).val + k ≤ p.limit := by
      have bound := elapsed.isLt
      rw [Fin.val_zero]
      omega
    obtain ⟨now, _, still⟩ := access_runs_on (grantFrom_access granted) k room
      (fun j below => waited j (by omega))
    exact ⟨now, still⟩

/-- Where nothing of `h` was acknowledged after `first`, the access that an acknowledge
cycle ends is the only one granted to `h` since. -/
theorem granted_once {first edge finish : Nat} (acked : run inputs finish = .ack h)
    (quiet : ∀ cycle, first < cycle → cycle < finish → run inputs cycle ≠ .ack h)
    (granted : grantAt inputs edge = some h) (inside : edge < finish)
    (own : ∀ cycle, edge < cycle → cycle < finish →
      ∃ now, run inputs cycle = .access h ((inputs edge).host h).request now)
    (k : Nat) (after : first ≤ k) (before : k ≤ finish) :
    grantAt inputs k = some h ↔ k = edge := by
  constructor
  · intro again
    rcases Nat.lt_trichotomy k edge with earlier | same | later
    · -- an earlier grant would have been acknowledged before this one
      obtain ⟨ended, later, _, answered, running⟩ := access_ends (grantFrom_access again)
      rcases Nat.lt_or_ge edge ended with still | done
      · obtain ⟨_, busy⟩ := running edge earlier still
        cases (grantFrom_running busy).symm.trans granted
      · exact absurd answered (quiet ended (by omega) (by omega))
    · exact same
    · rcases Nat.eq_or_lt_of_le before with last | inner
      · subst last
        exact absurd again (ack_not_granted acked)
      · obtain ⟨_, busy⟩ := own k later inner
        cases (grantFrom_running busy).symm.trans again
  · rintro rfl
    exact granted

/-- The host that is served, its acknowledge cycle included. -/
def owner : Service p → Option Host
  | idle _ => none
  | access h .. => some h
  | ack h => some h

theorem owner_eq_some_iff {a : Service p} :
    a.owner = some h ↔ (∃ held elapsed, a = .access h held elapsed) ∨ a = .ack h := by
  cases a <;> simp [owner]

theorem owner_succ :
    (runFrom start inputs (cycle + 1)).owner = some h ↔
      grantFrom start inputs cycle = some h ∨
        ∃ held elapsed, runFrom start inputs cycle = .access h held elapsed := by
  rw [owner_eq_some_iff]
  constructor
  · rintro (⟨held, elapsed, running⟩ | acked)
    · rcases access_previous running with ⟨granted, _⟩ | ⟨previous, _, before⟩
      · exact .inl granted
      · exact .inr ⟨held, previous, before⟩
    · exact .inr (ack_previous acked)
  · rintro (granted | ⟨held, elapsed, running⟩)
    · exact .inl ⟨_, _, grantFrom_access granted⟩
    · rcases access_next running with ⟨_, _, next, _, after⟩ | ⟨_, acked⟩
      · exact .inl ⟨held, next, after⟩
      · exact .inr acked

end RoundRobinArbiter.Service
