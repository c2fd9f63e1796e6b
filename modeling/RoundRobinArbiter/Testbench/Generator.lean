import RoundRobinArbiter.Testbench.Views

/-! The generator, after `arbiter_generator.sv`. It puts its transactions as `new` leaves
them, without solving the constraints of their class, so that none of them is a request. -/

namespace RoundRobinArbiter

open Synchronous

/-- The constraint `c_addr_unique`: `addr[31:28] == host_id[3:0]`. -/
def Transaction.AddrUnique (t : Transaction p) : Prop :=
  t.addr.extractLsb' 28 4 = t.hostId.extractLsb' 0 4

/-- The configuration of the generator. -/
structure Generator where
  numTransactions : Nat
  cpuValues : BitVec 4

namespace Generator

def generateForHost (g : Generator) (h : Host) : List (Transaction p) :=
  List.replicate g.numTransactions (.new (g.cpuValues.getLsbD (Host.place h).val) h.number)

/-- The whole bench with the mailboxes as the generator fills them. -/
def trial (g : Generator) (draws : Nat → Draws p) : Trial p where
  mail := g.generateForHost
  draws := draws

variable {g : Generator} {draws : Nat → Draws p} {h : Host} {t : Transaction p}

private theorem eq_new (member : t ∈ g.generateForHost h) :
    t = .new (g.cpuValues.getLsbD (Host.place h).val) h.number :=
  List.eq_of_mem_replicate member

private theorem never_drives (none : g.numTransactions = 0) (cycle : Nat) :
    ((g.trial draws).scenario.driver h cycle).point ≠ .drive t := by
  intro point
  have empty : ((g.trial draws).scenario.driver h (0 + cycle)).queue = [] :=
    Scenario.queue_empty (by
      change List.replicate g.numTransactions _ = []
      rw [none]
      rfl) cycle
  rw [Nat.zero_add, Driver.queue, point] at empty
  cases empty

private theorem silent_of_generated (member : t ∈ g.generateForHost h) : t.port.wants = false := by
  rw [eq_new member]
  rfl

theorem never_requests (cycle : Nat) :
    ((g.trial draws).scenario.driver h cycle).port.wants = false := by
  rw [← Bool.not_eq_true]
  intro wants
  obtain ⟨t, count, point⟩ := ((g.trial draws).scenario.consistent h cycle).waits wants
  rw [((g.trial draws).scenario.consistent h cycle).driven t count point,
    silent_of_generated (Scenario.waits_mail point)] at wants
  cases wants

theorem never_granted (edge : Nat) : (g.trial draws).scenario.grantAt edge = none := by
  cases granted : (g.trial draws).scenario.grantAt edge with
  | none => rfl
  | some h =>
    rw [Scenario.grantAt_seen] at granted
    cases (never_requests edge).symm.trans (Service.grantFrom_wants granted)

end Generator

/-- Generated transactions satisfy the constraints of their class, raise one of `rd` and
`wr` when they are driven, and cause one access each: behind `i` others, the next one is
driven, and its host is granted once before it returns. -/
structure LegalRequests (g : Generator) (draws : Nat → Draws p) : Prop where
  constraints : ∀ h, ∀ t ∈ (g.trial draws).mail h, t.Legal ∧ t.AddrUnique ∧ t.hostId = h.number
  raises : ∀ h drive t, ((g.trial draws).scenario.driver h drive).point = .drive t →
    ((g.trial draws).scenario.driver h (drive + 1)).port.rd ≠
      ((g.trial draws).scenario.driver h (drive + 1)).port.wr
  accesses : ∀ h, ∀ i < g.numTransactions, ∃ drive grant edge t,
    (log ((g.trial draws).scenario.returns h) drive).length = i ∧
    ((g.trial draws).scenario.driver h drive).point = .drive t ∧
    drive < grant ∧ grant < edge ∧
    (∀ k, drive ≤ k → k < edge → (g.trial draws).scenario.returns h k = none) ∧
    ((g.trial draws).scenario.returns h edge).isSome = true ∧
    ∀ k, drive ≤ k → k ≤ edge → ((g.trial draws).scenario.grantAt k = some h ↔ k = grant)

/-- The generator does so exactly when it generates nothing. -/
theorem legalRequests_iff (g : Generator) (draws : Nat → Draws p) :
    LegalRequests g draws ↔ g.numTransactions = 0 := by
  constructor
  · intro legal
    by_contra some
    obtain ⟨drive, grant, edge, t, _, _, after, before, _, _, granted⟩ :=
      legal.accesses .slave 0 (Nat.pos_of_ne_zero some)
    cases (Generator.never_granted grant).symm.trans
      ((granted grant (Nat.le_of_lt after) (Nat.le_of_lt before)).mpr rfl)
  · intro none
    refine ⟨?_, fun _ drive _ point => absurd point (Generator.never_drives none drive), ?_⟩
    · intro h t member
      change t ∈ List.replicate g.numTransactions _ at member
      rw [none] at member
      cases member
    · intro h i below
      omega

/-- With the defaults of the environment none of the 100 transactions of the Slave is a
read or a write. -/
theorem generated_illegal :
    ¬∀ (g : Generator) (draws : Nat → Draws .default), LegalRequests g draws := by
  intro legal
  have requests := legal ⟨100, 0b1111⟩ fun _ => ⟨fun _ => ⟨1, by decide, by decide⟩, 0⟩
  have constraints := requests.constraints .slave (.new true 1)
    (List.mem_replicate.mpr ⟨by decide, rfl⟩)
  exact constraints.1.ops rfl

end RoundRobinArbiter
