import RoundRobinArbiter.Arbiter.Observation
import Mathlib.Logic.ExistsUnique

namespace RoundRobinArbiter

open Synchronous

/-- The labels of the state machine's case statement; any other value would take
the default branch. -/
def caseLabels : List (BitVec 13) :=
  [astmIdle, astmMswr, astmMsrd, astmMack, astmSlwr, astmSlrd, astmSack, astmTewr, astmTerd,
    astmTack, astmExwr, astmExrd, astmEack]

private theorem Stm.code_mem_caseLabels (state : Stm) : state.code ∈ caseLabels := by
  cases state with
  | idle => decide
  | access h op => cases h <;> cases op <;> decide
  | ack h => cases h <;> decide

/-- What every reachable state satisfies. -/
structure Lawful (s : Arbiter p) : Prop where
  oneHot : ∃! k : Fin 13, s.astmStm.getLsbD k = true
  pointer : s.currentM ∈ [currMstr, currSlav, currTest, currExtr, nextDumy]
  owner : ∀ h, s.accessing h = true ∨ s.acking h = true → s.currentM = h.curr
  labelled : s.astmStm ∈ caseLabels
  oneDirection : ¬(s.rdBus = true ∧ s.wrBus = true)
  oneCompletion : ∀ g h, (s.ack g).getLsbD 0 = true → (s.ack h).getLsbD 0 = true → g = h
  noAccess : ∀ h, (s.ack h).getLsbD 0 = true → s.rdBus = false ∧ s.wrBus = false

namespace Refines

variable {s : Arbiter p} {a : Service p}

theorem oneHot (refines : Refines s a) : ∃! k : Fin 13, s.astmStm.getLsbD k = true := by
  refine ⟨⟨a.stm.nstm, a.stm.nstm_lt⟩, ?_, ?_⟩
  · simp only [refines.stm, Stm.getLsbD_code]
  · intro k set
    rw [refines.stm, Stm.getLsbD_code] at set
    exact Fin.ext set

private theorem pointer_mem (refines : Refines s a) :
    s.currentM ∈ [currMstr, currSlav, currTest, currExtr, nextDumy] := by
  rw [refines.pointer]
  cases a.pointer with
  | none => decide
  | some h => cases h <;> decide

theorem owner (refines : Refines s a) (owns : s.accessing h = true ∨ s.acking h = true) :
    s.currentM = h.curr := by
  rw [refines.pointer]
  rcases owns with running | acked
  · obtain ⟨held, elapsed, same⟩ := refines.accessing_iff.mp running
    subst a
    rfl
  · have same := refines.acking_iff.mp acked
    subst a
    rfl

theorem oneDirection (refines : Refines s a) : ¬(s.rdBus = true ∧ s.wrBus = true) := by
  rw [refines.rdBus, refines.wrBus]
  cases a with
  | access h held elapsed => cases op : held.op <;> simp [Service.stm, Stm.does, op]
  | _ => simp [Service.stm, Stm.does]

theorem oneCompletion (refines : Refines s a) (first : (s.ack g).getLsbD 0 = true)
    (second : (s.ack h).getLsbD 0 = true) : g = h := by
  have one := refines.acking_iff.mp (refines.completion_iff.mp first)
  have two := refines.acking_iff.mp (refines.completion_iff.mp second)
  rw [one] at two
  cases two
  rfl

theorem noAccess (refines : Refines s a) (completes : (s.ack h).getLsbD 0 = true) :
    s.rdBus = false ∧ s.wrBus = false := by
  have same := refines.acking_iff.mp (refines.completion_iff.mp completes)
  subst a
  exact ⟨refines.rdBus, refines.wrBus⟩

end Refines

/-- Exactly one state bit, a legal pointer that names the owner of the bus, one
direction on the bus, and one completion at a time, never during an access. -/
theorem lawful_of_reachable {s : Arbiter p} (reached : (Arbiter.resettable p).Reachable s) :
    Lawful s := by
  obtain ⟨a, refines⟩ := refines_reachable reached
  exact {
    oneHot := refines.oneHot
    pointer := refines.pointer_mem
    owner := fun _ => refines.owner
    labelled := by
      rw [refines.stm]
      exact a.stm.code_mem_caseLabels
    oneDirection := refines.oneDirection
    oneCompletion := fun _ _ => refines.oneCompletion
    noAccess := fun _ => refines.noAccess }

theorem lawful_after_first_grant :
    Lawful ((Arbiter.reset : Arbiter .default).posedge (Inputs.reads [.slave, .test] false) true) :=
  lawful_of_reachable (.step (true, Inputs.reads [.slave, .test] false) .init)

end RoundRobinArbiter
