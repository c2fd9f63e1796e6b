import RoundRobinArbiter.Arbiter.Codes

namespace RoundRobinArbiter

open Synchronous

namespace Service

def stm : Service p → Stm
  | idle _ => .idle
  | access h request _ => .access h request.op
  | ack h => .ack h

@[simp] theorem stm_idle (pointer : Option Host) : (idle pointer : Service p).stm = .idle := rfl

@[simp] theorem stm_access (h : Host) (held : Request p) (elapsed : Fin (p.limit + 1)) :
    (access h held elapsed).stm = .access h held.op := rfl

@[simp] theorem stm_ack (h : Host) : (ack h : Service p).stm = .ack h := rfl

@[simp] theorem stm_ready (a : Service p) : a.stm.ready = a.ready := by
  cases a <;> rfl

end Service

/-- The registers show a situation of the service. The bus registers are bound
to the held request only while an access runs. -/
structure Refines (s : Arbiter p) (a : Service p) : Prop where
  stm : s.astmStm = a.stm.code
  pointer : s.currentM = pointerCode a.pointer
  lines : ∀ h request elapsed, a = .access h request elapsed → s.lines = request.toLines
  counts : ∀ h request elapsed, a = .access h request elapsed →
    s.timeoutCnt.toNat = elapsed.val

namespace Refines

variable {s : Arbiter p} {a : Service p} {i : Inputs p}

theorem reset : Refines (Arbiter.reset : Arbiter p) (.idle (some .master)) where
  stm := rfl
  pointer := rfl
  lines := by
    intro h request elapsed same
    cases same
  counts := by
    intro h request elapsed same
    cases same

theorem next (refines : Refines s a) : s.nextM i = pointerCode (pick a.pointer i.wants) :=
  Arbiter.nextM_code refines.pointer

theorem loads (refines : Refines s a) : s.loads i = (a.ready && Host.all.any i.wants) := by
  rw [Arbiter.loads_code refines.stm, Service.stm_ready]

theorem clears (refines : Refines s a) :
    s.clears i = ((i.ackBus || s.timeout) && !a.ready) := by
  rw [Arbiter.clears_code refines.stm, Service.stm_ready]

theorem loads_request (refines : Refines s a) (ready : a.ready = true) (wants : i.wants h = true) :
    s.loads i = true := by
  rw [refines.loads, ready, Bool.true_and]
  exact List.any_eq_true.mpr ⟨h, Host.mem_all h, wants⟩

theorem loads_silent (refines : Refines s a) (silent : ∀ h, i.wants h = false) :
    s.loads i = false := by
  have none : Host.all.any i.wants = false := by
    rw [List.any_eq_false]
    intro h _
    simp [silent h]
  rw [refines.loads, none, Bool.and_false]

theorem timeout (refines : Refines s (.access h request elapsed)) :
    s.timeout = true ↔ elapsed.val = p.limit := by
  rw [Arbiter.timeout_eq, refines.counts h request elapsed rfl]

theorem step (refines : Refines s a) (i : Inputs p) :
    Refines (s.posedge i true) (a.step i) := by
  have edge := Service.edge i a
  generalize a.step i = after at edge ⊢
  cases edge with
  | @grant _ h ready chosen =>
    have wants := pick_wants chosen
    have loads := refines.loads_request ready wants
    have next : s.nextM i = pointerCode (some h) := by rw [refines.next, chosen]
    have legal : a.stm.ready = true := by rw [Service.stm_ready, ready]
    refine ⟨?_, ?_, ?_, ?_⟩
    · exact (Arbiter.astmStmBlock_ready refines.stm legal).trans
        (Arbiter.nextAstmStm_some next wants)
    · rw [Arbiter.currentM_load loads, next]
      rfl
    · intro g request elapsed same
      cases same
      exact Arbiter.lines_load_some loads next
    · intro g request elapsed same
      cases same
      rw [Arbiter.timeoutCnt_ready refines.stm legal]
      rfl
  | @forget _ h ready last alone =>
    have loads := refines.loads_request ready ((alone h).mpr rfl)
    have next : s.nextM i = pointerCode none := by rw [refines.next, pick_alone last alone]
    have legal : a.stm.ready = true := by rw [Service.stm_ready, ready]
    refine ⟨?_, ?_, nofun, nofun⟩
    · exact (Arbiter.astmStmBlock_ready refines.stm legal).trans
        (Arbiter.nextAstmStm_none next)
    · rw [Arbiter.currentM_load loads, next]
      rfl
  | rest ready silent =>
    have next : s.nextM i = pointerCode none := by rw [refines.next, pick_silent silent]
    have legal : a.stm.ready = true := by rw [Service.stm_ready, ready]
    refine ⟨?_, ?_, nofun, nofun⟩
    · exact (Arbiter.astmStmBlock_ready refines.stm legal).trans
        (Arbiter.nextAstmStm_none next)
    · rw [Arbiter.currentM_keep (refines.loads_silent silent), refines.pointer]
      rfl
  | @proceed h request elapsed waits within =>
    have counted := refines.counts h request elapsed rfl
    have running : s.timeout = false := by
      rw [← Bool.not_eq_true, refines.timeout]
      omega
    have loads : s.loads i = false := by rw [refines.loads]; rfl
    have clears : s.clears i = false := by simp [refines.clears, waits, running]
    refine ⟨?_, ?_, ?_, ?_⟩
    · have stays := Arbiter.astmStmBlock_access (i := i) refines.stm
      simp only [waits, running, Bool.or_self, Bool.false_eq_true, ↓reduceIte] at stays
      exact stays
    · rw [Arbiter.currentM_keep loads, refines.pointer]
      rfl
    · intro g held count same
      cases same
      rw [Arbiter.lines_keep loads clears, refines.lines h request elapsed rfl]
    · intro g held count same
      cases same
      rw [Arbiter.timeoutCnt_access refines.stm (by omega), counted]
  | @finish h request elapsed ends =>
    have done : (i.ackBus || s.timeout) = true := by
      rw [Bool.or_eq_true, refines.timeout]
      exact ends
    have loads : s.loads i = false := by rw [refines.loads]; rfl
    refine ⟨?_, ?_, nofun, nofun⟩
    · have ended := Arbiter.astmStmBlock_access (i := i) refines.stm
      rw [done] at ended
      exact ended
    · rw [Arbiter.currentM_keep loads, refines.pointer]
      rfl

end Refines

def refinement (p : Params) : Simulation (Arbiter.machine p) (Service.machine p) where
  rel := Refines
  init := .reset
  step i _ _ refines := refines.step i

theorem refines_runFrom {start : Arbiter p} {view : Service p} (refines : Refines start view)
    (inputs : Nat → Inputs p) (cycle : Nat) :
    Refines (Arbiter.runFrom start inputs cycle) (Service.runFrom view inputs cycle) :=
  (refinement p).runFrom refines inputs cycle

theorem refines_run (inputs : Nat → Inputs p) (cycle : Nat) :
    Refines (Arbiter.run inputs cycle) (Service.run inputs cycle) :=
  refines_runFrom .reset inputs cycle

theorem refines_reachable {s : Arbiter p} (reached : (Arbiter.resettable p).Reachable s) :
    ∃ a, Refines s a :=
  (refinement p).reachable (Arbiter.reachable_of_resettable reached)

end RoundRobinArbiter
