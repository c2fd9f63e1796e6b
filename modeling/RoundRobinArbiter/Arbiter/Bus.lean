import RoundRobinArbiter.Arbiter.Access

namespace RoundRobinArbiter

namespace Refines

variable {s : Arbiter p} {a : Service p} {i : Inputs p}

private theorem lines_forget (refines : Refines s a) (ready : a.ready = true)
    (last : a.pointer = some h) (alone : ∀ g, i.wants g = true ↔ g = h) :
    (s.posedge i true).lines = (i.host .extra).lines := by
  apply Arbiter.lines_load_none
  · exact refines.loads_request ready ((alone h).mpr rfl)
  · rw [refines.next, pick_alone last alone]

private theorem lines_rest (refines : Refines s a) (ready : a.ready = true)
    (silent : ∀ h, i.wants h = false) : (s.posedge i true).lines = s.lines := by
  apply Arbiter.lines_keep (refines.loads_silent silent)
  simp [refines.clears, ready]

private theorem lines_finish (refines : Refines s (.access h held elapsed))
    (ends : i.ackBus = true ∨ elapsed.val = p.limit) : (s.posedge i true).lines = .zero := by
  apply Arbiter.lines_clear
  · rw [refines.loads]
    rfl
  · rw [refines.clears, Service.ready, Bool.not_false, Bool.and_true, Bool.or_eq_true,
      refines.timeout]
    exact ends

end Refines

private theorem access_since_grant {inputs : Nat → Inputs p}
    (granted : Arbiter.grantAt inputs edge = some h) (later : Nat)
    (runs : ∀ k ≤ later, (Arbiter.run inputs (edge + 1 + k)).busy = true) :
    ∃ elapsed, Service.run inputs (edge + 1 + later) =
      .access h ((inputs edge).host h).request elapsed := by
  rw [grantAt_eq] at granted
  refine Service.access_persists (Service.grantFrom_access granted) later ?_
  intro k before
  have active := runs k before
  rw [(refines_run inputs _).busy, Bool.not_eq_true'] at active
  exact active

/-- What the device sees of a run belongs to the host that was granted. -/
structure Ownership (inputs : Nat → Inputs p) : Prop where
  wants : ∀ edge h, Arbiter.grantAt inputs edge = some h → (inputs edge).wants h = true
  starts : ∀ edge h, Arbiter.grantAt inputs edge = some h →
    (Arbiter.run inputs (edge + 1)).busy = true
  carries : ∀ edge h, Arbiter.grantAt inputs edge = some h →
    ∀ later, (∀ k ≤ later, (Arbiter.run inputs (edge + 1 + k)).busy = true) →
      (Arbiter.run inputs (edge + 1 + later)).addBus = ((inputs edge).host h).addr ∧
      (Arbiter.run inputs (edge + 1 + later)).byteEn = ((inputs edge).host h).be ∧
      (Arbiter.run inputs (edge + 1 + later)).cpuBus = ((inputs edge).host h).cpu ∧
      (Arbiter.run inputs (edge + 1 + later)).dataBusWr = ((inputs edge).host h).dwr ∧
      (Arbiter.run inputs (edge + 1 + later)).rdBus = ((inputs edge).host h).rd ∧
      (Arbiter.run inputs (edge + 1 + later)).wrBus = !((inputs edge).host h).rd
  byteEnable : (∀ edge h, (inputs edge).wants h = true → ((inputs edge).host h).be ≠ 0) →
    ∀ cycle, (Arbiter.run inputs cycle).busy = true → (Arbiter.run inputs cycle).byteEn ≠ 0

theorem Refines.carries {s : Arbiter p} {port : HostPort p}
    (refines : Refines s (.access h port.request elapsed)) :
    s.addBus = port.addr ∧ s.byteEn = port.be ∧ s.cpuBus = port.cpu ∧ s.dataBusWr = port.dwr ∧
      s.rdBus = port.rd ∧ s.wrBus = !port.rd := by
  have lines : s.lines = port.lines := refines.lines h port.request elapsed rfl
  have read := refines.rdBus
  have write := refines.wrBus
  simp only [Arbiter.lines, HostPort.lines, Lines.mk.injEq] at lines
  refine ⟨lines.1, lines.2.1, lines.2.2.1, lines.2.2.2, ?_, ?_⟩
  · rw [read]
    cases rd : port.rd <;> simp [Service.stm, Stm.does, HostPort.request, rd]
  · rw [write]
    cases rd : port.rd <;> simp [Service.stm, Stm.does, HostPort.request, rd]

theorem busy_granted {inputs : Nat → Inputs p} (active : (Arbiter.run inputs cycle).busy = true) :
    ∃ edge h later elapsed, cycle = edge + 1 + later ∧ Arbiter.grantAt inputs edge = some h ∧
      Service.run inputs cycle = .access h ((inputs edge).host h).request elapsed := by
  rw [(refines_run inputs cycle).busy] at active
  cases situation : Service.run inputs cycle with
  | access h held elapsed =>
    obtain ⟨edge, position, granted, request, _⟩ := Service.access_granted situation
    rw [← grantAt_eq] at granted
    rw [request]
    exact ⟨edge, h, elapsed.val, elapsed, position, granted, rfl⟩
  | _ =>
    rw [situation] at active
    cases active

theorem ownership (inputs : Nat → Inputs p) : Ownership inputs where
  wants edge h granted := by
    rw [grantAt_eq] at granted
    exact Service.grantFrom_wants granted
  starts edge h granted := by
    rw [grantAt_eq] at granted
    rw [(refines_run inputs (edge + 1)).busy]
    exact congrArg (fun a => !a.ready) (Service.grantFrom_access granted)
  carries edge h granted later runs := by
    obtain ⟨elapsed, running⟩ := access_since_grant granted later runs
    have refines := refines_run inputs (edge + 1 + later)
    rw [running] at refines
    exact refines.carries
  byteEnable enabled cycle active := by
    obtain ⟨edge, h, later, elapsed, position, granted, running⟩ := busy_granted active
    have refines := refines_run inputs cycle
    rw [running] at refines
    rw [refines.carries.2.1]
    rw [grantAt_eq] at granted
    exact enabled edge h (Service.grantFrom_wants granted)

/-- Outside accesses the device bus registers are zero. -/
def Quiet (s : Arbiter p) : Prop :=
  s.rdBus = false → s.wrBus = false →
    s.addBus = 0 ∧ s.byteEn = 0 ∧ s.cpuBus = false ∧ s.dataBusWr = 0

/-- The bus is quiet outside accesses, and what it ever carries was driven, at its
grant, by the host whose access runs. -/
def QuietBus (inputs : Nat → Inputs p) : Prop :=
  ∀ cycle, Quiet (Arbiter.run inputs cycle) ∧
    ((Arbiter.run inputs cycle).lines ≠ .zero →
      ∃ edge h later, cycle = edge + 1 + later ∧ Arbiter.grantAt inputs edge = some h ∧
        (Arbiter.run inputs cycle).accessing h = true ∧
        (Arbiter.run inputs cycle).lines = ((inputs edge).host h).lines)

/-- The Extra host drives zeros wherever the host that `current_m` names is the
only one to request. -/
def ExtraMasked (inputs : Nat → Inputs p) : Prop :=
  ∀ edge h, (Arbiter.run inputs edge).arbitrating = true →
    (Arbiter.run inputs edge).currentM = h.curr →
    (∀ g, (inputs edge).wants g = true ↔ g = h) →
    ((inputs edge).host .extra).lines = .zero

theorem Refines.pointer_curr {s : Arbiter p} {a : Service p} (refines : Refines s a) :
    s.currentM = h.curr ↔ a.pointer = some h := by
  rw [refines.pointer]
  constructor
  · intro same
    cases pointer : a.pointer with
    | none =>
      rw [pointer] at same
      cases h <;> exact absurd same (by decide)
    | some g =>
      rw [pointer] at same
      exact congrArg some (Arbiter.curr_injective same)
  · intro pointer
    rw [pointer]
    rfl

theorem quiet_iff (s : Arbiter p) : Quiet s ↔ (s.busy = false → s.lines = .zero) := by
  simp only [Quiet, Arbiter.busy, Bool.or_eq_false_iff, Arbiter.lines, Lines.zero, Lines.mk.injEq]
  exact ⟨fun quiet idle => quiet idle.1 idle.2, fun quiet read write => quiet ⟨read, write⟩⟩

private theorem lines_zero_step {inputs : Nat → Inputs p} (masked : ExtraMasked inputs)
    (quiet : (Arbiter.run inputs cycle).busy = false → (Arbiter.run inputs cycle).lines = .zero)
    (idle : (Arbiter.run inputs (cycle + 1)).busy = false) :
    (Arbiter.run inputs (cycle + 1)).lines = .zero := by
  have refines := refines_run inputs cycle
  have after := refines_run inputs (cycle + 1)
  have edge := Service.edge (inputs cycle) (Service.run inputs cycle)
  change Service.Edge _ _ (Service.run inputs (cycle + 1)) at edge
  rw [after.busy] at idle
  rw [refines.busy] at quiet
  generalize next : Service.run inputs (cycle + 1) = b at edge idle
  generalize Service.run inputs cycle = a at edge refines quiet
  cases edge with
  | grant ready chosen => cases idle
  | @forget _ h ready last alone =>
    refine (refines.lines_forget ready last alone).trans (masked cycle h ?_ ?_ alone)
    · rw [refines.arbitrating, ready]
    · exact refines.pointer_curr.mpr last
  | rest ready silent =>
    refine (refines.lines_rest ready silent).trans (quiet ?_)
    rw [ready]
    rfl
  | proceed waits within => cases idle
  | finish ends => exact refines.lines_finish ends

private theorem lines_zero_of_masked {inputs : Nat → Inputs p} (masked : ExtraMasked inputs)
    (cycle : Nat) :
    (Arbiter.run inputs cycle).busy = false → (Arbiter.run inputs cycle).lines = .zero := by
  induction cycle with
  | zero => exact fun _ => rfl
  | succ cycle ih => exact lines_zero_step masked ih

/-- The device bus is quiet outside accesses exactly in the runs where the Extra
host's port is masked at every edge that loads it for nobody. -/
theorem quietBus_iff_extraMasked (inputs : Nat → Inputs p) :
    QuietBus inputs ↔ ExtraMasked inputs := by
  constructor
  · intro quiet edge h arbitrating current alone
    have refines := refines_run inputs edge
    have ready : (Service.run inputs edge).ready = true := by
      rw [← refines.arbitrating, arbitrating]
    have last := refines.pointer_curr.mp current
    have loaded := refines.lines_forget ready last alone
    have forgotten : Service.run inputs (edge + 1) = .idle none :=
      Service.step_forget ready last alone
    have zero := (quiet_iff _).mp (quiet (edge + 1)).1
    refine loaded.symm.trans (zero ?_)
    rw [(refines_run inputs (edge + 1)).busy, forgotten]
    rfl
  · intro masked cycle
    refine ⟨(quiet_iff _).mpr (lines_zero_of_masked masked cycle), ?_⟩
    intro carries
    have active : (Arbiter.run inputs cycle).busy = true := by
      by_contra idle
      exact carries (lines_zero_of_masked masked cycle (Bool.eq_false_iff.mpr idle))
    obtain ⟨edge, h, later, elapsed, position, granted, running⟩ := busy_granted active
    have refines := refines_run inputs cycle
    refine ⟨edge, h, later, position, granted, ?_, ?_⟩
    · exact refines.accessing_iff.mpr ⟨_, elapsed, running⟩
    · exact refines.lines h _ elapsed running

/-- The Master requests alone after reset; the Extra host does not request. -/
def loneMaster : Inputs .default where
  host
    | .master => .reading 0
    | .extra => { HostPort.silent with addr := 1 }
    | _ => .silent
  dataBusRd := 0
  ackBus := false

/-- The Extra host's address reaches the device although it never requested. -/
theorem extra_address_leaks : ¬ QuietBus fun _ => loneMaster := by
  intro quiet
  have zero := (quiet 1).1 (by decide) (by decide)
  exact absurd zero.1 (by decide)

end RoundRobinArbiter
