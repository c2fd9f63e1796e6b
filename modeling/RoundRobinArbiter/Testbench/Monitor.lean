import RoundRobinArbiter.Arbiter.Service
import RoundRobinArbiter.Synchronous.Events
import RoundRobinArbiter.Synchronous.Polling
import RoundRobinArbiter.Testbench.Driver

/-! The monitor, after `arbiter_monitor.sv`. It watches one host at a time and follows
its transaction to the response before it turns to the next one. Its semaphores are
never contended, so that its place in the rotation says all that it will do. -/

namespace RoundRobinArbiter

open Synchronous

/-- What the hosts do not drive of `arbiter_if`. -/
structure Outputs (p : Params) where
  drd : Host → BitVec p.dw
  ack : Host → BitVec 2
  addBus : BitVec p.aw
  byteEn : BitVec p.bw
  wrBus : Bool
  rdBus : Bool
  dataBusWr : BitVec p.dw
  dataBusRd : BitVec p.dw
  cpuBus : Bool

/-- What a process samples of `arbiter_if` at an edge. -/
structure Interface (p : Params) extends Outputs p where
  host : Host → HostPort p

def Interface.wants (w : Interface p) (h : Host) : Bool := (w.host h).wants

namespace Transaction

/-- The host side of `collect_transaction`. Write data are taken for a write only. -/
def collectHost (trans : Transaction p) (port : HostPort p) : Transaction p :=
  { trans with
    addr := port.addr
    rd := port.rd
    wr := port.wr
    be := port.be
    cpu := port.cpu
    data := if port.wr then port.dwr else trans.data }

/-- The slave side of `collect_transaction`, one edge later. -/
def collectSlave (trans : Transaction p) (w : Interface p) : Transaction p :=
  { trans with
    addBus := w.addBus
    byteEn := w.byteEn
    wrBus := w.wrBus
    rdBus := w.rdBus
    dataBusWr := w.dataBusWr
    dataBusRd := w.dataBusRd
    cpuBus := w.cpuBus }

/-- What the loop of `wait_for_response` writes into its transaction at an edge. -/
def receive (trans : Transaction p) (w : Interface p) (h : Host) : Transaction p :=
  if w.ack h ≠ 0 then
    { trans with
      ack := w.ack h
      rdData := if trans.rd then w.drd h else trans.rdData
      dataBusRd := if trans.rd then w.dataBusRd else trans.dataBusRd }
  else trans

def collected (port : HostPort p) : Transaction p := (new false 0).collectHost port

end Transaction

namespace Host

/-- The hosts behind a host in the loop of `run`. -/
def later (h : Host) : List Host := Host.all.drop ((Host.place h).val + 1)

def next (h : Host) : Host :=
  Host.place.symm ⟨((Host.place h).val + 1) % 4, Nat.mod_lt _ (by decide)⟩

/-- One more at a host's place in an array of counters. -/
def bump [Add α] [OfNat α 1] (counts : Host → α) (h : Host) : Host → α :=
  fun g => if g = h then counts g + 1 else counts g

theorem bump_eq [Add α] [OfNat α 1] (counts : Host → α) (g h : Host) :
    bump counts h g = if some h = some g then counts g + 1 else counts g := by
  by_cases same : g = h
  · simp [bump, same]
  · simp [bump, same, Ne.symm same]

end Host

/-- Where the monitor is suspended: before its first edge after reset, at the end of
its loop, before the edge that samples the slave side, and in `wait_for_response`. -/
inductive Monitor.Point (p : Params) where
  | reset
  | watch
  | collect (h : Host) (trans : Transaction p)
  | respond (h : Host) (trans : Transaction p) (timeoutCount : Nat)

structure Monitor (p : Params) where
  currentHost : Host
  numTransactions : Host → BitVec 32
  /-- The keys in each semaphore. -/
  hostSema : Host → Nat
  /-- The calls of `$error` so far. -/
  errors : Nat
  point : Monitor.Point p

namespace Monitor

def timeoutLimit : Nat := 65535

def start : Monitor p := ⟨.master, fun _ => 0, fun _ => 1, 0, .reset⟩

/-- `monitor_host` up to its first edge, the key being there. -/
def monitorHost (m : Monitor p) (w : Interface p) (i : Host) : Monitor p :=
  { m with
    hostSema := fun h => if h = i then m.hostSema h - 1 else m.hostSema h
    point := .collect i (Transaction.collected (w.host i)) }

/-- The loop over the hosts from some host on. A host without a key is passed over. -/
def scan (m : Monitor p) (w : Interface p) : List Host → Monitor p
  | [] => { m with point := .watch }
  | i :: hosts =>
    if i = m.currentHost ∧ w.wants i = true then
      if 0 < m.hostSema i then m.monitorHost w i
      else scan { m with currentHost := i.next } w hosts
    else m.scan w hosts

/-- The rest of `monitor_host` once the transaction is collected, and the turn to the
next host. -/
def finish (m : Monitor p) (i : Host) : Monitor p :=
  { m with
    currentHost := i.next
    numTransactions := Host.bump m.numTransactions i
    hostSema := Host.bump m.hostSema i }

/-- `got_response` at the end of one turn of the loop. -/
def gotResponse (ack : BitVec 2) (timeoutCount : Nat) : Bool :=
  ack != 0 || timeoutLimit ≤ timeoutCount

theorem gotResponse_iff {ack : BitVec 2} :
    gotResponse ack count = true ↔ ack ≠ 0 ∨ timeoutLimit ≤ count := by
  simp [gotResponse]

theorem gotResponse_false_iff {ack : BitVec 2} :
    gotResponse ack count = false ↔ ack = 0 ∧ count < timeoutLimit := by
  simp [gotResponse]

def countError (m : Monitor p) (timeoutCount : Nat) : Monitor p :=
  if timeoutLimit ≤ timeoutCount then { m with errors := m.errors + 1 } else m

def step (m : Monitor p) (w : Interface p) : Monitor p :=
  match m.point with
  | .reset => { m with currentHost := .slave }.scan w Host.all
  | .watch => m.scan w Host.all
  | .collect h t => { m with point := .respond h (t.collectSlave w) 0 }
  | .respond h t timeoutCount =>
    let m := m.countError (timeoutCount + 1)
    if gotResponse (w.ack h) (timeoutCount + 1) then (m.finish h).scan w h.later
    else { m with point := .respond h (t.receive w h) (timeoutCount + 1) }

/-- The transaction put into a mailbox at an edge, with the host whose mailbox it is. -/
def puts (m : Monitor p) (w : Interface p) : Option (Host × Transaction p) :=
  match m.point with
  | .respond h t timeoutCount =>
    if gotResponse (w.ack h) (timeoutCount + 1) then some (h, t.receive w h) else none
  | _ => none

def machine (p : Params) : Machine (Interface p) (Monitor p) where
  init := start
  step w m := m.step w

end Monitor

/-- What a monitor is about to do: look whether a host requests, sample the slave side
for a host, or look for the response to a host. -/
inductive Stage (p : Params) where
  | watch (h : Host)
  | collect (h : Host) (trans : Transaction p)
  | respond (h : Host) (trans : Transaction p) (timeoutCount : Nat)

namespace Stage

/-- One look at a host. -/
def look (w : Interface p) (h : Host) : Stage p :=
  if w.wants h then .collect h (Transaction.collected (w.host h)) else .watch h

/-- From one host to the next. The loop reaches the next host at the same edge, but
for the Master, which needs another turn of it. -/
def turn (w : Interface p) (h : Host) : Stage p :=
  if h = .extra then .watch .master else look w h.next

def step (w : Interface p) : Stage p → Stage p
  | watch h => look w h
  | collect h t => respond h (t.collectSlave w) 0
  | respond h t timeoutCount =>
    if Monitor.gotResponse (w.ack h) (timeoutCount + 1) then turn w h
    else respond h t (timeoutCount + 1)

def puts (w : Interface p) : Stage p → Option (Host × Transaction p)
  | respond h t timeoutCount =>
    if Monitor.gotResponse (w.ack h) (timeoutCount + 1) then some (h, t.receive w h) else none
  | _ => none

def machine (p : Params) : Machine (Interface p) (Stage p) where
  init := watch .slave
  step w a := a.step w

end Stage

namespace Monitor

variable {m : Monitor p} {w : Interface p}

def stage (m : Monitor p) : Stage p :=
  match m.point with
  | .reset => .watch .slave
  | .watch => .watch m.currentHost
  | .collect h t => .collect h t
  | .respond h t timeoutCount => .respond h t timeoutCount

/-- The host whose key the monitor holds. -/
def holds (m : Monitor p) : Option Host :=
  match m.point with
  | .collect h _ => some h
  | .respond h _ _ => some h
  | _ => none

/-- Every key is in its semaphore but the one of the host that is being followed. -/
def Keyed (m : Monitor p) : Prop := ∀ h, m.hostSema h = if m.holds = some h then 0 else 1

theorem Keyed.start : (start : Monitor p).Keyed := fun _ => rfl

theorem scan_eq (free : ∀ h, m.hostSema h = 1) (hosts : List Host) :
    m.scan w hosts =
      if m.currentHost ∈ hosts ∧ w.wants m.currentHost = true then m.monitorHost w m.currentHost
      else { m with point := .watch } := by
  induction hosts with
  | nil => simp [scan]
  | cons i hosts ih =>
    rw [scan, free, ih]
    by_cases current : i = m.currentHost
    · subst current
      by_cases wants : w.wants m.currentHost = true
      · simp [wants]
      · simp [wants]
    · have member : (m.currentHost ∈ i :: hosts) ↔ m.currentHost ∈ hosts := by
        rw [List.mem_cons]
        exact or_iff_right fun same => current same.symm
      simp [current, member]

theorem scan_keyed (free : ∀ h, m.hostSema h = 1) (hosts : List Host) :
    (m.scan w hosts).Keyed := by
  rw [scan_eq free]
  split
  · intro h
    simp only [monitorHost, holds, free, Option.some.injEq]
    by_cases own : h = m.currentHost
    · simp [own]
    · simp [own, Ne.symm own]
  · intro h
    exact free h

theorem scan_stage (free : ∀ h, m.hostSema h = 1) (hosts : List Host) :
    (m.scan w hosts).stage =
      if m.currentHost ∈ hosts then Stage.look w m.currentHost else .watch m.currentHost := by
  rw [scan_eq free, Stage.look]
  by_cases member : m.currentHost ∈ hosts <;> by_cases wants : w.wants m.currentHost = true <;>
    simp [member, wants, stage, monitorHost]

theorem Keyed.free (keyed : m.Keyed) (rests : m.holds = none) (h : Host) : m.hostSema h = 1 := by
  rw [keyed h, rests]
  rfl

theorem countError_keeps (m : Monitor p) (timeoutCount : Nat) :
    (m.countError timeoutCount).hostSema = m.hostSema ∧
      (m.countError timeoutCount).numTransactions = m.numTransactions ∧
      (m.countError timeoutCount).holds = m.holds := by
  unfold countError
  split <;> exact ⟨rfl, rfl, rfl⟩

theorem Keyed.finish (keyed : m.Keyed) (follows : m.holds = some h) (g : Host) :
    (m.finish h).hostSema g = 1 := by
  have key := keyed g
  rw [follows] at key
  change Host.bump m.hostSema h g = 1
  rw [Host.bump_eq, key]
  split <;> rfl

theorem step_reset (point : m.point = .reset) :
    m.step w = { m with currentHost := .slave }.scan w Host.all := by
  rw [step, point]

theorem step_watch (point : m.point = .watch) : m.step w = m.scan w Host.all := by
  rw [step, point]

theorem step_collect (point : m.point = .collect h t) :
    m.step w = { m with point := .respond h (t.collectSlave w) 0 } := by
  rw [step, point]

theorem step_got (point : m.point = .respond h t count)
    (got : gotResponse (w.ack h) (count + 1) = true) :
    m.step w = ((m.countError (count + 1)).finish h).scan w h.later := by
  rw [step, point]
  exact if_pos got

theorem step_wait (point : m.point = .respond h t count)
    (waits : gotResponse (w.ack h) (count + 1) = false) :
    m.step w = { m with point := .respond h t (count + 1) } := by
  obtain ⟨silent, patient⟩ := gotResponse_false_iff.mp waits
  rw [step, point]
  simp [gotResponse, silent, Transaction.receive, countError, Nat.not_le.mpr patient]

/-- One edge keeps the keys in order and takes the stage one step on. -/
theorem Keyed.step (keyed : m.Keyed) (w : Interface p) :
    (m.step w).Keyed ∧ (m.step w).stage = m.stage.step w := by
  cases point : m.point with
  | reset =>
    have rests : m.holds = none := by rw [holds, point]
    have free : ∀ h, { m with currentHost := .slave }.hostSema h = 1 := keyed.free rests
    have shows : m.stage = .watch .slave := by rw [stage, point]
    rw [step_reset point, scan_stage free, shows]
    exact ⟨scan_keyed free _, rfl⟩
  | watch =>
    have rests : m.holds = none := by rw [holds, point]
    have free := keyed.free rests
    have shows : m.stage = .watch m.currentHost := by rw [stage, point]
    rw [step_watch point, scan_stage free, if_pos (Host.mem_all _), shows]
    exact ⟨scan_keyed free _, rfl⟩
  | collect h t =>
    have follows : m.holds = some h := by rw [holds, point]
    rw [step_collect point]
    refine ⟨?_, by simp [stage, point, Stage.step]⟩
    intro g
    have key := keyed g
    rw [follows] at key
    exact key
  | respond h t count =>
    have follows : m.holds = some h := by rw [holds, point]
    have shows : m.stage = .respond h t count := by rw [stage, point]
    rw [shows, Stage.step]
    cases got : gotResponse (w.ack h) (count + 1) with
    | false =>
      rw [step_wait point got]
      refine ⟨?_, rfl⟩
      intro g
      have key := keyed g
      rw [follows] at key
      exact key
    | true =>
      obtain ⟨sema, _, holding⟩ := m.countError_keeps (count + 1)
      have kept : (m.countError (count + 1)).Keyed := by
        intro g
        rw [sema, holding]
        exact keyed g
      have free := kept.finish (holding.trans follows)
      rw [step_got point got, scan_stage free, Stage.turn]
      refine ⟨scan_keyed free _, ?_⟩
      cases h <;> rfl

private theorem puts_eq (m : Monitor p) (w : Interface p) : m.puts w = m.stage.puts w := by
  unfold puts stage
  cases m.point <;> rfl

theorem scan_keeps (m : Monitor p) (w : Interface p) (hosts : List Host) :
    (m.scan w hosts).numTransactions = m.numTransactions ∧ (m.scan w hosts).errors = m.errors := by
  induction hosts generalizing m with
  | nil => exact ⟨rfl, rfl⟩
  | cons i hosts ih =>
    rw [scan]
    split
    · split
      · exact ⟨rfl, rfl⟩
      · exact ih _
    · exact ih m

theorem numTransactions_step (m : Monitor p) (w : Interface p) (h : Host) :
    (m.step w).numTransactions h =
      m.numTransactions h + if (m.puts w).map Prod.fst = some h then 1 else 0 := by
  rw [puts]
  cases point : m.point with
  | reset => simp [step_reset point, scan_keeps]
  | watch => simp [step_watch point, scan_keeps]
  | collect g t => simp [step_collect point]
  | respond g t count =>
    by_cases got : gotResponse (w.ack g) (count + 1) = true
    · rw [step_got point got, (scan_keeps _ _ _).1]
      change Host.bump (m.countError (count + 1)).numTransactions g h = _
      rw [(m.countError_keeps _).2.1, Host.bump_eq]
      simp only [got, ↓reduceIte, Option.map_some]
      split
      · rfl
      · exact (BitVec.add_zero _).symm
    · rw [Bool.not_eq_true] at got
      simp [step_wait point got, got]

theorem errors_step (point : m.point = .respond h t count) :
    (m.step w).errors = m.errors + if timeoutLimit ≤ count + 1 then 1 else 0 := by
  cases got : gotResponse (w.ack h) (count + 1) with
  | true =>
    rw [step_got point got, (scan_keeps _ _ _).2]
    change (m.countError (count + 1)).errors = _
    unfold countError
    split <;> rfl
  | false =>
    have patient : ¬timeoutLimit ≤ count + 1 := by
      intro expired
      cases (gotResponse_iff.mpr (.inr expired)).symm.trans got
    rw [step_wait point got, if_neg patient]
    rfl

end Monitor

/-- A monitor is fully described by its stage. -/
def staging (p : Params) : Simulation (Monitor.machine p) (Stage.machine p) where
  rel m a := m.Keyed ∧ m.stage = a
  init := ⟨.start, rfl⟩
  step w m a related := by
    obtain ⟨keyed, rfl⟩ := related
    exact keyed.step w

namespace Stage

/-- Everything one edge can do, with the transaction it puts. -/
inductive Edge (w : Interface p) :
    Stage p → Stage p → Option (Host × Transaction p) → Prop where
  | miss {h : Host} (silent : w.wants h = false) : Edge w (watch h) (watch h) none
  | detect {h : Host} (wants : w.wants h = true) :
      Edge w (watch h) (collect h (Transaction.collected (w.host h))) none
  | sample {h : Host} {t : Transaction p} :
      Edge w (collect h t) (respond h (t.collectSlave w) 0) none
  | wait {h : Host} {t : Transaction p} {count : Nat} (silent : w.ack h = 0)
      (patient : count + 1 < Monitor.timeoutLimit) :
      Edge w (respond h t count) (respond h t (count + 1)) none
  | pass {h : Host} {t : Transaction p} {count : Nat}
      (stops : w.ack h ≠ 0 ∨ Monitor.timeoutLimit ≤ count + 1)
      (missed : h = .extra ∨ w.wants h.next = false) :
      Edge w (respond h t count) (watch h.next) (some (h, t.receive w h))
  | chain {h : Host} {t : Transaction p} {count : Nat}
      (stops : w.ack h ≠ 0 ∨ Monitor.timeoutLimit ≤ count + 1) (inner : h ≠ .extra)
      (wants : w.wants h.next = true) :
      Edge w (respond h t count) (collect h.next (Transaction.collected (w.host h.next)))
        (some (h, t.receive w h))

def host : Stage p → Host
  | watch h => h
  | collect h _ => h
  | respond h _ _ => h

theorem Edge.host {w : Interface p} {a next : Stage p} {put : Option (Host × Transaction p)}
    (edge : Edge w a next put) :
    (put = none ∧ next.host = a.host) ∨ ∃ t, put = some (a.host, t) ∧ next.host = a.host.next := by
  cases edge with
  | miss silent => exact .inl ⟨rfl, rfl⟩
  | detect wants => exact .inl ⟨rfl, rfl⟩
  | sample => exact .inl ⟨rfl, rfl⟩
  | wait silent patient => exact .inl ⟨rfl, rfl⟩
  | pass stops missed => exact .inr ⟨_, rfl, rfl⟩
  | chain stops inner wants => exact .inr ⟨_, rfl, rfl⟩

theorem edge (w : Interface p) (a : Stage p) : Edge w a (a.step w) (a.puts w) := by
  cases a with
  | watch h =>
    rw [step, look]
    split
    · rename_i wants
      exact .detect wants
    · rename_i silent
      exact .miss (Bool.not_eq_true _ ▸ silent)
  | collect h t => exact .sample
  | respond h t count =>
    rw [step, puts]
    split
    · rename_i got
      have stops := Monitor.gotResponse_iff.mp got
      rw [turn]
      split
      · rename_i last
        subst last
        exact .pass stops (.inl rfl)
      · rename_i inner
        rw [look]
        split
        · rename_i wants
          exact .chain stops inner wants
        · rename_i silent
          exact .pass stops (.inr (Bool.not_eq_true _ ▸ silent))
    · rename_i waits
      obtain ⟨silent, patient⟩ := Monitor.gotResponse_false_iff.mp (Bool.not_eq_true _ ▸ waits)
      exact .wait silent patient

end Stage

namespace Monitor

def run (wires : Nat → Interface p) : Nat → Monitor p := (machine p).run wires

variable (wires : Nat → Interface p)

def stageAt (cycle : Nat) : Stage p := (run wires cycle).stage

/-- The transaction put at an edge, with the host whose mailbox it is. -/
def putAt (edge : Nat) : Option (Host × Transaction p) := (run wires edge).puts (wires edge)

private theorem keyed_run (cycle : Nat) : (run wires cycle).Keyed :=
  ((staging p).run wires cycle).1

theorem stageAt_succ (edge : Nat) :
    stageAt wires (edge + 1) = (stageAt wires edge).step (wires edge) :=
  ((keyed_run wires edge).step (wires edge)).2

theorem putAt_eq (edge : Nat) : putAt wires edge = (stageAt wires edge).puts (wires edge) :=
  puts_eq _ _

theorem stage_edge (edge : Nat) :
    Stage.Edge (wires edge) (stageAt wires edge) (stageAt wires (edge + 1)) (putAt wires edge) := by
  rw [stageAt_succ, putAt_eq]
  exact Stage.edge (wires edge) (stageAt wires edge)

/-- What the monitor knows of a transaction that it detects at an edge, when it starts
to look for the response. -/
def observed (h : Host) (edge : Nat) : Transaction p :=
  (Transaction.collected ((wires edge).host h)).collectSlave (wires (edge + 1))

/-- The monitor follows a transaction of `h` from `edge` and puts it at `finish`. -/
structure Forwards (h : Host) (edge finish : Nat) : Prop where
  later : edge + 2 ≤ finish
  wants : (wires edge).wants h = true
  collect : stageAt wires (edge + 1) = .collect h (Transaction.collected ((wires edge).host h))
  respond : ∀ k, edge + 2 + k ≤ finish →
    stageAt wires (edge + 2 + k) = .respond h (observed wires h edge) k
  silent : ∀ k, edge + 2 + k < finish → (wires (edge + 2 + k)).ack h = 0
  stops : (wires finish).ack h ≠ 0 ∨ timeoutLimit ≤ finish - (edge + 2) + 1
  put : putAt wires finish = some (h, (observed wires h edge).receive (wires finish) h)

variable {wires}

private theorem collect_detected (stage : stageAt wires cycle = .collect h t) :
    ∃ edge, cycle = edge + 1 ∧ (wires edge).wants h = true ∧
      t = Transaction.collected ((wires edge).host h) := by
  cases cycle with
  | zero => cases stage
  | succ edge =>
    have step := stage_edge wires edge
    rw [stage] at step
    generalize stageAt wires edge = before, putAt wires edge = put at step
    cases step with
    | detect wants => exact ⟨edge, rfl, wants, rfl⟩
    | chain stops inner wants => exact ⟨edge, rfl, wants, rfl⟩

/-- A monitor that looks for a response detected the transaction as many edges ago as
it has counted, and two more, and has seen no response since. -/
theorem respond_detected (stage : stageAt wires cycle = .respond h t count) :
    ∃ edge, cycle = edge + 2 + count ∧ (wires edge).wants h = true ∧
      stageAt wires (edge + 1) = .collect h (Transaction.collected ((wires edge).host h)) ∧
      t = observed wires h edge ∧
      (∀ k ≤ count, stageAt wires (edge + 2 + k) = .respond h t k) ∧
      ∀ k < count, (wires (edge + 2 + k)).ack h = 0 := by
  induction count generalizing cycle with
  | zero =>
    cases cycle with
    | zero => cases stage
    | succ cycle =>
      have step := stage_edge wires cycle
      rw [stage] at step
      generalize origin : stageAt wires cycle = before, putAt wires cycle = put at step
      cases step with
      | sample =>
        obtain ⟨edge, rfl, wants, rfl⟩ := collect_detected origin
        refine ⟨edge, rfl, wants, origin, rfl, ?_, nofun⟩
        intro k none
        obtain rfl := Nat.le_zero.mp none
        exact stage
  | succ count ih =>
    cases cycle with
    | zero => cases stage
    | succ cycle =>
      have step := stage_edge wires cycle
      rw [stage] at step
      generalize origin : stageAt wires cycle = before, putAt wires cycle = put at step
      cases step with
      | wait silent patient =>
        obtain ⟨edge, position, wants, collect, same, all, quiet⟩ := ih origin
        refine ⟨edge, by omega, wants, collect, same, ?_, ?_⟩
        · intro k bound
          rcases Nat.eq_or_lt_of_le bound with last | earlier
          · subst last
            rw [← Nat.add_assoc, ← position]
            exact stage
          · exact all k (Nat.le_of_lt_succ earlier)
        · intro k below
          rcases Nat.eq_or_lt_of_le (Nat.le_of_lt_succ below) with last | earlier
          · subst last
            rw [← position]
            exact silent
          · exact quiet k earlier

theorem watches_on (initial : stageAt wires 0 = .watch h)
    (silent : ∀ cycle, (wires cycle).wants h = false) (cycle : Nat) :
    stageAt wires cycle = .watch h ∧ putAt wires cycle = none := by
  have stays : stageAt wires cycle = .watch h := by
    induction cycle with
    | zero => exact initial
    | succ cycle ih => rw [stageAt_succ, ih, Stage.step, Stage.look, silent]; rfl
  refine ⟨stays, ?_⟩
  rw [putAt_eq, stays]
  rfl

theorem waits_on (stage : stageAt wires cycle = .respond h t 0) (more : Nat)
    (patient : more < timeoutLimit) (silent : ∀ k < more, (wires (cycle + k)).ack h = 0) :
    stageAt wires (cycle + more) = .respond h t more := by
  have turn : ∀ cycle count, stageAt wires cycle = .respond h t count →
      ¬(wires cycle).ack h ≠ 0 → count + 1 < timeoutLimit →
      stageAt wires (cycle + 1) = .respond h t (count + 1) := by
    intro cycle count waits quiet within
    rw [stageAt_succ, waits, Stage.step, gotResponse_false_iff.mpr ⟨not_not.mp quiet, within⟩]
    rfl
  exact counts_on turn stage more patient (fun k below => not_not.mpr (silent k below))

/-- Every transaction that is put was followed from its detection. -/
theorem put_forwards {finish : Nat} (put : putAt wires finish = some (h, t)) :
    ∃ edge, Forwards wires h edge finish ∧
      t = (observed wires h edge).receive (wires finish) h := by
  have step := stage_edge wires finish
  have origin : ∃ s count, stageAt wires finish = .respond h s count ∧
      ((wires finish).ack h ≠ 0 ∨ timeoutLimit ≤ count + 1) ∧ t = s.receive (wires finish) h := by
    rw [put] at step
    generalize stageAt wires finish = before, stageAt wires (finish + 1) = after at step
    cases step with
    | pass stops missed => exact ⟨_, _, rfl, stops, rfl⟩
    | chain stops inner wants => exact ⟨_, _, rfl, stops, rfl⟩
  obtain ⟨s, count, stage, stops, rfl⟩ := origin
  obtain ⟨edge, rfl, wants, collect, rfl, all, quiet⟩ := respond_detected stage
  refine ⟨edge, ⟨by omega, wants, collect, ?_, ?_, ?_, put⟩, rfl⟩
  · intro k bound
    exact all k (by omega)
  · intro k below
    exact quiet k (by omega)
  · rw [Nat.add_sub_cancel_left]
    exact stops

/-- A response that the monitor looks for is put at once, and so is a transaction whose
count reaches the limit. -/
theorem put_of_stops (stage : stageAt wires cycle = .respond h t count)
    (stops : (wires cycle).ack h ≠ 0 ∨ timeoutLimit ≤ count + 1) :
    putAt wires cycle = some (h, t.receive (wires cycle) h) := by
  rw [putAt_eq, stage, Stage.puts, if_pos (gotResponse_iff.mpr stops)]

theorem forwards_at_once {edge : Nat} (stage : stageAt wires (edge + 2) = .respond h t 0)
    (answer : (wires (edge + 2)).ack h ≠ 0) : Forwards wires h edge (edge + 2) := by
  obtain ⟨start, forwards, _⟩ := put_forwards (put_of_stops stage (.inl answer))
  obtain ⟨k, position⟩ := Nat.exists_eq_add_of_le forwards.later
  have again := forwards.respond k (Nat.le_of_eq position.symm)
  rw [← position, stage] at again
  cases again
  obtain rfl : edge = start := by omega
  exact forwards

/-- The host whose transaction is put at an edge. -/
def putHost (wires : Nat → Interface p) (edge : Nat) : Option Host :=
  (putAt wires edge).map Prod.fst

/-- The transactions of a host that have been put before a cycle. -/
def recorded (wires : Nat → Interface p) (h : Host) (cycle : Nat) : Nat :=
  Nat.count (fun edge => putHost wires edge = some h) cycle

theorem recorded_succ (wires : Nat → Interface p) (h : Host) (cycle : Nat) :
    recorded wires h (cycle + 1) =
      recorded wires h cycle + if putHost wires cycle = some h then 1 else 0 :=
  Nat.count_succ _ _

/-- The counters count the mailboxes, modulo `2 ^ 32`. -/
theorem numTransactions_run (wires : Nat → Interface p) (h : Host) (cycle : Nat) :
    (run wires cycle).numTransactions h = .ofNat 32 (recorded wires h cycle) :=
  counter_eq (fun cycle => (run wires cycle).numTransactions h) (fun edge => putHost wires edge = h)
    rfl (fun edge => numTransactions_step (run wires edge) (wires edge) h) cycle

end Monitor

end RoundRobinArbiter
