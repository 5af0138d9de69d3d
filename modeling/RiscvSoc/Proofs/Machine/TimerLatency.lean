import RiscvSoc.Proofs.Core.TrapPriority
import RiscvSoc.Proofs.Interrupt.TimerLine
import RiscvSoc.Proofs.Machine.Transmissions

/-! From the store of a limit to the timer's interrupt, through the whole machine. The edge that
retires the store already counts one tick, so the flag is up after as many edges as the limit says,
that one included, and the next edge takes the interrupt. -/

namespace RiscvSoc

/-- An edge of the core's clock: what it finds, and the wires that it samples. -/
structure SampledEdge where
  soc : Soc
  wires : Wires

namespace SampledEdge

def after (e : SampledEdge) : Soc :=
  (e.soc.edge e.wires).1

def report (e : SampledEdge) : EdgeReport :=
  (e.soc.edge e.wires).2.1

def timerStore? (e : SampledEdge) : Option (UInt32 × UInt32) :=
  e.soc.timerStore? e.wires

/-- The edge sets neither the limit of the timer nor its enable register. -/
def SparesTimer (e : SampledEdge) : Prop :=
  ∀ st ∈ e.timerStore?, st.1 ≠ 0x4 ∧ st.1 ≠ 0x8

instance : DecidablePred SparesTimer := fun e =>
  e.timerStore?.decidableForallMem

def drive (t : Timer) (e : SampledEdge) : Timer :=
  (t.store e.timerStore?).tick

/-- The timer after all edges since power-on. -/
def timer (edges : List SampledEdge) : Timer :=
  edges.foldl drive .initial

/-- Edge `n` stores a limit to the enabled timer, and the next `k` edges set neither limit nor
enable register, as far as there are any. -/
structure Arms (edges : List SampledEdge) (n k : Nat) (limit : UInt32) : Prop where
  stores : ∃ e ∈ edges[n]?, e.timerStore? = some (0x4, limit) ∧
    e.soc.bus.timer?.any (·.enabled) = true
  spares : ∀ i, 0 < i → i ≤ k → ∀ e ∈ edges[n + i]?, e.SparesTimer

variable {edges : List SampledEdge} {e : SampledEdge} {n k j : Nat} {limit : UInt32}

theorem timer_take_succ (h : edges[n]? = some e) :
    timer (edges.take (n + 1)) = drive (timer (edges.take n)) e := by
  rw [List.take_add_one, h, timer, List.foldl_append]
  rfl

theorem SparesTimer.drive_after (h : e.SparesTimer) (t : Timer) (i : Nat) :
    drive (t.after i) e = t.after (i + 1) := by
  rw [drive, Timer.store_eq_self _ h, Timer.tick_after]

/-- An armed timer counts the edges from the one that stored the limit. -/
theorem Arms.timer_eq (h : Arms edges n k limit)
    (henabled : (timer (edges.take n)).enabled = true) (hj : j ≤ k)
    (hlength : n + j < edges.length) :
    timer (edges.take (n + j + 1)) =
      Timer.after { limit, enabled := true, count := 0 } (j + 1) := by
  induction j with
  | zero =>
    obtain ⟨e, he, hstore, -⟩ := h.stores
    -- Storing a limit restarts the count, and the tick of the same edge is its first.
    have hstored : (timer (edges.take n)).store (some (0x4, limit)) =
        { limit, enabled := true, count := 0 } := by
      rw [← henabled]
      rfl
    rw [Nat.add_zero, timer_take_succ he, drive, hstore, hstored, ← Timer.tick_after,
      Timer.after_zero]
  | succ j ih =>
    obtain ⟨later, hlater⟩ : ∃ later, edges[n + (j + 1)]? = some later :=
      ⟨_, List.getElem?_eq_getElem hlength⟩
    have hbefore := ih (by omega) (by omega)
    rw [timer_take_succ hlater, ← Nat.add_assoc, hbefore]
    exact (h.spares (j + 1) (by omega) hj later hlater).drive_after _ (j + 1)

theorem Arms.pending_iff (h : Arms edges n k limit)
    (henabled : (timer (edges.take n)).enabled = true) (hj : j ≤ k) (hwrap : j + 1 < 2 ^ 32)
    (hlength : n + j < edges.length) :
    (timer (edges.take (n + j + 1))).pending = true ↔ limit.toNat ≤ j + 1 := by
  rw [h.timer_eq henabled hj hlength, Timer.pending_after_iff rfl, UInt32.toNat_zero, Nat.zero_add,
    Nat.mod_eq_of_lt hwrap]

/-- With the flag bit of the timer up, an edge outside reset takes its interrupt exactly if
interrupts and the timer's are enabled and the word raises no exception. -/
theorem takes_timer_iff (hreset : e.wires.reset = false)
    (hflag : e.soc.lines.flag &&& InterruptSource.timer.flag ≠ 0) :
    e.report.transition = .interrupt .timer ↔
      e.soc.core.csrs.mstatus &&& mieBit ≠ 0 ∧
        e.soc.core.csrs.mie &&& InterruptSource.timer.enableMask ≠ 0 ∧
        e.wires.instruction ≠ Instruction.ecallWord ∧
        e.wires.instruction ≠ Instruction.ebreakWord := by
  let i := e.soc.core.trapInputs (e.soc.inputs e.wires)
  have hreport : e.report.transition = i.transition :=
    congrArg EdgeReport.transition (Soc.report_edge hreset)
  have hraises : ¬ i.Raises ↔ e.wires.instruction ≠ Instruction.ecallWord ∧
      e.wires.instruction ≠ Instruction.ebreakWord := not_or
  have hrequests : i.Requests .timer ↔ e.soc.core.csrs.mstatus &&& mieBit ≠ 0 ∧
      e.soc.core.csrs.mie &&& InterruptSource.timer.enableMask ≠ 0 :=
    and_congr_right fun _ => and_iff_right hflag
  rw [hreport, i.selects_transition.timer, hraises, hrequests]
  exact and_comm.trans and_assoc

end SampledEdge

def Machine.sampledEdge? (m : Machine) : Option SampledEdge :=
  if m.coreClock.step.2 = .rising then some { soc := m.soc, wires := m.beginStep.wires } else none

/-- Over a step the timer takes the edge, if there is one, and its line goes on showing it. -/
theorem Machine.times_step {m : Machine} {p : Peripherals} (h : m.soc.Times p) :
    ∃ q, m.step.1.soc.Times q ∧
      q.timer = m.sampledEdge?.toList.foldl SampledEdge.drive p.timer := by
  have hclocked : ∃ q, m.clocked.Times q ∧
      q.timer = m.sampledEdge?.toList.foldl SampledEdge.drive p.timer := by
    rw [clocked, sampledEdge?]
    split
    · exact h.edge m.beginStep.wires
    · exact ⟨p, h, rfl⟩
  obtain ⟨q, htimes, htimer⟩ := hclocked
  rw [m.steps_step.soc]
  split
  · exact ⟨q.scan, htimes.scan, htimer⟩
  · exact ⟨q, htimes, htimer⟩

structure Timeline where
  transcript : Transcript
  edges : List SampledEdge

namespace Timeline

def machine (t : Timeline) : Machine :=
  t.transcript.session.machine

def start (m : Machine) : Timeline :=
  { transcript := .start m, edges := [] }

def edge? (t : Timeline) : Exchange → Option SampledEdge
  | .happens .step => t.machine.sampledEdge?
  | _ => none

def act (t : Timeline) (x : Exchange) : Timeline :=
  { transcript := t.transcript.act x, edges := t.edges ++ (t.edge? x).toList }

/-- The timer stands where the edges have driven it, now and at each edge before, and its line
shows it. -/
structure Sound (t : Timeline) (p : Peripherals) : Prop where
  times : t.machine.soc.Times p
  timer : p.timer = SampledEdge.timer t.edges
  found : ∀ n, ∀ e ∈ t.edges[n]?,
    ∃ q, e.soc.Times q ∧ q.timer = SampledEdge.timer (t.edges.take n)

variable {t : Timeline} {p : Peripherals}

theorem sound_start (core : Core) (memory : Memory) (c : Config)
    (tracer : Option Waveform.Tracer) (image : Option Image) :
    (start (.ofParts core (Machine.standardBus c memory) c tracer image)).Sound (.initial c) :=
  ⟨Soc.times_idle core (Machine.devices_standardBus c memory) rfl, rfl, fun _ _ h => by cases h⟩

/-- What happens leaves the timer and its line where its edge, if it brings one, takes them. -/
theorem Sound.times_act (h : t.Sound p) {x : Exchange}
    (hforce : ∀ mask, x = .happens (.force mask) → mask &&& InterruptSource.timer.flag = 0) :
    ∃ q, (t.act x).machine.soc.Times q ∧
      q.timer = (t.edge? x).toList.foldl SampledEdge.drive p.timer := by
  obtain ⟨hdevices, hlevel, hlatched, hforced⟩ := h.times
  cases x with
  | take => exact ⟨_, ⟨Bus.devices_mapUart hdevices Uart.clearLog, hlevel, hlatched, hforced⟩, rfl⟩
  | happens x =>
    cases x with
    | step =>
      have hmachine : (t.act (.happens .step)).machine = t.machine.step.1 := by
        simp only [machine, Timeline.act, Transcript.act, Session.act]
      rw [hmachine]
      exact Machine.times_step h.times
    | receive bytes =>
      exact ⟨_, ⟨Bus.devices_receive hdevices bytes, hlevel, hlatched, hforced⟩, rfl⟩
    | force mask => exact ⟨p, h.times.force (hforce mask rfl), rfl⟩
    | memory change => exact ⟨p, ⟨hdevices, hlevel, hlatched, hforced⟩, rfl⟩

theorem soc_of_edge? {x : Exchange} {e : SampledEdge} (h : t.edge? x = some e) :
    e.soc = t.machine.soc := by
  unfold edge? at h
  split at h
  · rw [Machine.sampledEdge?, Option.ite_none_right_eq_some] at h
    rw [← Option.some.inj h.2]
  · cases h

theorem Sound.act (h : t.Sound p) {x : Exchange}
    (hforce : ∀ mask, x = .happens (.force mask) → mask &&& InterruptSource.timer.flag = 0) :
    ∃ q, (t.act x).Sound q := by
  obtain ⟨q, htimes, htimer⟩ := h.times_act hforce
  refine ⟨q, htimes, ?_, fun n e he => ?_⟩
  · rw [htimer, h.timer, SampledEdge.timer, ← List.foldl_append]
    rfl
  · change e ∈ (t.edges ++ (t.edge? x).toList)[n]? at he
    show ∃ q, e.soc.Times q ∧ q.timer = SampledEdge.timer ((t.edges ++ (t.edge? x).toList).take n)
    -- An edge from before is found as it was; behind them only the new one can be found.
    rcases Nat.lt_or_ge n t.edges.length with hn | hn
    · rw [List.getElem?_append_left hn] at he
      rw [List.take_append_of_le_length (Nat.le_of_lt hn)]
      exact h.found n e he
    · rw [List.getElem?_append_right hn] at he
      cases hx : t.edge? x with
      | none =>
        rw [hx] at he
        cases he
      | some new =>
        rw [hx, Option.toList_some] at he
        cases hk : n - t.edges.length with
        | zero =>
          obtain rfl : n = t.edges.length := by omega
          rw [hk] at he
          cases he
          rw [List.take_left, soc_of_edge? hx]
          exact ⟨p, h.times, h.timer⟩
        | succ k =>
          rw [hk] at he
          cases he

theorem sound_foldl (h : t.Sound p) (history : List Exchange)
    (hforce : ∀ mask, .happens (.force mask) ∈ history →
      mask &&& InterruptSource.timer.flag = 0) : ∃ q, (history.foldl act t).Sound q := by
  induction history generalizing t p with
  | nil => exact ⟨p, h⟩
  | cons x history ih =>
    obtain ⟨q, hq⟩ := h.act fun mask hx => hforce mask (hx ▸ List.mem_cons_self)
    exact ih hq fun mask hmask => hforce mask (List.mem_cons_of_mem x hmask)

/-- An edge leaves the timer's flag bit up exactly if the timer is pending then. -/
theorem Sound.flag_after (h : t.Sound p) {n : Nat} {e : SampledEdge} (he : t.edges[n]? = some e) :
    e.after.lines.flag &&& InterruptSource.timer.flag ≠ 0 ↔
      (SampledEdge.timer (t.edges.take (n + 1))).pending = true := by
  obtain ⟨q, htimes, htimer⟩ := h.found n e he
  obtain ⟨q', htimes', htimer'⟩ := htimes.edge e.wires
  have hdriven : q'.timer = SampledEdge.timer (t.edges.take (n + 1)) := by
    rw [htimer', htimer, SampledEdge.timer_take_succ he]
    rfl
  rw [← hdriven]
  exact htimes'.flag_iff

/-- While the timer stays armed since edge `n`, its flag bit is up exactly after as many edges as
the limit says, edge `n` included: each edge leaves it so, and so it stays until the next one. The
edge after those takes the timer's interrupt, unless it is under reset, exactly if the core lets the
interrupt through and the word raises no exception. -/
theorem interrupt_after_limit (core : Core) (memory : Memory) (c : Config)
    (tracer : Option Waveform.Tracer) (image : Option Image) (history : List Exchange)
    (hforce : ∀ mask, .happens (.force mask) ∈ history →
      mask &&& InterruptSource.timer.flag = 0) :
    let t := history.foldl act (start (.ofParts core (Machine.standardBus c memory) c tracer image))
    ∀ n k limit, SampledEdge.Arms t.edges n k limit →
      (∀ j ≤ k, j + 1 < 2 ^ 32 →
        (∀ e ∈ t.edges[n + j]?,
          (e.after.lines.flag &&& InterruptSource.timer.flag ≠ 0 ↔ limit.toNat ≤ j + 1)) ∧
        (t.edges.length = n + j + 1 →
          (t.machine.soc.lines.flag &&& InterruptSource.timer.flag ≠ 0 ↔ limit.toNat ≤ j + 1))) ∧
      (0 < limit.toNat → limit.toNat ≤ k + 1 →
        ∀ e ∈ t.edges[n + limit.toNat]?, e.wires.reset = false →
          (e.report.transition = .interrupt .timer ↔
            e.soc.core.csrs.mstatus &&& mieBit ≠ 0 ∧
              e.soc.core.csrs.mie &&& InterruptSource.timer.enableMask ≠ 0 ∧
              e.wires.instruction ≠ Instruction.ecallWord ∧
              e.wires.instruction ≠ Instruction.ebreakWord)) := by
  intro t n k limit harms
  obtain ⟨p, hp⟩ := sound_foldl (sound_start core memory c tracer image) history hforce
  have henabled : (SampledEdge.timer (t.edges.take n)).enabled = true := by
    obtain ⟨e, he, -, henabled⟩ := harms.stores
    obtain ⟨q, htimes, htimer⟩ := hp.found n e he
    rwa [Bus.timer?_of_devices htimes.devices, Option.any_some, htimer] at henabled
  refine ⟨fun j hj hwrap => ⟨fun e he => ?_, fun hlast => ?_⟩, fun hpos hk e he hreset => ?_⟩
  · have hlength : n + j < t.edges.length := (List.getElem?_eq_some_iff.mp he).1
    exact (hp.flag_after he).trans (harms.pending_iff henabled hj hwrap hlength)
  · rw [hp.times.flag_iff, hp.timer, ← harms.pending_iff henabled hj hwrap (by omega), ← hlast,
      List.take_length]
  · have hlength : n + limit.toNat < t.edges.length := (List.getElem?_eq_some_iff.mp he).1
    have hlimit := limit.toNat_lt
    obtain ⟨j, hj⟩ : ∃ j, limit.toNat = j + 1 := ⟨limit.toNat - 1, by omega⟩
    obtain ⟨q, htimes, htimer⟩ := hp.found _ e he
    refine SampledEdge.takes_timer_iff hreset (htimes.flag_iff.mpr ?_)
    rw [htimer, hj]
    exact (harms.pending_iff henabled (by omega) (by omega) (by omega)).mpr (by omega)

/-- Stores limit three, enables the timer, and stores the limit once more. -/
def alarm : Memory :=
  ⟨#[0x00000013, 0x600000B7, 0x00300113, 0x0020A223, 0x0020A423, 0x0020A223, 0x00000013, 0x00000013,
    0x00000013]⟩

def sleeper : Core :=
  { Core.powerOn 0 with csrs := { Csrs.initial with mstatus := mieBit, mie := 0x80 } }

/-- The host holds up the external line, and nine edges follow. -/
def night : List Exchange :=
  .happens (.force InterruptSource.external.flag) :: List.replicate 36 (.happens .step)

def rung : Timeline :=
  night.foldl act
    (start (.ofParts sleeper (Machine.standardBus Session.unheld alarm) Session.unheld none none))

/-- The edge that stores limit three anew arms the timer, and the third edge after it takes the
interrupt. -/
theorem interrupt_after_limit_alarm :
    (∀ mask, .happens (.force mask) ∈ night → mask &&& InterruptSource.timer.flag = 0) ∧
      SampledEdge.Arms rung.edges 5 2 3 ∧
      ∃ e ∈ rung.edges[8]?, e.report.transition = .interrupt .timer := by
  have hforce : ∀ mask, .happens (.force mask) ∈ night →
      mask &&& InterruptSource.timer.flag = 0 := by
    intro mask hmask
    simp only [night, List.mem_cons, List.mem_replicate, reduceCtorEq, Exchange.happens.injEq,
      Happening.force.injEq, and_false, or_false] at hmask
    rw [hmask]
    decide
  have harms : SampledEdge.Arms rung.edges 5 2 3 := by
    refine ⟨by decide +kernel, fun i hpos hi => ?_⟩
    obtain rfl | rfl : i = 1 ∨ i = 2 := by omega
    · decide +kernel
    · decide +kernel
  have htaker : ∃ e ∈ rung.edges[8]?, e.wires.reset = false ∧
      e.soc.core.csrs.mstatus &&& mieBit ≠ 0 ∧
      e.soc.core.csrs.mie &&& InterruptSource.timer.enableMask ≠ 0 ∧
      e.wires.instruction ≠ Instruction.ecallWord ∧
      e.wires.instruction ≠ Instruction.ebreakWord := by decide +kernel
  obtain ⟨e, he, hreset, hready⟩ := htaker
  have hindex : 8 = 5 + (3 : UInt32).toNat := rfl
  have hlatency : ∀ e ∈ rung.edges[5 + (3 : UInt32).toNat]?, e.wires.reset = false →
      (e.report.transition = .interrupt .timer ↔ _) :=
    (interrupt_after_limit sleeper alarm Session.unheld none none night hforce 5 2 3 harms).2
      (by decide) (by decide)
  rw [← hindex] at hlatency
  exact ⟨hforce, harms, e, he, (hlatency e he hreset).mpr hready⟩

end Timeline

end RiscvSoc
