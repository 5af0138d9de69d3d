import Mathlib.Algebra.Order.Interval.Finset.SuccPred
import Mathlib.Data.Nat.SuccPred
import Mathlib.Order.Interval.Finset.Nat
import RiscvSoc.Proofs.Machine.Deliveries
import RiscvSoc.Proofs.Soc.CommittedEdge

/-! What the statistics of a run count. A tally keeps the edges that the steps of a run have
committed; the statistics, the clock and the counters of the core are all read off them, whatever
the host does to the bus and to the interrupt lines between the steps. -/

namespace RiscvSoc

namespace Stats

variable (s : Stats) (e : CommittedEdge)

def record : Stats :=
  (s.recordTraffic e.traffic).recordEdge e.report

theorem recordTraffic_eq (t : Traffic) :
    s.recordTraffic t =
      { s with
        memoryWrites := s.memoryWrites + if t = .memoryWrite then 1 else 0
        mmioReads := s.mmioReads + if t = .deviceRead then 1 else 0
        mmioWrites := s.mmioWrites + if t = .deviceWrite then 1 else 0 } := by
  cases t <;> rfl

theorem recordEdge_eq (r : EdgeReport) :
    s.recordEdge r =
      { s with
        cycles := s.cycles + 1
        instructionsRetired := s.instructionsRetired + if r.retired then 1 else 0
        exceptions := s.exceptions + if r.transition.isException then 1 else 0
        interrupts := s.interrupts + if r.transition.isInterrupt then 1 else 0
        trapReturns := s.trapReturns + if r.transition.isReturn then 1 else 0 } := by
  obtain ⟨retired, transition⟩ := r
  cases transition <;> rfl

end Stats

/-- The statistics count the committed edges, each for what it is. -/
structure Stats.Counts (s : Stats) (edges : List CommittedEdge) : Prop where
  cycles : s.cycles = edges.length
  instructionsRetired : s.instructionsRetired = edges.countP (·.report.retired)
  exceptions : s.exceptions = edges.countP (·.report.transition.isException)
  interrupts : s.interrupts = edges.countP (·.report.transition.isInterrupt)
  trapReturns : s.trapReturns = edges.countP (·.report.transition.isReturn)
  memoryWrites : s.memoryWrites = edges.countP (·.storesToMemory)
  mmioWrites : s.mmioWrites = edges.countP (·.storesToDevice)
  mmioReads : s.mmioReads = edges.countP fun e => e.loadsDevice || e.straysToDevice

namespace Stats.Counts

variable {s : Stats} {edges : List CommittedEdge}

theorem zero : Stats.zero.Counts [] :=
  ⟨rfl, rfl, rfl, rfl, rfl, rfl, rfl, rfl⟩

theorem record (h : s.Counts edges) (e : CommittedEdge) : (s.record e).Counts (edges ++ [e]) := by
  obtain ⟨hmemory, hdevice, hread⟩ := e.traffic_iff
  rw [Stats.record, recordEdge_eq, recordTraffic_eq]
  constructor <;>
    simp only [List.length_append, List.countP_append, List.countP_singleton, List.length_singleton,
      hmemory, hdevice, hread, h.cycles, h.instructionsRetired, h.exceptions, h.interrupts,
      h.trapReturns, h.memoryWrites, h.mmioWrites, h.mmioReads]

end Stats.Counts

namespace CommittedEdge

variable (edges : List CommittedEdge)

theorem length_eq_kinds :
    edges.length =
      edges.countP (·.report.retired) + edges.countP (·.report.transition.isException) +
        edges.countP (·.report.transition.isInterrupt) := by
  induction edges with
  | nil => rfl
  | cons e edges ih =>
    have hkind := e.one_kind
    simp only [List.length_cons, List.countP_cons]
    omega

theorem countP_isReturn_le :
    edges.countP (·.report.transition.isReturn) ≤ edges.countP (·.report.retired) :=
  List.countP_mono_left fun e _ => e.retired_of_isReturn

/-- Two kinds that no edge is both of are counted apart. -/
theorem countP_or {p q : CommittedEdge → Bool} (h : ∀ e, p e = true → q e = false) :
    (edges.countP fun e => p e || q e) = edges.countP p + edges.countP q := by
  induction edges with
  | nil => rfl
  | cons e edges ih =>
    have hsplit : (if p e || q e then 1 else 0) =
        (if p e then 1 else 0) + if q e then 1 else 0 := by
      cases hp : p e with
      | false => rw [Bool.false_or, if_neg Bool.false_ne_true, Nat.zero_add]
      | true => rw [h e hp, Bool.true_or, if_pos rfl, if_neg Bool.false_ne_true]
    simp only [List.countP_cons]
    omega

theorem countP_stores :
    edges.countP (·.storesToMemory) + edges.countP (·.storesToDevice) =
      edges.countP (·.storeRoute?.isSome) := by
  have heither : ∀ e : CommittedEdge,
      e.storeRoute?.isSome = (e.storesToMemory || e.storesToDevice) := by
    intro e
    rw [storesToMemory, storesToDevice]
    cases e.storeRoute? with
    | none => rfl
    | some route => cases hroute : route.isPeripheral <;> simp [hroute]
  simp only [heither]
  refine (countP_or edges fun e hmemory => ?_).symm
  rw [storesToMemory] at hmemory
  rw [storesToDevice]
  cases hroute : e.storeRoute? with
  | none => rfl
  | some route => simpa [hroute] using hmemory

/-- The loads from devices, retired or stray. -/
theorem countP_loads :
    (edges.countP fun e => e.loadsDevice || e.straysToDevice) =
      edges.countP (·.loadsDevice) + edges.countP (·.straysToDevice) := by
  refine countP_or edges fun e hload => ?_
  rw [loadsDevice, Bool.and_eq_true] at hload
  rw [straysToDevice, hload.1, Bool.not_true, Bool.and_false, Bool.false_and]

end CommittedEdge

namespace Machine

variable (m : Machine)

/-- The edge that the next step commits: none unless the clock rises outside reset. -/
def committedEdge? : Option CommittedEdge :=
  if h : m.coreClock.step.2 = .rising ∧ m.beginStep.wires.reset = false then
    some { soc := m.soc, wires := m.beginStep.wires, released := h.2 }
  else none

theorem stats_clockCore :
    m.beginStep.clockCore.stats =
      match m.committedEdge? with
      | some e => m.beginStep.stats.record e
      | none => m.beginStep.stats := by
  have hclock : m.beginStep.coreClock = m.coreClock := rfl
  by_cases h : m.coreClock.step.2 = .rising ∧ m.beginStep.wires.reset = false
  · rw [committedEdge?, dif_pos h]
    simp only [clockCore, risingEdge, hclock, h.1, h.2, if_true, Bool.false_eq_true, if_false]
    rfl
  · rw [committedEdge?, dif_neg h]
    by_cases hrise : m.coreClock.step.2 = .rising
    · have hreset : m.beginStep.wires.reset = true := by
        rw [← Bool.not_eq_false]
        exact fun hlow => h ⟨hrise, hlow⟩
      simp only [clockCore, risingEdge, hclock, hrise, hreset, if_true]
    · simp only [clockCore, hclock, hrise, if_false]

/-- The pixel side of a step counts frames and nothing else. -/
private theorem stats_clockPixel :
    ∃ frames, m.clockPixel.1.stats = { m.stats with framesPresented := frames } := by
  simp only [clockPixel]
  split
  · simp only [scanPixel]
    split
    · simp only [showPixel]
      split
      · exact ⟨_, rfl⟩
      · exact ⟨_, rfl⟩
    · exact ⟨_, rfl⟩
  · exact ⟨_, rfl⟩

theorem counts_step {edges : List CommittedEdge} (h : m.stats.Counts edges) :
    m.step.1.stats.Counts (edges ++ m.committedEdge?.toList) := by
  have hcore : m.beginStep.clockCore.stats.Counts (edges ++ m.committedEdge?.toList) := by
    have hbegin : m.beginStep.stats.Counts edges :=
      ⟨h.cycles, h.instructionsRetired, h.exceptions, h.interrupts, h.trapReturns, h.memoryWrites,
        h.mmioWrites, h.mmioReads⟩
    rw [stats_clockCore]
    cases m.committedEdge? with
    | none => exact (List.append_nil edges).symm ▸ hbegin
    | some e => exact hbegin.record e
  obtain ⟨frames, hpixel⟩ := m.beginStep.clockCore.settle.stats_clockPixel
  have htrace : m.step.1.stats = m.beginStep.clockCore.settle.clockPixel.1.stats := by
    rw [step_fst, trace]
    split <;> rfl
  rw [htrace, hpixel]
  exact ⟨hcore.cycles, hcore.instructionsRetired, hcore.exceptions, hcore.interrupts,
    hcore.trapReturns, hcore.memoryWrites, hcore.mmioWrites, hcore.mmioReads⟩

/-- The counters of the core after a step: set back under reset, else counted on by the committed
edge unless its instruction sets them. -/
theorem counters_step :
    m.step.1.soc.core.csrs.mcycle = m.soc.core.csrs.mcycle ∧
        m.step.1.soc.core.csrs.minstret = m.soc.core.csrs.minstret ∧ m.committedEdge? = none ∨
      m.step.1.soc.core.csrs.mcycle = 0 ∧ m.step.1.soc.core.csrs.minstret = 0 ∧
        m.beginStep.wires.reset = true ∧ m.committedEdge? = none ∨
      ∃ e, m.committedEdge? = some e ∧
        (e.writesCounter = false →
          m.step.1.soc.core.csrs.mcycle = m.soc.core.csrs.mcycle + 1 ∧
            m.step.1.soc.core.csrs.minstret =
              m.soc.core.csrs.minstret + if e.report.retired then 1 else 0) := by
  have hcore : m.step.1.soc.core = m.clocked.core := by
    rw [m.steps_step.soc]
    split <;> rfl
  rw [hcore, clocked, committedEdge?]
  by_cases hrise : m.coreClock.step.2 = .rising
  · rw [if_pos hrise]
    by_cases hreset : m.beginStep.wires.reset = false
    · rw [dif_pos ⟨hrise, hreset⟩]
      exact .inr (.inr ⟨_, rfl, CommittedEdge.counters_core ⟨m.soc, _, hreset⟩⟩)
    · rw [dif_neg fun h => hreset h.2]
      rw [Bool.not_eq_false] at hreset
      rw [Soc.edge_of_reset hreset]
      exact .inr (.inl ⟨rfl, rfl, hreset, rfl⟩)
  · rw [if_neg hrise, dif_neg fun h => hrise h.1]
    exact .inl ⟨rfl, rfl, rfl⟩

end Machine

/-- A step of the time base, or whatever the host does to the bus and to the interrupt lines between
two steps. -/
inductive Occurrence where
  | step
  | access (bus : Bus → Bus) (lines : InterruptLines → InterruptLines)

/-- A machine, and the edges that its steps have committed. -/
structure Tally where
  machine : Machine
  edges : List CommittedEdge

namespace Tally

def start (m : Machine) : Tally :=
  { machine := m, edges := [] }

def act (t : Tally) : Occurrence → Tally
  | .step =>
    { machine := t.machine.step.1, edges := t.edges ++ t.machine.committedEdge?.toList }
  | .access bus lines =>
    { t with
      machine := t.machine.mapSoc fun soc =>
        { soc with bus := bus soc.bus, lines := lines soc.lines } }

/-- The steps up to `n` past the reset of a configuration on which its core's clock rises. -/
def edgeSteps (c : Config) (n : Nat) : Finset Nat :=
  (Finset.Ioc c.general.resetSteps.toNat n).filter
    (ClockDivider.RisesAt c.general.clockDivider)

theorem card_edgeSteps_succ (c : Config) (n : Nat) :
    (edgeSteps c (n + 1)).card =
      (edgeSteps c n).card +
        if ClockDivider.RisesAt c.general.clockDivider (n + 1) ∧
          c.general.resetSteps.toNat < n + 1 then 1 else 0 := by
  rw [edgeSteps, edgeSteps]
  by_cases hlow : c.general.resetSteps.toNat < n + 1
  · rw [← Finset.insert_Ioc_right_eq_Ioc_add_one (Nat.le_of_lt_succ hlow), Finset.filter_insert]
    split
    · rename_i hrise
      rw [if_pos ⟨hrise, hlow⟩, Finset.card_insert_of_notMem]
      intro hmem
      have hle := (Finset.mem_Ioc.mp (Finset.mem_filter.mp hmem).1).2
      omega
    · rename_i hrise
      rw [if_neg fun h => hrise h.1, Nat.add_zero]
  · rw [if_neg fun h => hlow h.2, Finset.Ioc_eq_empty (by omega), Finset.Ioc_eq_empty (by omega)]
    rfl

/-- What holds between the machine of a configuration and its tally, from the core that it started
with. -/
structure Sound (c : Config) (core : Core) (t : Tally) : Prop where
  settings : t.machine.settings = .ofConfig c
  coreClock : t.machine.coreClock = .after c.general.clockDivider t.machine.stats.steps
  length : t.edges.length = (edgeSteps c t.machine.stats.steps).card
  counts : t.machine.stats.Counts t.edges
  counters : core.csrs.mcycle = 0 → core.csrs.minstret = 0 →
    (∀ e ∈ t.edges, e.writesCounter = false) →
      t.machine.soc.core.csrs.mcycle = .ofNat t.edges.length ∧
        t.machine.soc.core.csrs.minstret = .ofNat (t.edges.countP (·.report.retired))

variable {t : Tally} {c : Config} {core : Core}

theorem sound_start (core : Core) (bus : Bus) (c : Config) (tracer : Option Waveform.Tracer)
    (image : Option Image) : (start (.ofParts core bus c tracer image)).Sound c core := by
  have hnone : (edgeSteps c 0).card = 0 := by
    rw [edgeSteps, Finset.Ioc_eq_empty (Nat.not_lt_zero _)]
    rfl
  exact ⟨rfl, ClockDivider.after_zero.symm, hnone.symm, .zero, fun hcycle hinstret _ =>
    ⟨hcycle, hinstret⟩⟩

namespace Sound

theorem reset_iff (h : t.Sound c core) :
    t.machine.beginStep.wires.reset = true ↔
      t.machine.stats.steps + 1 ≤ c.general.resetSteps.toNat := by
  simp only [Machine.beginStep, h.settings, RunSettings.ofConfig, decide_eq_true_iff]

theorem edges_of_reset (h : t.Sound c core) (hreset : t.machine.beginStep.wires.reset = true) :
    t.edges = [] := by
  have hle := h.reset_iff.mp hreset
  rw [← List.length_eq_zero_iff, h.length, edgeSteps, Finset.Ioc_eq_empty (by omega)]
  rfl

theorem length_committedEdge? (h : t.Sound c core) :
    t.machine.committedEdge?.toList.length =
      if ClockDivider.RisesAt c.general.clockDivider (t.machine.stats.steps + 1) ∧
        c.general.resetSteps.toNat < t.machine.stats.steps + 1 then 1 else 0 := by
  have hrise := ClockDivider.after_step_eq_rising c.general.clockDivider t.machine.stats.steps
  have hreset : t.machine.beginStep.wires.reset = false ↔
      c.general.resetSteps.toNat < t.machine.stats.steps + 1 := by
    rw [← Bool.not_eq_true, h.reset_iff, Nat.not_le]
  rw [← h.coreClock] at hrise
  rw [Machine.committedEdge?]
  simp only [← hrise, ← hreset]
  split <;> rfl

theorem counters_step (h : t.Sound c core) (hcycle : core.csrs.mcycle = 0)
    (hinstret : core.csrs.minstret = 0)
    (hspared : ∀ e ∈ (t.act .step).edges, e.writesCounter = false) :
    (t.act .step).machine.soc.core.csrs.mcycle = .ofNat (t.act .step).edges.length ∧
      (t.act .step).machine.soc.core.csrs.minstret =
        .ofNat ((t.act .step).edges.countP (·.report.retired)) := by
  have hedges : (t.act .step).edges = t.edges ++ t.machine.committedEdge?.toList := rfl
  have hmachine : (t.act .step).machine = t.machine.step.1 := rfl
  obtain ⟨hmcycle, hminstret⟩ := h.counters hcycle hinstret fun e he =>
    hspared e (hedges ▸ List.mem_append_left _ he)
  rw [hedges, hmachine]
  rcases t.machine.counters_step with ⟨hc, hi, hnone⟩ | ⟨hc, hi, hreset, hnone⟩ | ⟨e, hsome, hcount⟩
  · rw [hnone, hc, hi, hmcycle, hminstret, Option.toList_none, List.append_nil]
    exact ⟨rfl, rfl⟩
  · rw [hnone, hc, hi, h.edges_of_reset hreset]
    exact ⟨rfl, rfl⟩
  · have hspare : e.writesCounter = false := by
      apply hspared
      rw [hedges, hsome]
      exact List.mem_append_right _ (List.mem_singleton_self e)
    obtain ⟨hc, hi⟩ := hcount hspare
    rw [hsome, hc, hi, hmcycle, hminstret, Option.toList_some, List.length_append,
      List.countP_append, List.length_singleton, List.countP_singleton, UInt64.ofNat_add,
      UInt64.ofNat_add]
    refine ⟨rfl, ?_⟩
    cases e.report.retired <;> rfl

theorem step (h : t.Sound c core) : (t.act .step).Sound c core := by
  have hs := t.machine.steps_step
  have hsteps : (t.act .step).machine.stats.steps = t.machine.stats.steps + 1 := hs.steps
  constructor
  · exact hs.settings.trans h.settings
  · rw [hsteps, ← ClockDivider.after_step, ← h.coreClock]
    exact hs.coreClock
  · rw [hsteps, card_edgeSteps_succ, ← h.length, ← h.length_committedEdge?]
    exact List.length_append
  · exact t.machine.counts_step h.counts
  · exact h.counters_step

theorem act (h : t.Sound c core) (x : Occurrence) : (t.act x).Sound c core := by
  cases x with
  | step => exact h.step
  | access bus lines => exact ⟨h.settings, h.coreClock, h.length, h.counts, h.counters⟩

theorem foldl (h : t.Sound c core) (history : List Occurrence) :
    (history.foldl Tally.act t).Sound c core := by
  induction history generalizing t with
  | nil => exact h
  | cons x history ih => exact ih (h.act x)

end Sound

/-- After whatever has happened since power-on, the statistics agree with the clock, with each other
and with the core. There is a cycle for each rise of the core's clock past the reset; a cycle
retires an instruction or takes a trap; each retired store is counted on its route; and the counters
of the core hold the same numbers, if no committed instruction has set them. -/
theorem statistics_agree (core : Core) (bus : Bus) (c : Config) (tracer : Option Waveform.Tracer)
    (image : Option Image) (history : List Occurrence) :
    let t := history.foldl act (start (.ofParts core bus c tracer image))
    let s := t.machine.stats
    s.cycles = (edgeSteps c s.steps).card ∧
      s.cycles = s.instructionsRetired + s.exceptions + s.interrupts ∧
      s.trapReturns ≤ s.instructionsRetired ∧
      s.memoryWrites = t.edges.countP (·.storesToMemory) ∧
      s.mmioWrites = t.edges.countP (·.storesToDevice) ∧
      s.memoryWrites + s.mmioWrites = t.edges.countP (·.storeRoute?.isSome) ∧
      (core.csrs.mcycle = 0 → core.csrs.minstret = 0 →
        (∀ e ∈ t.edges, e.writesCounter = false) →
          t.machine.soc.core.csrs.mcycle = .ofNat s.cycles ∧
            t.machine.soc.core.csrs.minstret = .ofNat s.instructionsRetired) := by
  intro t s
  have h : t.Sound c core := (sound_start core bus c tracer image).foldl history
  have hcounts : s.Counts t.edges := h.counts
  refine ⟨?_, ?_, ?_, hcounts.memoryWrites, hcounts.mmioWrites, ?_, ?_⟩
  · rw [hcounts.cycles, h.length]
  · rw [hcounts.cycles, hcounts.instructionsRetired, hcounts.exceptions, hcounts.interrupts]
    exact CommittedEdge.length_eq_kinds t.edges
  · rw [hcounts.trapReturns, hcounts.instructionsRetired]
    exact CommittedEdge.countP_isReturn_le t.edges
  · rw [hcounts.memoryWrites, hcounts.mmioWrites]
    exact CommittedEdge.countP_stores t.edges
  · rw [hcounts.cycles, hcounts.instructionsRetired]
    exact h.counters

/-- Loads through a pointer to the serial port: one of no access size, then, with the timer enabled,
a whole word. -/
def polling : Memory :=
  ⟨#[0x400000B7, 0x0000B183, 0x08000113, 0x30411073, 0x30046073, 0x0000A183]⟩

/-- The timer asks to be served from the start; the sixth edge falls on step 22. -/
def polled : Tally :=
  (.access id (·.force InterruptSource.timer.flag) :: List.replicate 22 .step).foldl act
    (start (.ofParts (.powerOn 0) (Machine.standardBus Session.unheld polling) Session.unheld none
      none))

/-- Of six cycles, five have retired an instruction; the timer takes the sixth. -/
theorem statistics_agree_polled :
    (∀ e ∈ polled.edges, e.writesCounter = false) ∧
      polled.machine.stats.cycles = 6 ∧ polled.machine.stats.interrupts = 1 ∧
      polled.machine.soc.core.csrs.mcycle = 6 ∧ polled.machine.soc.core.csrs.minstret = 5 := by
  have hspared : ∀ e ∈ polled.edges, e.writesCounter = false := by decide +kernel
  have hcycles : polled.machine.stats.cycles = 6 := by decide +kernel
  have hretired : polled.machine.stats.instructionsRetired = 5 := by decide +kernel
  have hinterrupts : polled.machine.stats.interrupts = 1 := by decide +kernel
  obtain ⟨-, -, -, -, -, -, hcore⟩ := statistics_agree (.powerOn 0)
    (Machine.standardBus Session.unheld polling) Session.unheld none none
    (.access id (·.force InterruptSource.timer.flag) :: List.replicate 22 .step)
  rw [← polled] at hcore
  obtain ⟨hmcycle, hminstret⟩ := hcore rfl rfl hspared
  rw [hcycles] at hmcycle
  rw [hretired] at hminstret
  exact ⟨hspared, hcycles, hinterrupts, hmcycle, hminstret⟩

/-- The reads that are counted are the retired loads from devices and, besides, the stray ones: a
load that a handler preempts, or one that no access size belongs to. -/
theorem mmioReads_eq (core : Core) (bus : Bus) (c : Config) (tracer : Option Waveform.Tracer)
    (image : Option Image) (history : List Occurrence) :
    let t := history.foldl act (start (.ofParts core bus c tracer image))
    let s := t.machine.stats
    s.mmioReads = t.edges.countP (·.loadsDevice) + t.edges.countP (·.straysToDevice) ∧
      (s.mmioReads = t.edges.countP (·.loadsDevice) ↔
        ∀ e ∈ t.edges, e.straysToDevice = false) := by
  intro t s
  have h : t.Sound c core := (sound_start core bus c tracer image).foldl history
  have hreads : s.mmioReads =
      t.edges.countP (·.loadsDevice) + t.edges.countP (·.straysToDevice) :=
    h.counts.mmioReads.trans (CommittedEdge.countP_loads t.edges)
  refine ⟨hreads, ?_⟩
  rw [hreads, Nat.add_eq_left, List.countP_eq_zero]
  simp only [Bool.not_eq_true]

/-- Two reads are counted before any load from a device has retired: the one of no access size, and
the one that the timer preempts. -/
theorem mmioReads_polled :
    polled.machine.stats.mmioReads = 2 ∧ polled.edges.countP (·.loadsDevice) = 0 := by
  decide +kernel

end Tally

end RiscvSoc
