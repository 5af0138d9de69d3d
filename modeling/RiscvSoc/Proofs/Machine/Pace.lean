import RiscvSoc.Machine
import RiscvSoc.Proofs.Clock.Edges
import RiscvSoc.Proofs.Soc.Cycle

/-! The time base of the machine. What one step does to the core's side of it, and the invariant of
every step: the clocks stand where their dividers put them, and the wires are settled. -/

namespace RiscvSoc.Machine

/-- The machine after `n` steps, whether or not one of them would stop a run. -/
def after (m : Machine) : Nat → Machine
  | 0 => m
  | n + 1 => (m.after n).step.1

variable (m : Machine)

theorem after_succ (n : Nat) : m.after (n + 1) = (m.after n).step.1 := rfl

/-- The core's side after the clock, before anything is scanned out. -/
def clocked (m : Machine) : Soc :=
  if m.coreClock.step.2 = .rising then (m.soc.edge m.beginStep.wires).1 else m.soc

/-- What a stage of the step leaves alone on the core's side. -/
private structure Keeps (m m' : Machine) : Prop where
  settings : m'.settings = m.settings
  steps : m'.stats.steps = m.stats.steps
  wires : m'.wires = m.wires
  coreClock : m'.coreClock = m.coreClock

private theorem trace_keeps : Keeps m m.trace := by
  unfold trace
  split <;> exact ⟨rfl, rfl, rfl, rfl⟩

private theorem trace_soc : m.trace.soc = m.soc ∧ m.trace.pixelClock = m.pixelClock := by
  unfold trace
  split <;> exact ⟨rfl, rfl⟩

private theorem showPixel_keeps (p : Pixel) :
    Keeps m (m.showPixel p).1 ∧ (m.showPixel p).1.soc = m.soc ∧
      (m.showPixel p).1.pixelClock = m.pixelClock := by
  have hsteps : (m.showPixel p).1.stats.steps = m.stats.steps := by
    simp only [showPixel]
    split <;> rfl
  exact ⟨⟨rfl, hsteps, rfl, rfl⟩, rfl, rfl⟩

private theorem scanPixel_keeps :
    Keeps m m.scanPixel.1 ∧ m.scanPixel.1.soc = m.soc.scanned ∧
      m.scanPixel.1.pixelClock = m.pixelClock := by
  unfold scanPixel
  cases h : m.soc.bus.pixel? with
  | some p =>
    obtain ⟨hk, hs, hp⟩ := showPixel_keeps { m with soc := m.soc.scanned } p
    exact ⟨⟨hk.settings, hk.steps, hk.wires, hk.coreClock⟩, hs, hp⟩
  | none =>
    refine ⟨⟨rfl, rfl, rfl, rfl⟩, ?_, rfl⟩
    simp only [Soc.scanned, m.soc.bus.scan_of_pixel?_eq_none h]

private theorem clockPixel_keeps :
    Keeps m m.clockPixel.1 ∧
      m.clockPixel.1.soc = (if m.pixelClock.step.2 = .rising then m.soc.scanned else m.soc) ∧
      m.clockPixel.1.pixelClock = m.pixelClock.step.1 := by
  simp only [clockPixel]
  split
  · obtain ⟨hk, hs, hp⟩ := scanPixel_keeps { m with pixelClock := m.pixelClock.step.1 }
    exact ⟨⟨hk.settings, hk.steps, hk.wires, hk.coreClock⟩, hs, hp⟩
  · exact ⟨⟨rfl, rfl, rfl, rfl⟩, rfl, rfl⟩

@[simp] theorem steps_recordTraffic (s : Stats) (t : Traffic) :
    (s.recordTraffic t).steps = s.steps := by
  cases t <;> rfl

@[simp] theorem steps_recordEdge (s : Stats) (r : EdgeReport) :
    (s.recordEdge r).steps = s.steps := by
  obtain ⟨retired, transition⟩ := r
  cases transition <;> rfl

private theorem risingEdge_steps : m.risingEdge.stats.steps = m.stats.steps := by
  simp only [risingEdge]
  split <;> simp

private theorem clockCore_steps : m.clockCore.stats.steps = m.stats.steps := by
  simp only [clockCore]
  split
  · exact risingEdge_steps _
  · rfl

theorem clockCore_soc : m.beginStep.clockCore.soc = m.clocked := by
  have hc : m.beginStep.coreClock = m.coreClock := rfl
  simp only [clockCore, clocked, hc]
  split <;> rfl

theorem clockCore_rest :
    m.clockCore.settings = m.settings ∧ m.clockCore.wires = m.wires ∧
      m.clockCore.coreClock = m.coreClock.step.1 ∧ m.clockCore.pixelClock = m.pixelClock := by
  simp only [clockCore]
  split <;> exact ⟨rfl, rfl, rfl, rfl⟩

/-- What one step does to the core's side: the clocks advance, the core's clock may bring an edge,
the wires settle on what it leaves, and the pixel clock may scan. -/
structure Steps (m m' : Machine) : Prop where
  settings : m'.settings = m.settings
  steps : m'.stats.steps = m.stats.steps + 1
  coreClock : m'.coreClock = m.coreClock.step.1
  pixelClock : m'.pixelClock = m.pixelClock.step.1
  wires : m'.wires = m.clocked.settle m.beginStep.wires
  soc : m'.soc = if m.pixelClock.step.2 = .rising then m.clocked.scanned else m.clocked

theorem step_fst : m.step.1 = m.beginStep.clockCore.settle.clockPixel.1.trace := by
  simp only [step]

theorem steps_step : Steps m m.step.1 := by
  let m₁ := m.beginStep.clockCore
  let m₂ := m₁.settle
  have h₁ := clockCore_rest m.beginStep
  obtain ⟨k₃, s₃, p₃⟩ := clockPixel_keeps m₂
  have k₄ := trace_keeps m₂.clockPixel.1
  obtain ⟨s₄, p₄⟩ := trace_soc m₂.clockPixel.1
  have hsoc : m₂.soc = m.clocked := clockCore_soc m
  have hclock : m₂.pixelClock = m.pixelClock := h₁.2.2.2
  rw [step_fst]
  constructor
  · exact (k₄.settings.trans k₃.settings).trans h₁.1
  · exact (k₄.steps.trans k₃.steps).trans (clockCore_steps m.beginStep)
  · exact (k₄.coreClock.trans k₃.coreClock).trans h₁.2.2.1
  · rw [p₄, p₃, hclock]
  · have hw : m₂.wires = m₁.soc.settle m₁.wires := rfl
    rw [k₄.wires, k₃.wires, hw, clockCore_soc, h₁.2.1]
  · rw [s₄, s₃, hclock, hsoc]

/-- Every step ends with settled wires: nothing after the settling but a scan touches the core's
side. -/
theorem settled_step : m.step.1.soc.Settled m.step.1.wires := by
  have hset := m.clocked.settled_settle m.beginStep.wires
  have hs := m.steps_step
  rw [hs.wires, hs.soc]
  split
  · exact hset.scan
  · exact hset

/-- The machine of a configuration after `n` steps: its clocks, its reset wire and its settled
wires. -/
structure Paced (c : Config) (n : Nat) (m : Machine) : Prop where
  settings : m.settings = .ofConfig c
  steps : m.stats.steps = n
  coreClock : m.coreClock = .after c.general.clockDivider n
  pixelClock : m.pixelClock = .after c.devices.vga.pixelClockDivider n
  reset : 0 < n → m.wires.reset = decide (n ≤ c.general.resetSteps.toNat)
  settled : 0 < n → m.soc.Settled m.wires

variable {m} {c : Config} {n : Nat}

theorem Paced.beginStep_reset (h : Paced c n m) :
    m.beginStep.wires.reset = decide (n + 1 ≤ c.general.resetSteps.toNat) := by
  simp only [beginStep, h.steps, h.settings, RunSettings.ofConfig]

/-- Once reset has been low for a step, a step begins with the wires as they settled. -/
theorem Paced.beginStep_wires (h : Paced c n m) (hlow : c.general.resetSteps.toNat < n) :
    m.beginStep.wires = m.wires ∧ m.wires.reset = false := by
  have hpos : 0 < n := by omega
  have hw : m.wires.reset = false := by
    rw [h.reset hpos]
    exact decide_eq_false (by omega)
  have hb : m.beginStep.wires.reset = false := by
    rw [h.beginStep_reset]
    exact decide_eq_false (by omega)
  refine ⟨?_, hw⟩
  calc m.beginStep.wires = { m.wires with reset := m.beginStep.wires.reset } := rfl
    _ = m.wires := by rw [hb, ← hw]

theorem Paced.step (h : Paced c n m) : Paced c (n + 1) m.step.1 := by
  have hs := m.steps_step
  constructor
  · rw [hs.settings, h.settings]
  · rw [hs.steps, h.steps]
  · rw [hs.coreClock, h.coreClock, ClockDivider.after_step]
  · rw [hs.pixelClock, h.pixelClock, ClockDivider.after_step]
  · intro _
    rw [hs.wires]
    exact h.beginStep_reset
  · exact fun _ => m.settled_step

theorem paced_after (core : Core) (bus : Bus) (c : Config) (tracer : Option Waveform.Tracer)
    (image : Option Image) (n : Nat) : Paced c n ((ofParts core bus c tracer image).after n) := by
  induction n with
  | zero =>
    exact ⟨rfl, rfl, (ClockDivider.after_zero).symm, (ClockDivider.after_zero).symm,
      fun h => absurd h (Nat.lt_irrefl 0), fun h => absurd h (Nat.lt_irrefl 0)⟩
  | succ n ih => exact ih.step

end RiscvSoc.Machine
