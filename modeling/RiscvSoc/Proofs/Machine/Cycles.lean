import RiscvSoc.Machine.Build
import RiscvSoc.Proofs.Machine.Pace

namespace RiscvSoc

namespace Soc

/-- What step `n` of the time base does: an edge of the core's clock is a cycle, under reset for the
first steps; then an edge of the pixel clock scans one pixel. All other steps do nothing. -/
def onStep (c : Config) (n : Nat) (s : Soc) : Soc :=
  let s :=
    if ClockDivider.RisesAt c.general.clockDivider n then
      if n ≤ c.general.resetSteps.toNat then s.resetCycle else s.cycle
    else s
  if ClockDivider.RisesAt c.devices.vga.pixelClockDivider n then s.scanned else s

def afterSteps (c : Config) (s : Soc) : Nat → Soc
  | 0 => s
  | n + 1 => (s.afterSteps c n).onStep c (n + 1)

end Soc

namespace Machine

variable {m : Machine} {c : Config} {n : Nat}

private theorem Paced.clocked_eq (h : Paced c n m)
    (hrel : n = c.general.resetSteps.toNat →
      ¬ ClockDivider.RisesAt c.general.clockDivider (n + 1)) :
    m.clocked =
      if ClockDivider.RisesAt c.general.clockDivider (n + 1) then
        if n + 1 ≤ c.general.resetSteps.toNat then m.soc.resetCycle else m.soc.cycle
      else m.soc := by
  have hreset := h.beginStep_reset
  simp only [clocked, h.coreClock, ClockDivider.after_step_eq_rising]
  split
  · rename_i hrise
    split
    · rename_i hle
      exact Soc.edge_of_reset (by rw [hreset]; exact decide_eq_true hle)
    · rename_i hgt
      -- Reset was low on the step before, so the wires are settled for this edge.
      have hlow : c.general.resetSteps.toNat < n := by
        have hne : n ≠ c.general.resetSteps.toNat := fun he => hrel he hrise
        omega
      obtain ⟨hw, hr⟩ := h.beginStep_wires hlow
      rw [hw]
      exact Soc.edge_of_settled (h.settled (by omega)) hr
  · rfl

private theorem Paced.soc_step (h : Paced c n m)
    (hrel : n = c.general.resetSteps.toNat →
      ¬ ClockDivider.RisesAt c.general.clockDivider (n + 1)) :
    m.step.1.soc = m.soc.onStep c (n + 1) := by
  simp only [m.steps_step.soc, h.pixelClock, ClockDivider.after_step_eq_rising, h.clocked_eq hrel,
    Soc.onStep]

/-- After any number of steps, the core, the bus and the lines of the clocked machine are what whole
architectural cycles make of them on the edges of its clocks. -/
theorem soc_after_eq_afterSteps (core : Core) (bus : Bus) (c : Config)
    (tracer : Option Waveform.Tracer) (image : Option Image) (n : Nat)
    (hrel : ¬ ClockDivider.RisesAt c.general.clockDivider
      (c.general.resetSteps.toNat + 1)) :
    ((ofParts core bus c tracer image).after n).soc =
      Soc.afterSteps c { core, bus, lines := .idle } n := by
  induction n with
  | zero => rfl
  | succ n ih =>
    have hp := paced_after core bus c tracer image n
    rw [after, hp.soc_step (fun he => by rw [he]; exact hrel), ih]
    rfl

/-- Three instructions at address zero: a load from address 12, its double, and the store of it. -/
def doubling : Memory :=
  ⟨#[0x00C02083, 0x001080B3, 0x00102823, 21, 0]⟩

/-- With the standard clocks, the three instructions have run by step 14. -/
theorem soc_after_doubling :
    (¬ ClockDivider.RisesAt Config.standard.general.clockDivider
        (Config.standard.general.resetSteps.toNat + 1)) ∧
      ((ofParts (.powerOn 0) (standardBus .standard doubling) .standard none none).after
        14).soc.bus.memory.read 16 = 42 := by
  have hrel : ¬ ClockDivider.RisesAt Config.standard.general.clockDivider
      (Config.standard.general.resetSteps.toNat + 1) := by decide
  refine ⟨hrel, ?_⟩
  rw [soc_after_eq_afterSteps _ _ _ _ _ 14 hrel]
  decide +kernel

end Machine

end RiscvSoc
