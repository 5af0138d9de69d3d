import RiscvSoc.Proofs.Bus.Peripherals
import RiscvSoc.Proofs.Soc.CoreSide

namespace RiscvSoc

def Config.withPixelDomain (c : Config) (pixelClockDivider : UInt32) (timing : VgaTiming)
    (synchronizerStages : UInt64) (quitAfterFrames : Option UInt64) : Config :=
  { c with
    devices := { c.devices with
      vga := { c.devices.vga with
        pixelClockDivider, timing, synchronizerStages, quitAfterFrames } } }

theorem Soc.owners_edge (s : Soc) (w : Wires) : (s.edge w).1.bus.owners = s.bus.owners := by
  have hstore : ∀ i o route, (store s.bus i o route).owners = s.bus.owners := by
    intro i o route
    rw [store]
    split
    · exact Bus.owners_writeTo _ _ _
    · rfl
  exact hstore (s.inputs w) (s.core.outputs (s.inputs w))
    (s.bus.route (s.core.outputs (s.inputs w)).effectiveAddress)

namespace Machine

variable {m m₁ m₂ : Machine} {c c₁ c₂ : Config} {n : Nat}

/-- The coming step brings an edge that retires a load of the status register. -/
def LoadsStatus (m : Machine) : Prop :=
  m.coreClock.step.2 = .rising ∧ m.soc.loadsStatus m.beginStep.wires = true

instance (m : Machine) : Decidable m.LoadsStatus :=
  inferInstanceAs (Decidable (_ ∧ _))

theorem still_step (m : Machine) : m.step.1.soc.still = m.clocked.still := by
  rw [m.steps_step.soc]
  split
  · exact m.clocked.still_scanned
  · rfl

/-- Two machines with clocks in step and the same core's side. -/
structure SameCoreSide (c₁ c₂ : Config) (n : Nat) (m₁ m₂ : Machine) : Prop where
  paced₁ : Paced c₁ n m₁
  paced₂ : Paced c₂ n m₂
  soc : m₁.soc.still = m₂.soc.still
  low : n = 0 → m₁.wires = m₂.wires

namespace SameCoreSide

variable (h : SameCoreSide c₁ c₂ n m₁ m₂) (hgeneral : c₁.general = c₂.general)

include h hgeneral

theorem reset : m₁.beginStep.wires.reset = m₂.beginStep.wires.reset := by
  rw [h.paced₁.beginStep_reset, h.paced₂.beginStep_reset, hgeneral]

theorem wires_eq (hmemory : m₁.soc.bus.readsStatus ⟨0⟩ = false)
    (hload : m₁.soc.loadsStatus m₁.beginStep.wires = false) :
    m₁.beginStep.wires.instruction = m₂.beginStep.wires.instruction ∧
      (m₁.soc.commitsLoad m₁.beginStep.wires = true →
        m₁.beginStep.wires.readData = m₂.beginStep.wires.readData) := by
  rcases Nat.eq_zero_or_pos n with hn | hn
  · have hinstruction : m₁.wires.instruction = m₂.wires.instruction := by rw [h.low hn]
    have hdata : m₁.wires.readData = m₂.wires.readData := by rw [h.low hn]
    exact ⟨hinstruction, fun _ => hdata⟩
  · have hreset : m₁.wires.reset = m₂.wires.reset := by
      rw [h.paced₁.reset hn, h.paced₂.reset hn, hgeneral]
    obtain ⟨hinstruction, hdata⟩ :=
      (h.paced₁.settled hn).wires_eq (h.paced₂.settled hn) h.soc hreset
    refine ⟨hinstruction, fun hcommits => hdata ?_⟩
    cases hr : m₁.wires.reset with
    | true => rw [Core.effectiveAddress_of_reset _ hr, hmemory]
    | false =>
      -- The wires are still the ones that the edge samples, so their address is the load's own.
      have hlow : c₁.general.resetSteps.toNat < n := by
        rw [h.paced₁.reset hn] at hr
        exact Nat.lt_of_not_le (of_decide_eq_false hr)
      rw [(h.paced₁.beginStep_wires hlow).1] at hload hcommits
      rwa [Soc.loadsStatus, hcommits, Bool.true_and] at hload

/-- A step keeps the machines together, unless it loads the status register. -/
theorem step (hmemory : m₁.soc.bus.readsStatus ⟨0⟩ = false) (hload : ¬ m₁.LoadsStatus) :
    SameCoreSide c₁ c₂ (n + 1) m₁.step.1 m₂.step.1 := by
  refine ⟨h.paced₁.step, h.paced₂.step, ?_, fun hn => absurd hn (Nat.succ_ne_zero n)⟩
  have hclock : m₁.coreClock = m₂.coreClock := by
    rw [h.paced₁.coreClock, h.paced₂.coreClock, hgeneral]
  rw [still_step, still_step, clocked, clocked, ← hclock]
  split
  · rename_i hrising
    have hquiet : m₁.soc.loadsStatus m₁.beginStep.wires = false := by
      rw [← Bool.not_eq_true]
      exact fun hloads => hload ⟨hrising, hloads⟩
    obtain ⟨hinstruction, hdata⟩ := h.wires_eq hgeneral hmemory hquiet
    exact Soc.still_edge_eq h.soc (h.reset hgeneral) hinstruction hdata
  · exact h.soc

end SameCoreSide

theorem owners_step (m : Machine) : m.step.1.soc.bus.owners = m.soc.bus.owners := by
  rw [← Soc.owners_still, m.still_step, Soc.owners_still, clocked]
  split
  · exact m.soc.owners_edge m.beginStep.wires
  · rfl

theorem owners_after (m : Machine) (n : Nat) : (m.after n).soc.bus.owners = m.soc.bus.owners := by
  induction n with
  | zero => rfl
  | succ n ih => rw [after, owners_step, ih]

theorem registered_standardBus (c : Config) (memory : Memory) :
    (standardBus c memory).Registered := by
  have h := Bus.registered_foldl (Bus.registered_ofMemory memory)
    ((standardDevices c).map .attach)
  rwa [List.foldl_map] at h

def HasVga (m : Machine) : Prop :=
  ∃ p : Peripherals, p.vga.isSome = true ∧ m.soc.bus.devices = p.devices

theorem HasVga.step (h : m.HasVga) : m.step.1.HasVga := by
  obtain ⟨p, hsome, hp⟩ := h
  have hclocked : ∃ q : Peripherals, q.vga.isSome = true ∧ m.clocked.bus.devices = q.devices := by
    rcases devices_clocked hp with hkept | ⟨q, hw, hq⟩
    · exact ⟨p, hsome, hkept⟩
    · exact ⟨q.tick, by rw [q.isSome_vga_tick, hw.isSome_vga, hsome], hq⟩
  obtain ⟨q, hvga, hq⟩ := hclocked
  rw [HasVga, m.steps_step.soc]
  split
  · exact ⟨q.scan, by rw [q.isSome_vga_scan, hvga], Bus.devices_scan hq⟩
  · exact ⟨q, hvga, hq⟩

theorem hasVga_after (core : Core) (memory : Memory) (tracer : Option Waveform.Tracer)
    (image : Option Image) (henabled : c.devices.vga.enabled = true) (n : Nat) :
    ((ofParts core (standardBus c memory) c tracer image).after n).HasVga := by
  induction n with
  | zero =>
    refine ⟨.initial c, ?_, devices_standardBus c memory⟩
    rw [Peripherals.initial, henabled]
    rfl
  | succ n ih => exact ih.step

theorem HasVga.vga?_isSome (h : m.HasVga) : m.soc.bus.vga?.isSome = true := by
  obtain ⟨p, hsome, hp⟩ := h
  rw [Bus.vga?_of_devices hp, hsome]

variable (core : Core) (memory : Memory) (tracer : Option Waveform.Tracer) (image : Option Image)
  (pixelClockDivider : UInt32) (timing : VgaTiming) (synchronizerStages : UInt64)
  (quitAfterFrames : Option UInt64)

/-- At power-on, the pixel domain is all that the two configurations make different. -/
theorem still_standardBus (c : Config) :
    (standardBus (c.withPixelDomain pixelClockDivider timing synchronizerStages quitAfterFrames)
      memory).still = (standardBus c memory).still := by
  have hdevices : (standardDevices (c.withPixelDomain pixelClockDivider timing synchronizerStages
      quitAfterFrames)).map Device.still = (standardDevices c).map Device.still := by
    have henabled : (c.withPixelDomain pixelClockDivider timing synchronizerStages
      quitAfterFrames).devices.vga.enabled = c.devices.vga.enabled := rfl
    rw [standardDevices, standardDevices, henabled]
    cases c.devices.vga.enabled <;> rfl
  rw [standardBus, standardBus, Bus.still_foldl_attach, Bus.still_foldl_attach, hdevices]

theorem sameCoreSide_after (c : Config) (n : Nat)
    (hstatus : ∀ k < n,
      ¬ ((ofParts core (standardBus c memory) c tracer image).after k).LoadsStatus) :
    let c' := c.withPixelDomain pixelClockDivider timing synchronizerStages quitAfterFrames
    SameCoreSide c c' n ((ofParts core (standardBus c memory) c tracer image).after n)
      ((ofParts core (standardBus c' memory) c' tracer image).after n) := by
  intro c'
  induction n with
  | zero =>
    refine ⟨paced_after _ _ _ _ _ 0, paced_after _ _ _ _ _ 0, ?_, fun _ => rfl⟩
    show Soc.still { core, bus := standardBus c memory, lines := .idle } =
      Soc.still { core, bus := standardBus c' memory, lines := .idle }
    rw [Soc.still, Soc.still, still_standardBus]
  | succ n ih =>
    have hmemory := Bus.readsStatus_zero (b := ((ofParts core (standardBus c memory) c tracer
      image).after n).soc.bus) (by
        rw [owners_after]
        exact (registered_standardBus c memory).memory_free)
    exact (ih fun k hk => hstatus k (Nat.lt_succ_of_lt hk)).step rfl hmemory
      (hstatus n (Nat.lt_succ_self n))

/-- Two runs whose configurations differ in the pixel domain alone have the same core, memory,
interrupt lines, timer, serial port and picture after every step, as long as the first one has not
retired a load of the status register. -/
theorem pixel_domain_isolated (c : Config) (henabled : c.devices.vga.enabled = true) (n : Nat)
    (hstatus : ∀ k < n,
      ¬ ((ofParts core (standardBus c memory) c tracer image).after k).LoadsStatus) :
    let c' := c.withPixelDomain pixelClockDivider timing synchronizerStages quitAfterFrames
    let s := ((ofParts core (standardBus c memory) c tracer image).after n).soc
    let s' := ((ofParts core (standardBus c' memory) c' tracer image).after n).soc
    s.core = s'.core ∧ s.bus.memory = s'.bus.memory ∧ s.lines = s'.lines ∧
      s.bus.timer? = s'.bus.timer? ∧ s.bus.uart? = s'.bus.uart? ∧
      ∃ g g', s.bus.vga? = some g ∧ s'.bus.vga? = some g' ∧ g.control = g'.control ∧
        g.upload = g'.upload ∧ g.picture = g'.picture ∧ g.palette = g'.palette := by
  intro c' s s'
  have hsame := sameCoreSide_after core memory tracer image pixelClockDivider timing
    synchronizerStages quitAfterFrames c n hstatus
  obtain ⟨hcore, hbus, hlines⟩ := Soc.mk.inj hsame.soc
  have hstill : s.bus.still = s'.bus.still := hbus
  obtain ⟨g, hg⟩ := Option.isSome_iff_exists.mp
    (hasVga_after core memory tracer image henabled n).vga?_isSome
  obtain ⟨g', hg'⟩ := Option.isSome_iff_exists.mp
    (hasVga_after (c := c') core memory tracer image henabled n).vga?_isSome
  have hvga : g.still = g'.still := by
    have h := congrArg Bus.vga? hstill
    rw [Bus.vga?_still, Bus.vga?_still, hg, hg'] at h
    exact Option.some.inj h
  have hmemory := congrArg Bus.memory hstill
  refine ⟨hcore, hmemory, hlines, ?_, ?_, g, g', hg, hg', Vga.still_eq_iff.mp hvga⟩
  · rw [← Bus.timer?_still, hstill, Bus.timer?_still]
  · rw [← Bus.uart?_still, hstill, Bus.uart?_still]

/-- Turns the display on, and reads the control register back. -/
def switching : Memory :=
  ⟨#[0x200000B7, 0x00100113, 0x0020A223, 0x0040A183, 0]⟩

def onePixel : Config :=
  { Config.standard with
    devices := { DeviceConfig.standard with
      vga := { VgaConfig.standard with
        enabled := true
        timing :=
          { hActive := 1, hFrontPorch := 0, hSync := 0, hBackPorch := 0
            vActive := 1, vFrontPorch := 0, vSync := 1, vBackPorch := 0 } } } }

/-- With another pixel clock, the standard timing, four stages and a display that gives up after one
frame, the load finds what was stored too. -/
theorem pixel_domain_switching :
    onePixel.devices.vga.enabled = true ∧
      (∀ k < 18, ¬ ((ofParts (.powerOn 0) (standardBus onePixel switching) onePixel none none).after
        k).LoadsStatus) ∧
      let c' := onePixel.withPixelDomain 0 .standard 4 (some 1)
      ((ofParts (.powerOn 0) (standardBus c' switching) c' none none).after 18).soc.core.reg 3 =
        1 := by
  have hquiet : ∀ k < 18, ¬ ((ofParts (.powerOn 0) (standardBus onePixel switching) onePixel none
      none).after k).LoadsStatus := by decide +kernel
  have hload : ((ofParts (.powerOn 0) (standardBus onePixel switching) onePixel none none).after
      18).soc.core.reg 3 = 1 := by decide +kernel
  obtain ⟨hcore, -⟩ := pixel_domain_isolated (.powerOn 0) switching none none 0 .standard 4 (some 1)
    onePixel rfl 18 hquiet
  rw [hcore] at hload
  exact ⟨rfl, hquiet, hload⟩

end Machine

end RiscvSoc
