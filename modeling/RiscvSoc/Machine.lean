import RiscvSoc.Clock.Divider
import RiscvSoc.Config
import RiscvSoc.Display
import RiscvSoc.Image
import RiscvSoc.Soc
import RiscvSoc.Waveform.Tracer

/-! The whole machine and one step of its time base. A step may bring a rising edge of the core's
clock; then the wires settle, the pixel clock may scan out a pixel, the trace takes a sample, and
the conditions for stopping are checked. -/

namespace RiscvSoc

inductive StopReason where
  | halted
  | timedOut
  | quitRequested
  deriving DecidableEq

structure Outcome where
  reason : StopReason
  steps : Nat
  deriving DecidableEq

namespace Outcome

def text (o : Outcome) : String :=
  let reason := match o.reason with
    | .halted => "halted"
    | .timedOut => "timed out"
    | .quitRequested => "quit requested"
  reason ++ " after " ++ toString o.steps ++ " steps"

end Outcome

structure RunSettings where
  cycleBudget : Nat
  resetSteps : Nat
  haltAddress : UInt32
  haltValue : UInt32
  deriving DecidableEq

def RunSettings.ofConfig (c : Config) : RunSettings :=
  { cycleBudget := c.general.cycleBudget.toNat
    resetSteps := c.general.resetSteps.toNat
    haltAddress := c.general.haltAddress
    haltValue := c.general.haltValue }

/-- `previousVsync` is the vertical sync of the last scanned pixel. -/
structure Machine where
  settings : RunSettings
  soc : Soc
  wires : Wires
  coreClock : ClockDivider
  pixelClock : ClockDivider
  display : Option Display
  previousVsync : Bool
  tracer : Option Waveform.Tracer
  image : Option Image
  stats : Stats

def portSignals : List Waveform.Signal :=
  [⟨"clock", 1⟩, ⟨"reset", 1⟩, ⟨"instruction_address", 32⟩, ⟨"instruction", 32⟩,
    ⟨"device_select", 3⟩, ⟨"memory_address", 32⟩, ⟨"write_data", 32⟩, ⟨"write_enable", 1⟩,
    ⟨"write_strobe", 4⟩, ⟨"read_data", 32⟩, ⟨"interrupt_flag", 32⟩]

namespace Machine

/-- A machine around a core and a bus, at rest before its first step. -/
def ofParts (core : Core) (bus : Bus) (c : Config) (tracer : Option Waveform.Tracer)
    (image : Option Image) : Machine :=
  let vga := c.devices.vga
  { settings := .ofConfig c
    soc := { core, bus, lines := .idle }
    wires := .low
    coreClock := .start c.general.clockDivider
    pixelClock := .start vga.pixelClockDivider
    display :=
      if vga.enabled then
        some (.blank vga.timing.hActive.toNat vga.timing.vActive.toNat
          (vga.quitAfterFrames.map (·.toNat)))
      else none
    previousVsync := true
    tracer
    image
    stats := .zero }

/-- Starts a step: time advances, and reset is held for the first steps. -/
def beginStep (m : Machine) : Machine :=
  let steps := m.stats.steps + 1
  { m with
    stats := { m.stats with steps }
    wires := { m.wires with reset := steps ≤ m.settings.resetSteps } }

/-- A rising edge of the core's clock; edges under reset are not counted. -/
def risingEdge (m : Machine) : Machine :=
  let reset := m.wires.reset
  let (soc, report, traffic) := m.soc.edge m.wires
  { m with
    soc
    stats := if reset then m.stats else (m.stats.recordTraffic traffic).recordEdge report }

def clockCore (m : Machine) : Machine :=
  let (coreClock, edge) := m.coreClock.step
  let m := { m with coreClock }
  if edge = .rising then m.risingEdge else m

def settle (m : Machine) : Machine :=
  { m with wires := m.soc.settle m.wires }

/-- Hands a scanned pixel to the display; a falling vertical sync completes a frame, and only then
may the display ask to stop. -/
def showPixel (m : Machine) (p : Pixel) : Machine × Bool :=
  let falling := m.previousVsync && !p.vsync
  let presented := falling && m.display.isSome
  let display := m.display.map fun d => if falling then (d.update p).present else d.update p
  let quit := presented && display.any Display.quitRequested
  let stats :=
    if presented then { m.stats with framesPresented := m.stats.framesPresented + 1 } else m.stats
  ({ m with previousVsync := p.vsync, display, stats }, quit)

/-- One pixel clock: the controller, if there is one, drives a pixel and moves on. -/
def scanPixel (m : Machine) : Machine × Bool :=
  match m.soc.bus.pixel? with
  | some p =>
    { m with soc := { m.soc with bus := m.soc.bus.scan } }.showPixel p
  | none => (m, false)

/-- Advances the pixel clock; the result says whether the display asks to stop. -/
def clockPixel (m : Machine) : Machine × Bool :=
  let (pixelClock, edge) := m.pixelClock.step
  let m := { m with pixelClock }
  if edge = .rising then m.scanPixel else (m, false)

/-- The values of the traced wires. -/
def portValues (m : Machine) : List Nat :=
  let o := m.wires.outputs
  [m.coreClock.level.toNat, m.wires.reset.toNat, o.instructionAddress.toNat,
    m.wires.instruction.toNat, o.deviceSelect.index.toNat, o.data.address.toNat,
    o.data.writeData.toNat, o.data.writeEnable.toNat, o.data.strobe.bits.toNat,
    m.wires.readData.toNat, m.soc.lines.flag.toNat]

def trace (m : Machine) : Machine :=
  if m.tracer.isSome then
    let values := m.portValues
    let steps := m.stats.steps
    { m with tracer := m.tracer.map (·.sample steps values) }
  else m

/-- The word polled for the halt value holds it. -/
def isHalted (m : Machine) : Bool :=
  m.settings.haltAddress != 0 &&
    m.soc.bus.memory.read (m.settings.haltAddress &&& deviceMask) == m.settings.haltValue

/-- The first condition for stopping that holds after a step. -/
def outcome? (m : Machine) (quit : Bool) : Option Outcome :=
  let steps := m.stats.steps
  if m.isHalted then some { reason := .halted, steps }
  else if quit then some { reason := .quitRequested, steps }
  else if m.settings.cycleBudget ≤ steps then some { reason := .timedOut, steps }
  else none

/-- One step of the time base, and the outcome if the run stops with it. -/
def step (m : Machine) : Machine × Option Outcome :=
  let (m, quit) := m.beginStep.clockCore.settle.clockPixel
  let m := m.trace
  (m, m.outcome? quit)

end Machine

end RiscvSoc
