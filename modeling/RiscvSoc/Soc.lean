import RiscvSoc.Bus
import RiscvSoc.Core.Edge
import RiscvSoc.Stats

/-! Everything that the core's clock drives: the core, the bus with its memory and devices, and the
interrupt lines between them. -/

namespace RiscvSoc

structure Soc where
  core : Core
  bus : Bus
  lines : InterruptLines

/-- The wires that the core samples on an edge, and those that it drives. -/
structure Wires where
  reset : Bool
  instruction : UInt32
  readData : UInt32
  outputs : CoreOutputs
  deriving DecidableEq

def Wires.low : Wires :=
  { reset := false, instruction := 0, readData := 0, outputs := .fetching 0 }

namespace Soc

/-- The inputs of the core, given the wires that the last settling left. -/
def inputs (s : Soc) (w : Wires) : CoreInputs :=
  { reset := w.reset, instruction := w.instruction, instructionValid := true
    interruptFlag := s.lines.flag, readData := w.readData }

/-- The access that an edge makes: a store wherever it is routed, or a load from a device. -/
def traffic (i : CoreInputs) (o : CoreOutputs) (route : Route) : Traffic :=
  if i.reset then .none
  else if o.data.writeEnable then if route.isPeripheral then .deviceWrite else .memoryWrite
  else if (Instruction.decode i.instruction).isLoad && route.isPeripheral then .deviceRead
  else .none

def store (b : Bus) (i : CoreInputs) (o : CoreOutputs) (route : Route) : Bus :=
  if !i.reset && o.data.writeEnable then b.writeTo o.data.writeData o.data.strobe route else b

/-- One rising edge: the store is routed to one target, the core commits, an interrupt that it took
is acknowledged, the devices advance, and the lines are sampled. -/
def edge (s : Soc) (w : Wires) : Soc × EdgeReport × Traffic :=
  let i := s.inputs w
  let o := s.core.outputs i
  let route := s.bus.route o.effectiveAddress
  let bus := (store s.bus i o route).tick
  let (core, report) := s.core.clockEdge i
  let lines := (s.lines.acknowledgeTaken report.transition.takenSource?).sample bus.irqSignals
  ({ core, bus, lines }, report, traffic i o route)

def fetch (s : Soc) : UInt32 :=
  s.bus.memory.read (s.core.pc &&& deviceMask)

/-- Drives the instruction and data wires from the committed state, ready for the next edge. -/
def settle (s : Soc) (w : Wires) : Wires :=
  let w := { w with instruction := s.fetch }
  let outputs := s.core.outputs (s.inputs w)
  { w with readData := s.bus.read outputs.effectiveAddress, outputs }

end Soc

end RiscvSoc
