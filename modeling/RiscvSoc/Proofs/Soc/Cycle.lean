import RiscvSoc.Proofs.Bus.Scan
import RiscvSoc.Proofs.Core.Wires
import RiscvSoc.Soc

/-! One instruction in a single piece: fetched, evaluated, given its data word and committed. The
clocked machine spreads it over its wires, which settle on one step and are sampled on a later one.
Settled wires make the edge and the single piece agree, and a scan leaves them settled. -/

namespace RiscvSoc.Soc

variable (s : Soc) (w : Wires)

/-- What the core samples when it executes the word at its program counter with a data word. -/
def fetched (s : Soc) (readData : UInt32) : CoreInputs :=
  { reset := false, instruction := s.fetch, instructionValid := true
    interruptFlag := s.lines.flag, readData }

/-- One architectural cycle: fetch and evaluation, the read and the store that they ask for, the
commit, the acknowledgement, one tick of every device, and a sample of the lines. -/
def cycle (s : Soc) : Soc :=
  let o := s.core.outputs (s.fetched 0)
  let data := s.bus.read o.effectiveAddress
  let bus :=
    if o.data.writeEnable then s.bus.write o.effectiveAddress o.data.writeData o.data.strobe
    else s.bus
  let (core, report) := s.core.clockEdge (s.fetched data)
  let lines := s.lines.acknowledgeTaken report.transition.takenSource?
  { core, bus := bus.tick, lines := lines.sample bus.tick.irqSignals }

/-- A cycle under reset: the core restarts while the devices go on. -/
def resetCycle (s : Soc) : Soc :=
  { core := s.core.reset, bus := s.bus.tick, lines := s.lines.sample s.bus.tick.irqSignals }

def scanned (s : Soc) : Soc :=
  { s with bus := s.bus.scan }

/-- The wires carry what the committed state drives. -/
def Settled (s : Soc) (w : Wires) : Prop :=
  s.settle w = w

/-- The outputs of the fetched word do not wait for its data. -/
theorem outputs_fetched (d : UInt32) :
    s.core.outputs (s.fetched d) = s.core.outputs (s.fetched 0) :=
  s.core.outputs_readData (s.fetched 0) d

theorem settled_settle : s.Settled (s.settle w) := by
  have h : ∀ d o, s.core.outputs (s.inputs ⟨w.reset, s.fetch, d, o⟩) =
      s.core.outputs (s.inputs { w with instruction := s.fetch }) :=
    fun d _ => s.core.outputs_readData (s.inputs { w with instruction := s.fetch }) d
  simp only [Settled, settle, h]

theorem settle_scanned : s.scanned.settle w = s.settle w := by
  have hread : ∀ a, s.scanned.bus.read a = s.bus.read a := s.bus.read_scan
  simp only [settle, hread]
  rfl

variable {s w}

namespace Settled

theorem instruction (h : s.Settled w) : w.instruction = s.fetch :=
  (congrArg Wires.instruction h).symm

/-- With reset low, the edge samples the word at the program counter and the word that the bus reads
at the address which that instruction drives. -/
theorem inputs_eq (h : s.Settled w) (hr : w.reset = false) :
    s.inputs w = s.fetched (s.bus.read (s.core.outputs (s.fetched 0)).effectiveAddress) := by
  have hi : s.inputs { w with instruction := s.fetch } = s.fetched w.readData := by
    simp only [inputs, fetched, hr]
  have hd : w.readData = s.bus.read (s.core.outputs (s.fetched 0)).effectiveAddress := by
    have hread := congrArg Wires.readData h
    simp only [settle, hi, s.outputs_fetched w.readData] at hread
    exact hread.symm
  rw [← hd, ← hi, ← h.instruction]

theorem scan (h : s.Settled w) : s.scanned.Settled w :=
  (settle_scanned s w).trans h

end Settled

theorem edge_of_reset (hr : w.reset = true) : (s.edge w).1 = s.resetCycle := by
  simp [edge, store, inputs, hr, Core.clockEdge, EdgeReport.idle, Transition.takenSource?,
    InterruptLines.acknowledgeTaken, resetCycle]

/-- An edge that samples settled wires is one architectural cycle. -/
theorem edge_of_settled (h : s.Settled w) (hr : w.reset = false) : (s.edge w).1 = s.cycle := by
  have hi := h.inputs_eq hr
  generalize hd : s.bus.read (s.core.outputs (s.fetched 0)).effectiveAddress = d at hi
  have hl : (s.fetched d).reset = false := rfl
  simp only [edge, cycle, hi, hd, s.outputs_fetched d, store, hl, Bool.not_false, Bool.true_and,
    Bus.write]

end RiscvSoc.Soc
