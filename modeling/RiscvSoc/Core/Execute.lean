import RiscvSoc.Core.Ports
import RiscvSoc.Core.State

/-! The combinational half of the core: what one instruction would do, computed from the committed
state and the input wires before anything is written. -/

namespace RiscvSoc

/-- Everything that one instruction does if no trap preempts it. -/
structure Effect where
  data : DataPort
  writeback : Option (RegIndex × UInt32)
  csrWrite : Option (UInt32 × UInt32)
  nextPc : UInt32
  deriving DecidableEq

namespace Effect

def nothing (nextPc : UInt32) : Effect :=
  { data := .idle, writeback := none, csrWrite := none, nextPc }

def write (nextPc : UInt32) (rd : RegIndex) (value : UInt32) : Effect :=
  { nothing nextPc with writeback := some (rd, value) }

end Effect

namespace Core

def reg (c : Core) (r : RegIndex) : UInt32 :=
  c.registers.read r.toNat

def execute (c : Core) (readData flag : UInt32) (instruction : Instruction) : Effect :=
  let next := c.pc + 4
  match instruction with
  | .lui rd imm => .write next rd imm
  | .auipc rd imm => .write next rd (c.pc + imm)
  | .jal rd imm => .write (c.pc + imm) rd next
  | .jalr rd rs1 imm => .write ((c.reg rs1 + imm) &&& ~~~1) rd next
  | .branch condition rs1 rs2 imm =>
    .nothing (if condition.holds (c.reg rs1) (c.reg rs2) then c.pc + imm else next)
  | .load kind rd rs1 imm =>
    let address := c.reg rs1 + imm
    { Effect.write next rd (kind.extract address readData) with
      data := { DataPort.idle with address } }
  | .reservedLoad rs1 imm =>
    { Effect.nothing next with data := { DataPort.idle with address := c.reg rs1 + imm } }
  | .store width rs1 rs2 imm =>
    let address := c.reg rs1 + imm
    let (writeData, strobe) := width.lanes address (c.reg rs2)
    { Effect.nothing next with data := { address, writeData, writeEnable := true, strobe } }
  | .aluImm op rd rs1 imm => .write next rd (op.apply (c.reg rs1) imm)
  | .alu op rd rs1 rs2 => .write next rd (op.apply (c.reg rs1) (c.reg rs2))
  | .csr access rd source address =>
    let operand := if access.immediate then .ofBitVec (source.setWidth 32) else c.reg source
    let old := c.csrs.read address flag
    { Effect.write next rd old with
      csrWrite := csrTarget address (access.apply old operand (source != 0)) }
  | .fence | .ecall | .ebreak | .mret | .wfi | .reserved => .nothing next

/-- The plan for one cycle: the effect of the instruction and the trap controller's decision. -/
structure Plan where
  effect : Effect
  trap : TrapDecision
  deriving DecidableEq

def plan (c : Core) (i : CoreInputs) : Plan :=
  { effect := c.execute i.readData i.interruptFlag (.decode i.instruction)
    trap := .ofInputs
      { instruction := i.instruction, address := c.pc, flag := i.interruptFlag
        csrs := c.trapCsrs } }

/-- The wires that a plan drives; entering a handler holds the write enable low. -/
def Plan.outputs (p : Plan) (pc : UInt32) : CoreOutputs :=
  { instructionAddress := pc
    deviceSelect := .ofAddress p.effect.data.address
    data := { p.effect.data with
      writeEnable := p.effect.data.writeEnable && !p.trap.transition.entersHandler } }

/-- The output wires, from the committed state and the input wires. -/
def outputs (c : Core) (i : CoreInputs) : CoreOutputs :=
  if i.reset then .fetching c.resetVector
  else if i.instructionValid then (c.plan i).outputs c.pc
  else .fetching c.pc

end Core

end RiscvSoc
