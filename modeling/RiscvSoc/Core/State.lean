import RiscvSoc.Core.Csrs
import RiscvSoc.Core.Registers
import RiscvSoc.Core.Trap

namespace RiscvSoc

/-- `pending` is the interrupt flag vector sampled on the last edge. -/
structure Core where
  pc : UInt32
  resetVector : UInt32
  registers : Registers
  csrs : Csrs
  pending : UInt32
  deriving DecidableEq

namespace Core

/-- The state after power-on and after every reset. -/
def powerOn (resetVector : UInt32) : Core :=
  { pc := resetVector, resetVector, registers := .zeroed, csrs := .initial, pending := 0 }

def reset (c : Core) : Core :=
  powerOn c.resetVector

def readRegister (c : Core) (index : Nat) : UInt32 :=
  c.registers.read index

def readCsr (c : Core) (address : UInt32) : UInt32 :=
  c.csrs.read address c.pending

def trapCsrs (c : Core) : TrapCsrs :=
  { mstatus := c.csrs.mstatus, mie := c.csrs.mie, mtvec := c.csrs.mtvec, mepc := c.csrs.mepc
    mcause := c.csrs.mcause }

end Core

end RiscvSoc
