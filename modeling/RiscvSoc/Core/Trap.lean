import RiscvSoc.Core.Csrs
import RiscvSoc.Interrupt.Source
import RiscvSoc.Isa.Instruction

/-! The trap controller. In each cycle it selects one transition from the instruction word, the
interrupt flag vector and the trap registers: an exception before an interrupt, an interrupt before
a return, and a return before going on in sequence. -/

namespace RiscvSoc

/-- The registers that the controller reads and may replace. -/
structure TrapCsrs where
  mstatus : UInt32
  mie : UInt32
  mtvec : UInt32
  mepc : UInt32
  mcause : UInt32
  deriving DecidableEq

inductive Transition where
  | exception (cause : UInt32)
  | interrupt (source : InterruptSource)
  | trapReturn
  | sequential
  deriving DecidableEq

namespace Transition

def entersHandler : Transition → Bool
  | .exception _ | .interrupt _ => true
  | .trapReturn | .sequential => false

def takenSource? : Transition → Option InterruptSource
  | .interrupt source => some source
  | _ => none

end Transition

structure TrapInputs where
  instruction : UInt32
  address : UInt32
  flag : UInt32
  csrs : TrapCsrs

namespace TrapInputs

def exception? (i : TrapInputs) : Option Transition :=
  if i.instruction = Instruction.ecallWord then some (.exception 11)
  else if i.instruction = Instruction.ebreakWord then some (.exception 3)
  else none

/-- A source is ready when its flag bit and its enable bit are both set. -/
def ready (i : TrapInputs) (source : InterruptSource) : Bool :=
  i.flag &&& source.flag != 0 && i.csrs.mie &&& source.enableMask != 0

/-- The first ready source, when interrupts are enabled. -/
def interrupt? (i : TrapInputs) : Option Transition :=
  if i.csrs.mstatus &&& mieBit = 0 then none
  else (InterruptSource.byPriority.find? i.ready).map .interrupt

def return? (i : TrapInputs) : Option Transition :=
  if i.instruction = Instruction.mretWord then some .trapReturn else none

def transition (i : TrapInputs) : Transition :=
  (i.exception? <|> i.interrupt? <|> i.return?).getD .sequential

end TrapInputs

/-- The controller's answer: the transition, the trap registers after it, and where the program
counter goes when `redirects` is set. -/
structure TrapDecision where
  transition : Transition
  csrs : TrapCsrs
  writes : Bool
  redirects : Bool
  target : UInt32
  deriving DecidableEq

namespace TrapDecision

/-- Entering a handler saves the enable bit and the address, records the cause and jumps to the
handler base. -/
def enter (i : TrapInputs) (transition : Transition) (cause : UInt32) : TrapDecision :=
  let saved := if i.csrs.mstatus &&& mieBit = 0 then 0 else mpieBit
  { transition
    csrs := { i.csrs with
      mstatus := (i.csrs.mstatus &&& ~~~(mieBit ||| mpieBit)) ||| saved
      mepc := i.address
      mcause := cause }
    writes := true
    redirects := true
    target := i.csrs.mtvec &&& ~~~3 }

/-- Returning restores the enable bit from the saved one and jumps to the saved address. -/
def leave (i : TrapInputs) : TrapDecision :=
  let restored := if i.csrs.mstatus &&& mpieBit = 0 then 0 else mieBit
  { transition := .trapReturn
    csrs := { i.csrs with mstatus := (i.csrs.mstatus &&& ~~~mieBit) ||| restored }
    writes := true
    redirects := true
    target := i.csrs.mepc }

def pass (i : TrapInputs) : TrapDecision :=
  { transition := .sequential, csrs := i.csrs, writes := false, redirects := false, target := 0 }

def ofInputs (i : TrapInputs) : TrapDecision :=
  match i.transition with
  | .exception cause => enter i (.exception cause) cause
  | .interrupt source => enter i (.interrupt source) source.cause
  | .trapReturn => leave i
  | .sequential => pass i

end TrapDecision

end RiscvSoc
