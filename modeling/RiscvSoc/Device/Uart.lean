import RiscvSoc.Interrupt.Lines
import RiscvSoc.Word

/-! The serial port. Bytes written to TX are logged while the port is enabled. Received bytes wait in
a queue and reach RX at most every other cycle, so that each makes a rising edge of its own on the
interrupt line. Registers: `0x4` baud rate, `0x8` enable, `0xC` RX, `0x10` TX. -/

namespace RiscvSoc

/-- `pulse` is up for the one cycle after a byte reached RX; `log` holds what was transmitted. -/
structure Uart where
  baud : UInt32
  enabled : Bool
  rx : UInt8
  queue : List UInt8
  pulse : Bool
  log : Array UInt8
  deriving DecidableEq

namespace Uart

def initial : Uart :=
  { baud := 115200, enabled := false, rx := 0, queue := [], pulse := false, log := #[] }

def receive (u : Uart) (bytes : List UInt8) : Uart :=
  { u with queue := u.queue ++ bytes }

def transmit (u : Uart) (byte : UInt8) : Uart :=
  if u.enabled then { u with log := u.log.push byte } else u

/-- The log with everything taken out of it. -/
def clearLog (u : Uart) : Uart :=
  { u with log := #[] }

def read (u : Uart) (offset : UInt32) : UInt32 :=
  if offset = 0x4 then u.baud
  else if offset = 0x8 then Word.ofBool u.enabled
  else if offset = 0xC then u.rx.toUInt32
  else 0

def write (u : Uart) (offset value : UInt32) : Uart :=
  if offset = 0x4 then { u with baud := value }
  else if offset = 0x8 then { u with enabled := value != 0 }
  else if offset = 0x10 then u.transmit value.toUInt8
  else u

/-- Ends the pulse of the last byte, or delivers the next one. -/
def tick (u : Uart) : Uart :=
  if u.pulse then { u with pulse := false }
  else
    match u.queue with
    | [] => u
    | byte :: rest => { u with rx := byte, queue := rest, pulse := true }

def irq (u : Uart) : IrqSignal :=
  { line := InterruptSource.external.line, trigger := .edge, asserted := u.pulse }

end Uart

end RiscvSoc
