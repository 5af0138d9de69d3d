import RiscvSoc.Address
import RiscvSoc.Interrupt.Lines

/-! A device of any make. Nothing is said about its state: the device is what it shows on the bus
after any sequence of writes and ticks. -/

namespace RiscvSoc

inductive DeviceEvent where
  | write (offset value : UInt32)
  | tick
  deriving DecidableEq

/-- What registers read as and what the interrupt output shows, once further events have happened,
the earliest of them first. -/
structure CustomDevice where
  name : String
  select : DeviceSelect
  readAfter : List DeviceEvent → UInt32 → UInt32
  irqAfter : List DeviceEvent → Option IrqSignal

namespace CustomDevice

def after (e : DeviceEvent) (d : CustomDevice) : CustomDevice :=
  { d with
    readAfter := fun events => d.readAfter (e :: events)
    irqAfter := fun events => d.irqAfter (e :: events) }

def read (offset : UInt32) (d : CustomDevice) : UInt32 :=
  d.readAfter [] offset

def write (offset value : UInt32) (d : CustomDevice) : CustomDevice :=
  d.after (.write offset value)

def tick (d : CustomDevice) : CustomDevice :=
  d.after .tick

def irq? (d : CustomDevice) : Option IrqSignal :=
  d.irqAfter []

section OfState

variable {State : Type} (name : String) (select : DeviceSelect)
  (next : State → DeviceEvent → State) (readState : State → UInt32 → UInt32)
  (irqState : State → Option IrqSignal) (s : State)

/-- The device that is in state `s` of some machine. -/
def ofState : CustomDevice :=
  { name
    select
    readAfter := fun events => readState (events.foldl next s)
    irqAfter := fun events => irqState (events.foldl next s) }

@[simp] theorem read_ofState (offset : UInt32) :
    (ofState name select next readState irqState s).read offset = readState s offset := rfl

@[simp] theorem irq?_ofState :
    (ofState name select next readState irqState s).irq? = irqState s := rfl

/-- A device that is in a state moves as the state does. -/
@[simp] theorem after_ofState (e : DeviceEvent) :
    (ofState name select next readState irqState s).after e =
      ofState name select next readState irqState (next s e) := rfl

end OfState

end CustomDevice

end RiscvSoc
