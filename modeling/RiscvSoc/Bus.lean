import RiscvSoc.Device
import RiscvSoc.Memory

/-! The bus. An access whose select field is owned by a device goes to that device's register window;
any other goes to memory with the select field stripped, so a write reaches exactly one target. -/

namespace RiscvSoc

/-- The target of one access: memory at a byte address, or the device at a position in the list, at
a word-aligned register offset. -/
inductive Route where
  | memory (address : UInt32)
  | peripheral (index : Nat) (offset : UInt32)
  deriving DecidableEq

def Route.isPeripheral : Route → Bool
  | .memory _ => false
  | .peripheral _ _ => true

/-- Memory, the attached devices in the order of their registration, and for each tag the position
of the device that owns it. -/
structure Bus where
  memory : Memory
  devices : List Device
  owners : Vector (Option Nat) DeviceSelect.count

namespace Bus

def ofMemory (memory : Memory) : Bus :=
  { memory, devices := [], owners := Vector.replicate _ none }

def owner? (b : Bus) (select : DeviceSelect) : Option Nat :=
  b.owners[select.slot]

/-- A device can be attached unless its tag is the one of memory or has an owner already. -/
def accepts (b : Bus) (d : Device) : Bool :=
  !d.select.isMemory && (b.owner? d.select).isNone

/-- Attaches a device, if the bus accepts it: it becomes the last of the list and owns its tag. -/
def attach (b : Bus) (d : Device) : Bus :=
  if b.accepts d then
    { b with
      devices := b.devices ++ [d]
      owners := b.owners.set d.select.slot (some b.devices.length) }
  else b

def route (b : Bus) (a : EffectiveAddress) : Route :=
  match b.owner? a.select with
  | some index => .peripheral index a.wordOffset
  | none => .memory a.raw

def read (b : Bus) (a : EffectiveAddress) : UInt32 :=
  match b.route a with
  | .memory address => b.memory.read address
  | .peripheral index offset => (b.devices[index]?.map (·.read offset)).getD 0

/-- Writes to the target of a route. Devices take the whole word and ignore the strobe. -/
def writeTo (b : Bus) (data : UInt32) (strobe : Strobe) : Route → Bus
  | .memory address => { b with memory := b.memory.write address data strobe }
  | .peripheral index offset => { b with devices := b.devices.modify index (·.write offset data) }

def write (b : Bus) (a : EffectiveAddress) (data : UInt32) (strobe : Strobe) : Bus :=
  b.writeTo data strobe (b.route a)

def tick (b : Bus) : Bus :=
  { b with devices := b.devices.map Device.tick }

def irqSignals (b : Bus) : List IrqSignal :=
  b.devices.filterMap Device.irq?

def mapMemory (b : Bus) (f : Memory → Memory) : Bus :=
  { b with memory := f b.memory }

def device? (b : Bus) (select : DeviceSelect) : Option Device :=
  (b.owner? select).bind (b.devices[·]?)

def timer? (b : Bus) : Option Timer :=
  b.devices.findSome? Device.timer?

def uart? (b : Bus) : Option Uart :=
  b.devices.findSome? Device.uart?

def vga? (b : Bus) : Option Vga :=
  b.devices.findSome? Device.vga?

/-- Applies `f` to the attached serial ports; there is at most one. -/
def mapUart (b : Bus) (f : Uart → Uart) : Bus :=
  { b with devices := b.devices.map (·.mapUart f) }

def receive (b : Bus) (bytes : List UInt8) : Bus :=
  b.mapUart (·.receive bytes)

def pixel? (b : Bus) : Option Pixel :=
  b.vga?.map Vga.pixel

/-- One pixel clock for the attached display controllers; there is at most one. -/
def scan (b : Bus) : Bus :=
  { b with devices := b.devices.map (·.mapVga Vga.scan) }

end Bus

end RiscvSoc
