import RiscvSoc.Device.Custom
import RiscvSoc.Device.Timer
import RiscvSoc.Device.Uart
import RiscvSoc.Device.Vga

/-! The devices that can own a device-select tag. Register offsets are word-aligned; reading has no
side effects. -/

namespace RiscvSoc

inductive Device where
  | timer (t : Timer)
  | uart (u : Uart)
  | vga (g : Vga)
  | custom (d : CustomDevice)

namespace Device

def name : Device → String
  | .timer _ => "TIMER"
  | .uart _ => "UART0"
  | .vga _ => "VGA"
  | .custom d => d.name

/-- The tag that the device answers to; it never changes. -/
def select : Device → DeviceSelect
  | .timer _ => .timer
  | .uart _ => .uart
  | .vga _ => .vga
  | .custom d => d.select

def read (offset : UInt32) : Device → UInt32
  | .timer t => t.read offset
  | .uart u => u.read offset
  | .vga g => g.read offset
  | .custom d => d.read offset

def write (offset value : UInt32) : Device → Device
  | .timer t => .timer (t.write offset value)
  | .uart u => .uart (u.write offset value)
  | .vga g => .vga (g.write offset value)
  | .custom d => .custom (d.write offset value)

def tick : Device → Device
  | .timer t => .timer t.tick
  | .uart u => .uart u.tick
  | .vga g => .vga g.tick
  | .custom d => .custom d.tick

@[simp] theorem select_write (d : Device) (offset value : UInt32) :
    (d.write offset value).select = d.select := by
  cases d <;> rfl

@[simp] theorem select_tick (d : Device) : d.tick.select = d.select := by
  cases d <;> rfl

def irq? : Device → Option IrqSignal
  | .timer t => some t.irq
  | .uart u => some u.irq
  | .vga _ => none
  | .custom d => d.irq?

def timer? : Device → Option Timer
  | .timer t => some t
  | _ => none

def uart? : Device → Option Uart
  | .uart u => some u
  | _ => none

def vga? : Device → Option Vga
  | .vga g => some g
  | _ => none

def mapUart (f : Uart → Uart) : Device → Device
  | .uart u => .uart (f u)
  | d => d

def mapVga (f : Vga → Vga) : Device → Device
  | .vga g => .vga (f g)
  | d => d

end Device

end RiscvSoc
