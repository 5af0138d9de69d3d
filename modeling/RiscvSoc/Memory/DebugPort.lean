import RiscvSoc.Memory

/-! A read-only port beside the bus. The driven address is latched by the port's own clock, and the
device-select bits are stripped. -/

namespace RiscvSoc

structure DebugPort where
  address : UInt32
  data : UInt32

namespace DebugPort

def idle : DebugPort := ⟨0, 0⟩

def drive (p : DebugPort) (address : UInt32) : DebugPort :=
  { p with address }

/-- Latches the word at the driven address. -/
def clock (p : DebugPort) (m : Memory) : DebugPort :=
  { p with data := m.read (p.address &&& deviceMask) }

/-- Drives an address and clocks once. -/
def fetch (p : DebugPort) (m : Memory) (address : UInt32) : DebugPort :=
  (p.drive address).clock m

def readWord (m : Memory) (address : UInt32) : UInt32 :=
  (idle.fetch m address).data

end DebugPort

end RiscvSoc
