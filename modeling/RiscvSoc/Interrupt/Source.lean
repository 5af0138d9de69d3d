/-! The interrupt sources of the machine: which bit of the flag vector each drives, which enable bit
gates it, and which cause it reports. -/

namespace RiscvSoc

inductive InterruptSource where
  | timer
  | external
  deriving DecidableEq

namespace InterruptSource

def line : InterruptSource → Nat
  | .timer => 0
  | .external => 1

def flag : InterruptSource → UInt32
  | .timer => 1
  | .external => 2

/-- Bit of the interrupt-enable register that gates the source. -/
def enableMask : InterruptSource → UInt32
  | .timer => 0x80
  | .external => 0x800

def cause : InterruptSource → UInt32
  | .timer => 0x80000007
  | .external => 0x8000000B

def text : InterruptSource → String
  | .timer => "timer"
  | .external => "external"

/-- All sources, the one that is checked first in front. -/
def byPriority : List InterruptSource :=
  [.timer, .external]

end InterruptSource

end RiscvSoc
