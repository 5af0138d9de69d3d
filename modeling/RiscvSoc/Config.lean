import RiscvSoc.Clock.Synchronizer
import RiscvSoc.Device.Vga.Timing
import RiscvSoc.Error

namespace RiscvSoc

/-- Time, addresses and the program of a run. The clock toggles when its step counter passes the
divider; reset is held while the step count is at or below `resetSteps`; a zero `haltAddress` turns
polling for `haltValue` off. -/
structure GeneralConfig where
  cycleBudget : UInt64
  clockDivider : UInt32
  resetSteps : UInt64
  entryPoint : UInt32
  loadAddress : UInt32
  haltAddress : UInt32
  haltValue : UInt32
  imagePath : Option String
  tracePath : Option String
  deriving DecidableEq

structure MemoryConfig where
  words : UInt64
  deriving DecidableEq

structure VgaConfig where
  enabled : Bool
  pixelClockDivider : UInt32
  timing : VgaTiming
  quitAfterFrames : Option UInt64
  synchronizerStages : UInt64
  frameDump : Option String
  deriving DecidableEq

structure DeviceConfig where
  uartEcho : Bool
  uartStdin : Bool
  vga : VgaConfig
  deriving DecidableEq

structure SignatureConfig where
  output : Option String
  start : Option UInt32
  stop : Option UInt32
  elf : Option String
  deriving DecidableEq

structure Config where
  general : GeneralConfig
  memory : MemoryConfig
  devices : DeviceConfig
  signature : SignatureConfig
  deriving DecidableEq

def GeneralConfig.standard : GeneralConfig :=
  { cycleBudget := 10000, clockDivider := 1, resetSteps := 2, entryPoint := 0x1000
    loadAddress := 0x1000, haltAddress := 0, haltValue := 0xBABECAFE, imagePath := none
    tracePath := none }

/-- 64 MiB. -/
def MemoryConfig.standard : MemoryConfig :=
  { words := 16777216 }

def VgaConfig.standard : VgaConfig :=
  { enabled := false, pixelClockDivider := 1, timing := .standard, quitAfterFrames := none
    synchronizerStages := 2, frameDump := none }

def DeviceConfig.standard : DeviceConfig :=
  { uartEcho := false, uartStdin := false, vga := .standard }

def SignatureConfig.standard : SignatureConfig :=
  { output := none, start := none, stop := none, elf := none }

namespace Config

def standard : Config :=
  { general := .standard, memory := .standard, devices := .standard, signature := .standard }

/-- Size of memory in bytes, or the largest 64-bit number if it does not fit. -/
def sizeBytes (c : Config) : Nat :=
  min (c.memory.words.toNat * 4) (UInt64.size - 1)

def fault? (c : Config) : Option ConfigFault :=
  if c.memory.words = 0 then some .noMemory
  else if c.devices.vga.synchronizerStages.toNat < Synchronizer.minStages then
    some (.fewStages c.devices.vga.synchronizerStages.toNat)
  else if c.sizeBytes ≤ c.general.loadAddress.toNat then
    some (.loadBeyondMemory c.general.loadAddress c.sizeBytes)
  else none

def validate (c : Config) : Except Error Unit :=
  match c.fault? with
  | some fault => .error (.config fault)
  | none => .ok ()

end Config

end RiscvSoc
