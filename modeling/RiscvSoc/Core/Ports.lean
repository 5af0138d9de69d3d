import RiscvSoc.Address
import RiscvSoc.Core.Trap
import RiscvSoc.Memory.Strobe

namespace RiscvSoc

structure CoreInputs where
  reset : Bool
  instruction : UInt32
  instructionValid : Bool
  interruptFlag : UInt32
  readData : UInt32

/-- The data-side wires of one access; store data is already moved into its lanes. -/
structure DataPort where
  address : UInt32
  writeData : UInt32
  writeEnable : Bool
  strobe : Strobe
  deriving DecidableEq

def DataPort.idle : DataPort :=
  { address := 0, writeData := 0, writeEnable := false, strobe := .none }

structure CoreOutputs where
  instructionAddress : UInt32
  deviceSelect : DeviceSelect
  data : DataPort
  deriving DecidableEq

namespace CoreOutputs

def fetching (address : UInt32) : CoreOutputs :=
  { instructionAddress := address, deviceSelect := .memory, data := .idle }

def effectiveAddress (o : CoreOutputs) : EffectiveAddress :=
  .combine o.deviceSelect o.data.address

end CoreOutputs

structure EdgeReport where
  retired : Bool
  transition : Transition
  deriving DecidableEq

def EdgeReport.idle : EdgeReport :=
  { retired := false, transition := .sequential }

end RiscvSoc
