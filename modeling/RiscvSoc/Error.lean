import RiscvSoc.Memory
import RiscvSoc.Text.Numeral

namespace RiscvSoc

inductive ConfigFault where
  | malformed (detail : String)
  | noMemory
  | fewStages (stages : Nat)
  | loadBeyondMemory (address : UInt32) (size : Nat)
  | number (refusal : Numeral.Refusal)
  | signatureArity
  deriving DecidableEq

namespace ConfigFault

def message : ConfigFault → String
  | malformed detail => detail
  | noMemory => "memory capacity must be at least one word"
  | fewStages stages => "synchronizer needs at least 2 stages, got " ++ toString stages
  | loadBeyondMemory address size =>
    "load address 0x" ++ Hex.natural address.toNat ++ " is beyond memory (" ++ toString size ++
      " bytes)"
  | number refusal => refusal.message
  | signatureArity => "--signature takes BEGIN END FILE"

end ConfigFault

inductive Error where
  | missingImage (path : String)
  | file (path cause : String)
  | imageTooLarge (overflow : Memory.Overflow)
  | elf (path detail : String)
  | config (fault : ConfigFault)
  deriving DecidableEq

namespace Error

def message : Error → String
  | missingImage path => "program image not found: " ++ path
  | file path cause => "I/O error on " ++ path ++ ": " ++ cause
  | imageTooLarge o =>
    "image is too large (" ++ toString o.size ++ " bytes, memory has " ++ toString o.available ++
      " bytes from the load address)"
  | elf path detail => "failed to parse ELF image " ++ path ++ ": " ++ detail
  | config fault => "invalid configuration: " ++ fault.message

end Error

end RiscvSoc
