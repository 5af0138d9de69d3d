import RiscvSoc.Memory.DebugPort
import RiscvSoc.Text.Hex

/-! The signature of a run: the words of a region of memory, written one to a line as eight
hexadecimal digits. -/

namespace RiscvSoc

structure SignatureRange where
  start : UInt32
  stop : UInt32
  deriving DecidableEq

namespace SignatureRange

/-- The region to use when none is known. -/
def fallback : SignatureRange :=
  { start := 0x2000, stop := 0x2400 }

/-- Two zero bounds mean that no region was found; neither they nor inverted bounds are walked. -/
def resolve (start stop : UInt32) : SignatureRange :=
  if (start = 0 ∧ stop = 0) ∨ stop < start then fallback else { start, stop }

def firstWord (r : SignatureRange) : Nat :=
  r.start.toNat / 4 * 4

def words (r : SignatureRange) : Nat :=
  (r.stop.toNat - r.firstWord + 3) / 4

def addresses (r : SignatureRange) : List UInt32 :=
  (List.range r.words).map fun k => (r.firstWord + 4 * k).toUInt32

end SignatureRange

def readSignature (m : Memory) (r : SignatureRange) : List UInt32 :=
  r.addresses.map (DebugPort.readWord m)

def signatureText (m : Memory) (r : SignatureRange) : String :=
  String.join ((readSignature m r).map fun w => Hex.word w ++ "\n")

end RiscvSoc
