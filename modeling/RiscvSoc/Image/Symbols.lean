import RiscvSoc.Image.Elf

namespace RiscvSoc

/-- The low 32 bits of a symbol's value, if the file defines it. -/
def lookupSymbol? (file : Elf.Bytes) (name : String) : Option UInt32 := do
  let f ← Elf.parse? file
  let value ← f.symbolValue? file name
  return value.toUInt32

/-- The bounds of the signature region, both zero unless both symbols are found. -/
def lookupSignature (file : Elf.Bytes) : UInt32 × UInt32 :=
  match lookupSymbol? file "begin_signature", lookupSymbol? file "end_signature" with
  | some start, some stop => (start, stop)
  | _, _ => (0, 0)

end RiscvSoc
