import RiscvSoc.Memory.Strobe
import RiscvSoc.Word

/-! Loads and stores between registers and memory words. A load picks its bytes out of the whole
word; a store moves its data into the addressed lanes. Halfwords and words are aligned down. -/

namespace RiscvSoc

inductive LoadKind where
  | byte
  | half
  | word
  | byteUnsigned
  | halfUnsigned
  deriving DecidableEq

namespace LoadKind

def ofFunct3? : Nat → Option LoadKind
  | 0 => some .byte
  | 1 => some .half
  | 2 => some .word
  | 4 => some .byteUnsigned
  | 5 => some .halfUnsigned
  | _ => none

/-- The loaded value, given the word that holds `address`. -/
def extract (kind : LoadKind) (address word : UInt32) : UInt32 :=
  let byteShift := (address &&& 3) * 8
  let halfShift := (address &&& 2) * 8
  match kind with
  | .byte => Word.signExtend8 (word >>> byteShift).toUInt8
  | .half => Word.signExtend16 (word >>> halfShift).toUInt16
  | .word => word
  | .byteUnsigned => (word >>> byteShift) &&& 0xFF
  | .halfUnsigned => (word >>> halfShift) &&& 0xFFFF

end LoadKind

inductive StoreWidth where
  | byte
  | half
  | word
  deriving DecidableEq

namespace StoreWidth

def ofFunct3? : Nat → Option StoreWidth
  | 0 => some .byte
  | 1 => some .half
  | 2 => some .word
  | _ => none

/-- Store data moved into its lanes, and the lanes that it enables. -/
def lanes (width : StoreWidth) (address data : UInt32) : UInt32 × Strobe :=
  match width with
  | .byte =>
    let lane := address &&& 3
    ((data &&& 0xFF) <<< (lane * 8), .ofBits (1 <<< lane.toUInt8))
  | .half =>
    let lane := address &&& 2
    ((data &&& 0xFFFF) <<< (lane * 8), .ofBits (3 <<< lane.toUInt8))
  | .word => (data, .all)

end StoreWidth

end RiscvSoc
