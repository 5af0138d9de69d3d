import RiscvSoc.Word

namespace RiscvSoc

inductive AluOp where
  | add
  | sub
  | sll
  | slt
  | sltu
  | xor
  | srl
  | sra
  | or
  | and
  deriving DecidableEq

namespace AluOp

def ofRegisterForm? (funct7 funct3 : Nat) : Option AluOp :=
  match funct7, funct3 with
  | 0x00, 0 => some .add
  | 0x20, 0 => some .sub
  | 0x00, 1 => some .sll
  | 0x00, 2 => some .slt
  | 0x00, 3 => some .sltu
  | 0x00, 4 => some .xor
  | 0x00, 5 => some .srl
  | 0x20, 5 => some .sra
  | 0x00, 6 => some .or
  | 0x00, 7 => some .and
  | _, _ => none

/-- The operation of a register-immediate instruction; only shifts constrain the upper bits. -/
def ofImmediateForm? (funct7 funct3 : Nat) : Option AluOp :=
  match funct3 with
  | 0 => some .add
  | 1 => if funct7 = 0x00 then some .sll else none
  | 2 => some .slt
  | 3 => some .sltu
  | 4 => some .xor
  | 5 => if funct7 = 0x00 then some .srl else if funct7 = 0x20 then some .sra else none
  | 6 => some .or
  | 7 => some .and
  | _ => none

/-- Shifts take their amount from the low five bits of `b`; sums wrap. -/
def apply (op : AluOp) (a b : UInt32) : UInt32 :=
  let shift := b &&& 0x1F
  match op with
  | .add => a + b
  | .sub => a - b
  | .sll => a <<< shift
  | .slt => Word.ofBool (decide (a.toInt32 < b.toInt32))
  | .sltu => Word.ofBool (decide (a < b))
  | .xor => a ^^^ b
  | .srl => a >>> shift
  | .sra => (a.toInt32 >>> shift.toInt32).toUInt32
  | .or => a ||| b
  | .and => a &&& b

end AluOp

inductive Comparison where
  | eq
  | ne
  | lt
  | ge
  | ltUnsigned
  | geUnsigned
  deriving DecidableEq

namespace Comparison

def ofFunct3? : Nat → Option Comparison
  | 0 => some .eq
  | 1 => some .ne
  | 4 => some .lt
  | 5 => some .ge
  | 6 => some .ltUnsigned
  | 7 => some .geUnsigned
  | _ => none

def holds (c : Comparison) (a b : UInt32) : Bool :=
  match c with
  | .eq => a == b
  | .ne => a != b
  | .lt => decide (a.toInt32 < b.toInt32)
  | .ge => decide (b.toInt32 ≤ a.toInt32)
  | .ltUnsigned => decide (a < b)
  | .geUnsigned => decide (b ≤ a)

end Comparison

end RiscvSoc
