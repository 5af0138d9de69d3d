/-! The fields of a 32-bit instruction word. Register and function fields sit at fixed positions;
the immediate is assembled from the bits that its format, given by the opcode, lays out. -/

namespace RiscvSoc

abbrev RegIndex := BitVec 5

inductive Opcode where
  | load
  | miscMem
  | opImm
  | auipc
  | store
  | op
  | lui
  | branch
  | jalr
  | jal
  | system
  deriving DecidableEq

def Opcode.bits : Opcode → BitVec 7
  | .load => 0x03
  | .miscMem => 0x0F
  | .opImm => 0x13
  | .auipc => 0x17
  | .store => 0x23
  | .op => 0x33
  | .lui => 0x37
  | .branch => 0x63
  | .jalr => 0x67
  | .jal => 0x6F
  | .system => 0x73

def Opcode.ofBits? (b : BitVec 7) : Option Opcode :=
  match b.toNat with
  | 0x03 => some .load
  | 0x0F => some .miscMem
  | 0x13 => some .opImm
  | 0x17 => some .auipc
  | 0x23 => some .store
  | 0x33 => some .op
  | 0x37 => some .lui
  | 0x63 => some .branch
  | 0x67 => some .jalr
  | 0x6F => some .jal
  | 0x73 => some .system
  | _ => none

theorem Opcode.ofBits?_bits (o : Opcode) : Opcode.ofBits? o.bits = some o := by
  cases o <;> rfl

theorem Opcode.bits_of_ofBits? {b : BitVec 7} {o : Opcode} (h : Opcode.ofBits? b = some o) :
    o.bits = b := by
  revert b o
  decide

inductive Format where
  | plain
  | i
  | s
  | b
  | u
  | j
  deriving DecidableEq

/-- The layout that goes with an opcode; `plain` instructions have no immediate. -/
def Opcode.format : Opcode → Format
  | .load | .opImm | .jalr => .i
  | .store => .s
  | .branch => .b
  | .lui | .auipc => .u
  | .jal => .j
  | .op | .miscMem | .system => .plain

/-- The immediate of an instruction word as a signed 32-bit number; bit 31 of the word is its sign. -/
def Format.immediate (w : BitVec 32) : Format → BitVec 32
  | .plain => 0
  | .i => (w.extractLsb' 20 12).signExtend 32
  | .s => (w.extractLsb' 25 7 ++ w.extractLsb' 7 5).signExtend 32
  | .b =>
    (w.extractLsb' 31 1 ++ w.extractLsb' 7 1 ++ w.extractLsb' 25 6 ++ w.extractLsb' 8 4 ++
      0#1).signExtend 32
  | .u => w.extractLsb' 12 20 ++ 0#12
  | .j =>
    (w.extractLsb' 31 1 ++ w.extractLsb' 12 8 ++ w.extractLsb' 20 1 ++ w.extractLsb' 21 10 ++
      0#1).signExtend 32

structure Fields where
  raw : UInt32
  opcode : BitVec 7
  rd : RegIndex
  rs1 : RegIndex
  rs2 : RegIndex
  funct3 : BitVec 3
  funct7 : BitVec 7
  csr : BitVec 12
  imm : BitVec 32
  deriving DecidableEq

namespace Fields

def ofWord (raw : UInt32) : Fields :=
  let w := raw.toBitVec
  let opcode := w.extractLsb' 0 7
  { raw
    opcode
    rd := w.extractLsb' 7 5
    rs1 := w.extractLsb' 15 5
    rs2 := w.extractLsb' 20 5
    funct3 := w.extractLsb' 12 3
    funct7 := w.extractLsb' 25 7
    csr := w.extractLsb' 20 12
    imm := match Opcode.ofBits? opcode with
      | some o => o.format.immediate w
      | none => 0 }

def immediate (f : Fields) : Int :=
  f.imm.toInt

end Fields

end RiscvSoc
