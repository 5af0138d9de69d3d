import RiscvSoc.Isa.Instruction
import RiscvSoc.Proofs.Isa.Formats
import RiscvSoc.Proofs.Isa.Integer

/-! The base integer instructions as an assembler sees them, with their encodings. Decoding gives
back the instruction, with its immediate as a number that wraps to the width of a word. -/

namespace RiscvSoc

inductive ImmediateOp where
  | add
  | slt
  | sltu
  | xor
  | or
  | and
  deriving DecidableEq

inductive ShiftOp where
  | sll
  | srl
  | sra
  deriving DecidableEq

/-- An instruction of the base set. Immediates of branches and jumps leave out their lowest bit,
which is zero; those of `lui` and `auipc` leave out their low twelve. -/
inductive BaseInstruction where
  | lui (rd : RegIndex) (imm : BitVec 20)
  | auipc (rd : RegIndex) (imm : BitVec 20)
  | jal (rd : RegIndex) (offset : BitVec 20)
  | jalr (rd rs1 : RegIndex) (imm : BitVec 12)
  | branch (condition : Comparison) (rs1 rs2 : RegIndex) (offset : BitVec 12)
  | load (kind : LoadKind) (rd rs1 : RegIndex) (imm : BitVec 12)
  | store (width : StoreWidth) (rs1 rs2 : RegIndex) (imm : BitVec 12)
  | immediate (op : ImmediateOp) (rd rs1 : RegIndex) (imm : BitVec 12)
  | shift (op : ShiftOp) (rd rs1 : RegIndex) (amount : BitVec 5)
  | register (op : AluOp) (rd rs1 rs2 : RegIndex)
  | fence (rd rs1 : RegIndex) (order : BitVec 12)
  deriving DecidableEq

def ImmediateOp.alu : ImmediateOp → AluOp
  | .add => .add
  | .slt => .slt
  | .sltu => .sltu
  | .xor => .xor
  | .or => .or
  | .and => .and

def ShiftOp.alu : ShiftOp → AluOp
  | .sll => .sll
  | .srl => .srl
  | .sra => .sra

namespace AluOp

def funct3 : AluOp → BitVec 3
  | .add | .sub => 0
  | .sll => 1
  | .slt => 2
  | .sltu => 3
  | .xor => 4
  | .srl | .sra => 5
  | .or => 6
  | .and => 7

/-- Subtraction and the arithmetic shift are told from their partners by one bit. -/
def funct7 : AluOp → BitVec 7
  | .sub | .sra => 0x20
  | _ => 0x00

theorem ofRegisterForm?_funct (op : AluOp) :
    ofRegisterForm? op.funct7.toNat op.funct3.toNat = some op := by
  cases op <;> rfl

theorem ofImmediateForm?_immediate (op : ImmediateOp) (upper : Nat) :
    ofImmediateForm? upper op.alu.funct3.toNat = some op.alu := by
  cases op <;> rfl

theorem ofImmediateForm?_shift (op : ShiftOp) :
    ofImmediateForm? op.alu.funct7.toNat op.alu.funct3.toNat = some op.alu := by
  cases op <;> rfl

end AluOp

def Comparison.funct3 : Comparison → BitVec 3
  | .eq => 0
  | .ne => 1
  | .lt => 4
  | .ge => 5
  | .ltUnsigned => 6
  | .geUnsigned => 7

def LoadKind.funct3 : LoadKind → BitVec 3
  | .byte => 0
  | .half => 1
  | .word => 2
  | .byteUnsigned => 4
  | .halfUnsigned => 5

def StoreWidth.funct3 : StoreWidth → BitVec 3
  | .byte => 0
  | .half => 1
  | .word => 2

theorem Comparison.ofFunct3?_funct3 (c : Comparison) : ofFunct3? c.funct3.toNat = some c := by
  cases c <;> rfl

theorem LoadKind.ofFunct3?_funct3 (k : LoadKind) : ofFunct3? k.funct3.toNat = some k := by
  cases k <;> rfl

theorem StoreWidth.ofFunct3?_funct3 (w : StoreWidth) : ofFunct3? w.funct3.toNat = some w := by
  cases w <;> rfl

theorem Fields.ofBitVec_imm (f : Fields) : UInt32.ofBitVec f.imm = UInt32.ofInt f.immediate :=
  Word.ofBitVec_eq_ofInt_toInt f.imm

namespace BaseInstruction

def encode : BaseInstruction → UInt32
  | .lui rd imm => Encoding.u Opcode.lui.bits rd imm
  | .auipc rd imm => Encoding.u Opcode.auipc.bits rd imm
  | .jal rd offset => Encoding.j Opcode.jal.bits rd offset
  | .jalr rd rs1 imm => Encoding.i Opcode.jalr.bits rd 0 rs1 imm
  | .branch condition rs1 rs2 offset =>
    Encoding.b Opcode.branch.bits condition.funct3 rs1 rs2 offset
  | .load kind rd rs1 imm => Encoding.i Opcode.load.bits rd kind.funct3 rs1 imm
  | .store width rs1 rs2 imm => Encoding.s Opcode.store.bits width.funct3 rs1 rs2 imm
  | .immediate op rd rs1 imm => Encoding.i Opcode.opImm.bits rd op.alu.funct3 rs1 imm
  | .shift op rd rs1 amount =>
    Encoding.i Opcode.opImm.bits rd op.alu.funct3 rs1 (op.alu.funct7 ++ amount)
  | .register op rd rs1 rs2 => Encoding.r Opcode.op.bits rd op.funct3 rs1 rs2 op.funct7
  | .fence rd rs1 order => Encoding.i Opcode.miscMem.bits rd 0 rs1 order

/-- The immediate as a number; that of a shift has the bits above the amount in it. -/
def operand : BaseInstruction → Int
  | .lui _ imm | .auipc _ imm => 4096 * imm.toInt
  | .jal _ offset => 2 * offset.toInt
  | .branch _ _ _ offset => 2 * offset.toInt
  | .jalr _ _ imm | .load _ _ _ imm | .store _ _ _ imm | .immediate _ _ _ imm => imm.toInt
  | .shift op _ _ amount => (op.alu.funct7 ++ amount).toInt
  | .register .. | .fence .. => 0

def decoded (ins : BaseInstruction) : Instruction :=
  let imm := UInt32.ofInt ins.operand
  match ins with
  | .lui rd _ => .lui rd imm
  | .auipc rd _ => .auipc rd imm
  | .jal rd _ => .jal rd imm
  | .jalr rd rs1 _ => .jalr rd rs1 imm
  | .branch condition rs1 rs2 _ => .branch condition rs1 rs2 imm
  | .load kind rd rs1 _ => .load kind rd rs1 imm
  | .store width rs1 rs2 _ => .store width rs1 rs2 imm
  | .immediate op rd rs1 _ => .aluImm op.alu rd rs1 imm
  | .shift op rd rs1 _ => .aluImm op.alu rd rs1 imm
  | .register op rd rs1 rs2 => .alu op rd rs1 rs2
  | .fence .. => .fence

theorem decode_encode (ins : BaseInstruction) : Instruction.decode ins.encode = ins.decoded := by
  rw [Instruction.decode, Instruction.ofFields, encode.eq_def, decoded.eq_def, operand.eq_def]
  cases ins with
  | lui rd imm =>
    obtain ⟨hop, hrd⟩ := Fields.ofWord_u Opcode.lui.bits rd imm
    simp only [hop, Opcode.ofBits?_bits, hrd, Fields.ofBitVec_imm,
      Fields.immediate_u (o := .lui) rd imm rfl]
  | auipc rd imm =>
    obtain ⟨hop, hrd⟩ := Fields.ofWord_u Opcode.auipc.bits rd imm
    simp only [hop, Opcode.ofBits?_bits, hrd, Fields.ofBitVec_imm,
      Fields.immediate_u (o := .auipc) rd imm rfl]
  | jal rd offset =>
    obtain ⟨hop, hrd⟩ := Fields.ofWord_j Opcode.jal.bits rd offset
    simp only [hop, Opcode.ofBits?_bits, hrd, Fields.ofBitVec_imm,
      Fields.immediate_j (o := .jal) rd offset rfl]
  | jalr rd rs1 imm =>
    obtain ⟨hop, hrd, -, hrs1, -, -⟩ := Fields.ofWord_i Opcode.jalr.bits rd rs1 0 imm
    simp only [hop, Opcode.ofBits?_bits, hrd, hrs1, Fields.ofBitVec_imm,
      Fields.immediate_i (o := .jalr) rd rs1 0 imm rfl]
  | branch condition rs1 rs2 offset =>
    obtain ⟨hop, hfunct, hrs1, hrs2⟩ :=
      Fields.ofWord_b Opcode.branch.bits rs1 rs2 condition.funct3 offset
    simp only [hop, Opcode.ofBits?_bits, hfunct, Comparison.ofFunct3?_funct3, hrs1, hrs2,
      Fields.ofBitVec_imm, Fields.immediate_b (o := .branch) rs1 rs2 condition.funct3 offset rfl]
  | load kind rd rs1 imm =>
    obtain ⟨hop, hrd, hfunct, hrs1, -, -⟩ :=
      Fields.ofWord_i Opcode.load.bits rd rs1 kind.funct3 imm
    simp only [hop, Opcode.ofBits?_bits, hfunct, LoadKind.ofFunct3?_funct3, hrd, hrs1,
      Fields.ofBitVec_imm, Fields.immediate_i (o := .load) rd rs1 kind.funct3 imm rfl]
  | store width rs1 rs2 imm =>
    obtain ⟨hop, hfunct, hrs1, hrs2⟩ :=
      Fields.ofWord_s Opcode.store.bits rs1 rs2 width.funct3 imm
    simp only [hop, Opcode.ofBits?_bits, hfunct, StoreWidth.ofFunct3?_funct3, hrs1, hrs2,
      Fields.ofBitVec_imm, Fields.immediate_s (o := .store) rs1 rs2 width.funct3 imm rfl]
  | immediate op rd rs1 imm =>
    obtain ⟨hop, hrd, hfunct, hrs1, -, -⟩ :=
      Fields.ofWord_i Opcode.opImm.bits rd rs1 op.alu.funct3 imm
    simp only [hop, Opcode.ofBits?_bits, hfunct, AluOp.ofImmediateForm?_immediate, hrd, hrs1,
      Fields.ofBitVec_imm, Fields.immediate_i (o := .opImm) rd rs1 op.alu.funct3 imm rfl]
  | shift op rd rs1 amount =>
    obtain ⟨hop, hrd, hfunct, hrs1, -, hupper⟩ :=
      Fields.ofWord_i Opcode.opImm.bits rd rs1 op.alu.funct3 (op.alu.funct7 ++ amount)
    rw [BitVec.extractLsb'_append_eq_left] at hupper
    simp only [hop, Opcode.ofBits?_bits, hfunct, hupper, AluOp.ofImmediateForm?_shift, hrd, hrs1,
      Fields.ofBitVec_imm,
      Fields.immediate_i (o := .opImm) rd rs1 op.alu.funct3 (op.alu.funct7 ++ amount) rfl]
  | register op rd rs1 rs2 =>
    obtain ⟨hop, hrd, hfunct, hrs1, hrs2, hupper⟩ :=
      Fields.ofWord_r Opcode.op.bits rd rs1 rs2 op.funct3 op.funct7
    simp only [hop, Opcode.ofBits?_bits, hfunct, hupper, AluOp.ofRegisterForm?_funct, hrd, hrs1,
      hrs2]
  | fence rd rs1 order =>
    obtain ⟨hop, -, -, -, -, -⟩ := Fields.ofWord_i Opcode.miscMem.bits rd rs1 0 order
    simp only [hop, Opcode.ofBits?_bits]

end BaseInstruction

end RiscvSoc
