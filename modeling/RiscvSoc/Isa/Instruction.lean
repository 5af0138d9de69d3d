import RiscvSoc.Isa.Alu
import RiscvSoc.Isa.CsrAccess
import RiscvSoc.Isa.Fields
import RiscvSoc.Isa.Transfer

/-! The instructions that the core executes: the 32-bit base integer set, the register accesses to
control and status registers, and the machine-mode system instructions. -/

namespace RiscvSoc

/-- A decoded instruction. A `reservedLoad` drives the address of a load but has no access size;
`reserved` stands for every other word without a meaning. -/
inductive Instruction where
  | lui (rd : RegIndex) (imm : UInt32)
  | auipc (rd : RegIndex) (imm : UInt32)
  | jal (rd : RegIndex) (imm : UInt32)
  | jalr (rd rs1 : RegIndex) (imm : UInt32)
  | branch (condition : Comparison) (rs1 rs2 : RegIndex) (imm : UInt32)
  | load (kind : LoadKind) (rd rs1 : RegIndex) (imm : UInt32)
  | reservedLoad (rs1 : RegIndex) (imm : UInt32)
  | store (width : StoreWidth) (rs1 rs2 : RegIndex) (imm : UInt32)
  | aluImm (op : AluOp) (rd rs1 : RegIndex) (imm : UInt32)
  | alu (op : AluOp) (rd rs1 rs2 : RegIndex)
  | fence
  | csr (access : CsrAccess) (rd source : RegIndex) (address : UInt32)
  | ecall
  | ebreak
  | mret
  | wfi
  | reserved
  deriving DecidableEq

namespace Instruction

def ecallWord : UInt32 := 0x00000073
def ebreakWord : UInt32 := 0x00100073
def mretWord : UInt32 := 0x30200073
def wfiWord : UInt32 := 0x10500073

/-- System instructions: a zero minor opcode selects one of four exact words. -/
def ofSystem (f : Fields) : Instruction :=
  if f.funct3 = 0 then
    if f.raw = ecallWord then .ecall
    else if f.raw = ebreakWord then .ebreak
    else if f.raw = mretWord then .mret
    else if f.raw = wfiWord then .wfi
    else .reserved
  else
    match CsrAccess.ofFunct3? f.funct3.toNat with
    | some access => .csr access f.rd f.rs1 (.ofBitVec (f.csr.setWidth 32))
    | none => .reserved

def ofFields (f : Fields) : Instruction :=
  let imm := UInt32.ofBitVec f.imm
  match Opcode.ofBits? f.opcode with
  | none => .reserved
  | some .lui => .lui f.rd imm
  | some .auipc => .auipc f.rd imm
  | some .jal => .jal f.rd imm
  | some .jalr => .jalr f.rd f.rs1 imm
  | some .branch =>
    match Comparison.ofFunct3? f.funct3.toNat with
    | some condition => .branch condition f.rs1 f.rs2 imm
    | none => .reserved
  | some .load =>
    match LoadKind.ofFunct3? f.funct3.toNat with
    | some kind => .load kind f.rd f.rs1 imm
    | none => .reservedLoad f.rs1 imm
  | some .store =>
    match StoreWidth.ofFunct3? f.funct3.toNat with
    | some width => .store width f.rs1 f.rs2 imm
    | none => .reserved
  | some .opImm =>
    match AluOp.ofImmediateForm? f.funct7.toNat f.funct3.toNat with
    | some op => .aluImm op f.rd f.rs1 imm
    | none => .reserved
  | some .op =>
    match AluOp.ofRegisterForm? f.funct7.toNat f.funct3.toNat with
    | some op => .alu op f.rd f.rs1 f.rs2
    | none => .reserved
  | some .miscMem => .fence
  | some .system => ofSystem f

def decode (word : UInt32) : Instruction :=
  ofFields (.ofWord word)

/-- Loads of any access size, the reserved ones included. -/
def isLoad : Instruction → Bool
  | .load .. => true
  | .reservedLoad .. => true
  | _ => false

end Instruction

end RiscvSoc
