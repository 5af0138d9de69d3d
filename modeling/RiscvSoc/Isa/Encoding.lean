import RiscvSoc.Isa.Fields

/-! Assembly of instruction words, one function per format. The immediates of branches and jumps are
given without their lowest bit, which is always zero. -/

namespace RiscvSoc.Encoding

def r (opcode : BitVec 7) (rd : RegIndex) (funct3 : BitVec 3) (rs1 rs2 : RegIndex)
    (funct7 : BitVec 7) : UInt32 :=
  .ofBitVec (funct7 ++ rs2 ++ rs1 ++ funct3 ++ rd ++ opcode)

def i (opcode : BitVec 7) (rd : RegIndex) (funct3 : BitVec 3) (rs1 : RegIndex)
    (imm : BitVec 12) : UInt32 :=
  .ofBitVec (imm ++ rs1 ++ funct3 ++ rd ++ opcode)

def s (opcode : BitVec 7) (funct3 : BitVec 3) (rs1 rs2 : RegIndex) (imm : BitVec 12) : UInt32 :=
  .ofBitVec (imm.extractLsb' 5 7 ++ rs2 ++ rs1 ++ funct3 ++ imm.extractLsb' 0 5 ++ opcode)

def b (opcode : BitVec 7) (funct3 : BitVec 3) (rs1 rs2 : RegIndex) (imm : BitVec 12) : UInt32 :=
  .ofBitVec (imm.extractLsb' 11 1 ++ imm.extractLsb' 4 6 ++ rs2 ++ rs1 ++ funct3 ++
    imm.extractLsb' 0 4 ++ imm.extractLsb' 10 1 ++ opcode)

def u (opcode : BitVec 7) (rd : RegIndex) (imm : BitVec 20) : UInt32 :=
  .ofBitVec (imm ++ rd ++ opcode)

def j (opcode : BitVec 7) (rd : RegIndex) (imm : BitVec 20) : UInt32 :=
  .ofBitVec (imm.extractLsb' 19 1 ++ imm.extractLsb' 0 10 ++ imm.extractLsb' 10 1 ++
    imm.extractLsb' 11 8 ++ rd ++ opcode)

end RiscvSoc.Encoding
