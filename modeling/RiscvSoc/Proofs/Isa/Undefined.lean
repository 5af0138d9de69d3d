import RiscvSoc.Proofs.Isa.Base

/-! Words that encode no instruction. A word is the assembly of its own fields, so the fields tell
whether an assembler can have made it; for all other words, decoding finds nothing to do, except
that a jump through a register does not look at its minor opcode. -/

namespace RiscvSoc

theorem Comparison.funct3_of_ofFunct3? {b : BitVec 3} {c : Comparison}
    (h : ofFunct3? b.toNat = some c) : c.funct3 = b := by
  revert b c
  decide

theorem LoadKind.funct3_of_ofFunct3? {b : BitVec 3} {k : LoadKind}
    (h : ofFunct3? b.toNat = some k) : k.funct3 = b := by
  revert b k
  decide

theorem StoreWidth.funct3_of_ofFunct3? {b : BitVec 3} {w : StoreWidth}
    (h : ofFunct3? b.toNat = some w) : w.funct3 = b := by
  revert b w
  decide

theorem AluOp.funct_of_ofRegisterForm? {f7 : BitVec 7} {f3 : BitVec 3} {op : AluOp}
    (h : ofRegisterForm? f7.toNat f3.toNat = some op) : op.funct7 = f7 ∧ op.funct3 = f3 := by
  rw [← BitVec.toNat_inj, ← BitVec.toNat_inj (y := f3)]
  unfold ofRegisterForm? at h
  split at h <;> cases h <;> exact ⟨Eq.symm ‹_›, Eq.symm ‹_›⟩

/-- The minor opcode alone gives an operation with a full immediate; a shift needs its upper
bits. -/
theorem AluOp.funct_of_ofImmediateForm? {f7 : BitVec 7} {f3 : BitVec 3} {op : AluOp}
    (h : ofImmediateForm? f7.toNat f3.toNat = some op) :
    (∃ o : ImmediateOp, o.alu.funct3 = f3) ∨
      ∃ o : ShiftOp, o.alu.funct3 = f3 ∧ o.alu.funct7 = f7 := by
  simp only [← BitVec.toNat_inj]
  unfold ofImmediateForm? at h
  split at h
  case h_2 h3 =>
    split at h
    · exact .inr ⟨.sll, h3.symm, Eq.symm ‹_›⟩
    · cases h
  case h_6 h3 =>
    split at h
    · exact .inr ⟨.srl, h3.symm, Eq.symm ‹_›⟩
    · split at h
      · exact .inr ⟨.sra, h3.symm, Eq.symm ‹_›⟩
      · cases h
  case h_9 => cases h
  case h_1 h3 => exact .inl ⟨.add, h3.symm⟩
  case h_3 h3 => exact .inl ⟨.slt, h3.symm⟩
  case h_4 h3 => exact .inl ⟨.sltu, h3.symm⟩
  case h_5 h3 => exact .inl ⟨.xor, h3.symm⟩
  case h_7 h3 => exact .inl ⟨.or, h3.symm⟩
  case h_8 h3 => exact .inl ⟨.and, h3.symm⟩

def CsrAccess.funct3 (a : CsrAccess) : BitVec 3 :=
  let minor := match a.update with
    | .write => 1
    | .set => 2
    | .clear => 3
  if a.immediate then minor + 4 else minor

theorem CsrAccess.ofFunct3?_funct3 (a : CsrAccess) : ofFunct3? a.funct3.toNat = some a := by
  obtain ⟨update, immediate⟩ := a
  cases update <;> cases immediate <;> rfl

theorem CsrAccess.funct3_of_ofFunct3? {b : BitVec 3} {a : CsrAccess}
    (h : ofFunct3? b.toNat = some a) : a.funct3 = b := by
  revert b a
  decide

/-- The words that encode something: a base instruction, a fence of the instruction stream, an
access to a control and status register, or one of four system instructions. -/
inductive ValidEncoding : UInt32 → Prop where
  | base (ins : BaseInstruction) : ValidEncoding ins.encode
  | fenceInstructions (rd rs1 : RegIndex) (imm : BitVec 12) :
    ValidEncoding (Encoding.i Opcode.miscMem.bits rd 1 rs1 imm)
  | csr (access : CsrAccess) (rd source : RegIndex) (address : BitVec 12) :
    ValidEncoding (Encoding.i Opcode.system.bits rd access.funct3 source address)
  | ecall : ValidEncoding Instruction.ecallWord
  | ebreak : ValidEncoding Instruction.ebreakWord
  | mret : ValidEncoding Instruction.mretWord
  | wfi : ValidEncoding Instruction.wfiWord

namespace Instruction

def isInert : Instruction → Bool
  | .reservedLoad .. | .fence | .wfi | .reserved => true
  | _ => false

end Instruction

open Instruction

variable {word : UInt32}

theorem decode_jalr (rd rs1 : RegIndex) (funct3 : BitVec 3) (imm : BitVec 12) :
    decode (Encoding.i Opcode.jalr.bits rd funct3 rs1 imm) = .jalr rd rs1 (.ofInt imm.toInt) := by
  obtain ⟨hop, hrd, -, hrs1, -, -⟩ := Fields.ofWord_i Opcode.jalr.bits rd rs1 funct3 imm
  rw [decode, ofFields]
  simp only [hop, Opcode.ofBits?_bits, hrd, hrs1, Fields.ofBitVec_imm,
    Fields.immediate_i (o := .jalr) rd rs1 funct3 imm rfl]

/-- A system instruction does something only if it is one of the four, or an access. -/
theorem isInert_ofSystem {f : Fields} (hf : Fields.ofWord word = f)
    (hop : f.opcode = Opcode.system.bits) (h : ¬ ValidEncoding word) :
    (ofSystem f).isInert = true := by
  have hne : ∀ valid, ValidEncoding valid → word ≠ valid := fun valid hv he => h (he ▸ hv)
  have hraw : f.raw = word := hf ▸ rfl
  rw [ofSystem, hraw, if_neg (hne _ .ecall), if_neg (hne _ .ebreak), if_neg (hne _ .mret),
    if_neg (hne _ .wfi)]
  split
  · rfl
  · cases ha : CsrAccess.ofFunct3? f.funct3.toNat with
    | none => rfl
    | some access =>
      have hi := Fields.eq_i word hf
      rw [hop, ← CsrAccess.funct3_of_ofFunct3? ha] at hi
      exact absurd hi (hne _ (.csr access _ _ _))

/-- A word that encodes nothing decodes to an instruction that does nothing, unless it is a jump
through a register with a minor opcode that is not zero. -/
theorem inert_or_jalr (h : ¬ ValidEncoding word) :
    (decode word).isInert = true ∨
      ∃ rd funct3 rs1 imm, funct3 ≠ 0 ∧ word = Encoding.i Opcode.jalr.bits rd funct3 rs1 imm := by
  have hne : ∀ valid, ValidEncoding valid → word ≠ valid := fun valid hv he => h (he ▸ hv)
  obtain ⟨f, hf⟩ : ∃ f, Fields.ofWord word = f := ⟨_, rfl⟩
  have hi := Fields.eq_i word hf
  rw [decode, hf, ofFields]
  cases hop : Opcode.ofBits? f.opcode with
  | none => exact .inl rfl
  | some o =>
    have hbits := (Opcode.bits_of_ofBits? hop).symm
    rw [hbits] at hi
    cases o with
    | lui =>
      obtain ⟨imm, hu⟩ := Fields.exists_u word hf
      rw [hbits] at hu
      exact absurd hu (hne _ (.base (.lui _ imm)))
    | auipc =>
      obtain ⟨imm, hu⟩ := Fields.exists_u word hf
      rw [hbits] at hu
      exact absurd hu (hne _ (.base (.auipc _ imm)))
    | jal =>
      obtain ⟨imm, hj⟩ := Fields.exists_j word hf
      rw [hbits] at hj
      exact absurd hj (hne _ (.base (.jal _ imm)))
    | jalr =>
      refine .inr ⟨_, _, _, _, fun hzero => ?_, hi⟩
      rw [hzero] at hi
      exact hne _ (.base (.jalr _ _ _)) hi
    | branch =>
      cases hc : Comparison.ofFunct3? f.funct3.toNat with
      | none => exact .inl rfl
      | some condition =>
        obtain ⟨imm, hb⟩ := Fields.exists_b word hf
        rw [hbits, ← Comparison.funct3_of_ofFunct3? hc] at hb
        exact absurd hb (hne _ (.base (.branch condition _ _ imm)))
    | load =>
      cases hk : LoadKind.ofFunct3? f.funct3.toNat with
      | none => exact .inl rfl
      | some kind =>
        rw [← LoadKind.funct3_of_ofFunct3? hk] at hi
        exact absurd hi (hne _ (.base (.load kind _ _ _)))
    | store =>
      cases hw : StoreWidth.ofFunct3? f.funct3.toNat with
      | none => exact .inl rfl
      | some width =>
        have hs := Fields.eq_s word hf
        rw [hbits, ← StoreWidth.funct3_of_ofFunct3? hw] at hs
        exact absurd hs (hne _ (.base (.store width _ _ _)))
    | opImm =>
      cases ho : AluOp.ofImmediateForm? f.funct7.toNat f.funct3.toNat with
      | none => exact .inl rfl
      | some op =>
        rcases AluOp.funct_of_ofImmediateForm? ho with ⟨o, hfunct⟩ | ⟨o, hfunct, hupper⟩
        · rw [← hfunct] at hi
          exact absurd hi (hne _ (.base (.immediate o _ _ _)))
        · rw [← hfunct, ← hupper] at hi
          exact absurd hi (hne _ (.base (.shift o _ _ _)))
    | op =>
      cases ho : AluOp.ofRegisterForm? f.funct7.toNat f.funct3.toNat with
      | none => exact .inl rfl
      | some op =>
        obtain ⟨hupper, hfunct⟩ := AluOp.funct_of_ofRegisterForm? ho
        have hr := Fields.eq_r word hf
        rw [hbits, ← hfunct, ← hupper] at hr
        exact absurd hr (hne _ (.base (.register op _ _ _)))
    | miscMem => exact .inl rfl
    | system => exact .inl (isInert_ofSystem hf hbits h)

/-- An assembler leaves the minor opcode of a jump through a register zero. -/
theorem ValidEncoding.funct3_of_jalr (h : ValidEncoding word)
    (hop : (Fields.ofWord word).opcode = Opcode.jalr.bits) : (Fields.ofWord word).funct3 = 0 := by
  cases h with
  | base ins =>
    have hd := ins.decode_encode
    rw [decode, ofFields, hop, Opcode.ofBits?_bits] at hd
    cases ins with
    | jalr rd rs1 imm => exact (Fields.ofWord_i _ _ _ _ _).2.2.1
    | _ => cases hd
  | fenceInstructions rd rs1 imm =>
    have hother := (Fields.ofWord_i Opcode.miscMem.bits rd rs1 1 imm).1.symm.trans hop
    exact absurd hother (by decide)
  | csr access rd source address =>
    have hother :=
      (Fields.ofWord_i Opcode.system.bits rd source access.funct3 address).1.symm.trans hop
    exact absurd hother (by decide)
  | ecall => rfl
  | ebreak => rfl
  | mret => rfl
  | wfi => rfl

theorem not_validEncoding_jalr {rd rs1 : RegIndex} {funct3 : BitVec 3} {imm : BitVec 12}
    (h : funct3 ≠ 0) : ¬ ValidEncoding (Encoding.i Opcode.jalr.bits rd funct3 rs1 imm) := by
  obtain ⟨hop, -, hfunct, -⟩ := Fields.ofWord_i Opcode.jalr.bits rd rs1 funct3 imm
  intro hv
  exact h (hfunct.symm.trans (hv.funct3_of_jalr hop))

end RiscvSoc
