import RiscvSoc.Isa.Encoding

/-! Taking apart what the formats put together: each field of an assembled word is what went in, and
the immediate comes back with its sign. The other way round, every word is the assembly of its own
fields. -/

namespace RiscvSoc

section

variable (opcode : BitVec 7) (rd rs1 rs2 : RegIndex) (funct3 : BitVec 3) (funct7 : BitVec 7)
  (imm : BitVec 12) (long : BitVec 20)

namespace Fields

theorem imm_of_opcode {word : UInt32} {o : Opcode} (h : (ofWord word).opcode = o.bits) :
    (ofWord word).imm = o.format.immediate word.toBitVec := by
  have hbits : word.toBitVec.extractLsb' 0 7 = o.bits := h
  simp only [ofWord, hbits, Opcode.ofBits?_bits]

theorem ofWord_r :
    let f := ofWord (Encoding.r opcode rd funct3 rs1 rs2 funct7)
    f.opcode = opcode ∧ f.rd = rd ∧ f.funct3 = funct3 ∧ f.rs1 = rs1 ∧ f.rs2 = rs2 ∧
      f.funct7 = funct7 := by
  refine ⟨?_, ?_, ?_, ?_, ?_, ?_⟩ <;>
    simp (disch := decide) only [ofWord, Encoding.r, BitVec.extractLsb'_append_eq_of_add_le,
      BitVec.extractLsb'_append_eq_of_le, BitVec.extractLsb'_eq_self, Nat.reduceSub]

theorem ofWord_i :
    let f := ofWord (Encoding.i opcode rd funct3 rs1 imm)
    f.opcode = opcode ∧ f.rd = rd ∧ f.funct3 = funct3 ∧ f.rs1 = rs1 ∧ f.csr = imm ∧
      f.funct7 = imm.extractLsb' 5 7 := by
  refine ⟨?_, ?_, ?_, ?_, ?_, ?_⟩ <;>
    simp (disch := decide) only [ofWord, Encoding.i, BitVec.extractLsb'_append_eq_of_add_le,
      BitVec.extractLsb'_append_eq_of_le, BitVec.extractLsb'_eq_self, Nat.reduceSub]

theorem ofWord_s :
    let f := ofWord (Encoding.s opcode funct3 rs1 rs2 imm)
    f.opcode = opcode ∧ f.funct3 = funct3 ∧ f.rs1 = rs1 ∧ f.rs2 = rs2 := by
  refine ⟨?_, ?_, ?_, ?_⟩ <;>
    simp (disch := decide) only [ofWord, Encoding.s, BitVec.extractLsb'_append_eq_of_add_le,
      BitVec.extractLsb'_append_eq_of_le, BitVec.extractLsb'_eq_self, Nat.reduceSub]

theorem ofWord_b :
    let f := ofWord (Encoding.b opcode funct3 rs1 rs2 imm)
    f.opcode = opcode ∧ f.funct3 = funct3 ∧ f.rs1 = rs1 ∧ f.rs2 = rs2 := by
  refine ⟨?_, ?_, ?_, ?_⟩ <;>
    simp (disch := decide) only [ofWord, Encoding.b, BitVec.extractLsb'_append_eq_of_add_le,
      BitVec.extractLsb'_append_eq_of_le, BitVec.extractLsb'_eq_self, Nat.reduceSub]

theorem ofWord_u :
    let f := ofWord (Encoding.u opcode rd long)
    f.opcode = opcode ∧ f.rd = rd := by
  refine ⟨?_, ?_⟩ <;>
    simp (disch := decide) only [ofWord, Encoding.u, BitVec.extractLsb'_append_eq_of_add_le,
      BitVec.extractLsb'_append_eq_of_le, BitVec.extractLsb'_eq_self, Nat.reduceSub]

theorem ofWord_j :
    let f := ofWord (Encoding.j opcode rd long)
    f.opcode = opcode ∧ f.rd = rd := by
  refine ⟨?_, ?_⟩ <;>
    simp (disch := decide) only [ofWord, Encoding.j, BitVec.extractLsb'_append_eq_of_add_le,
      BitVec.extractLsb'_append_eq_of_le, BitVec.extractLsb'_eq_self, Nat.reduceSub]

end Fields

namespace Format

theorem immediate_i :
    Format.i.immediate (Encoding.i opcode rd funct3 rs1 imm).toBitVec = imm.signExtend 32 := by
  simp (disch := decide) only [immediate, Encoding.i, BitVec.extractLsb'_append_eq_of_le,
    BitVec.extractLsb'_eq_self, Nat.reduceSub]

theorem immediate_s :
    Format.s.immediate (Encoding.s opcode funct3 rs1 rs2 imm).toBitVec = imm.signExtend 32 := by
  simp (disch := decide) only [immediate, Encoding.s, BitVec.extractLsb'_append_eq_of_le,
    BitVec.extractLsb'_append_eq_of_add_le, BitVec.extractLsb'_eq_self, Nat.reduceSub]
  rw [BitVec.extractLsb'_append_extractLsb']

theorem immediate_b :
    Format.b.immediate (Encoding.b opcode funct3 rs1 rs2 imm).toBitVec =
      (imm ++ 0#1).signExtend 32 := by
  simp (disch := decide) only [immediate, Encoding.b, BitVec.extractLsb'_append_eq_of_le,
    BitVec.extractLsb'_append_eq_of_add_le, BitVec.extractLsb'_eq_self, Nat.reduceSub]
  rw [BitVec.extractLsb'_append_extractLsb'_eq_extractLsb' (show 11 = 10 + 1 from rfl),
    BitVec.extractLsb'_append_extractLsb'_eq_extractLsb' (show 10 = 4 + 6 from rfl),
    BitVec.extractLsb'_append_extractLsb'_eq_extractLsb' (show 4 = 0 + 4 from rfl),
    BitVec.extractLsb'_eq_self]

theorem immediate_u :
    Format.u.immediate (Encoding.u opcode rd long).toBitVec = long ++ 0#12 := by
  simp (disch := decide) only [immediate, Encoding.u, BitVec.extractLsb'_append_eq_of_le,
    BitVec.extractLsb'_eq_self, Nat.reduceSub]

theorem immediate_j :
    Format.j.immediate (Encoding.j opcode rd long).toBitVec = (long ++ 0#1).signExtend 32 := by
  simp (disch := decide) only [immediate, Encoding.j, BitVec.extractLsb'_append_eq_of_le,
    BitVec.extractLsb'_append_eq_of_add_le, BitVec.extractLsb'_eq_self, Nat.reduceSub]
  rw [BitVec.extractLsb'_append_extractLsb'_eq_extractLsb' (show 19 = 11 + 8 from rfl),
    BitVec.extractLsb'_append_extractLsb'_eq_extractLsb' (show 11 = 10 + 1 from rfl),
    BitVec.extractLsb'_append_extractLsb'_eq_extractLsb' (show 10 = 0 + 10 from rfl),
    BitVec.extractLsb'_eq_self]

end Format

namespace Fields

variable {o : Opcode} {word : UInt32}

theorem immediate_of_opcode (h : (ofWord word).opcode = o.bits) :
    (ofWord word).immediate = (o.format.immediate word.toBitVec).toInt := by
  rw [immediate, imm_of_opcode h]

theorem immediate_plain (ho : o.format = .plain) (h : (ofWord word).opcode = o.bits) :
    (ofWord word).immediate = 0 := by
  rw [immediate_of_opcode h, ho]
  rfl

theorem immediate_i (ho : o.format = .i) :
    (ofWord (Encoding.i o.bits rd funct3 rs1 imm)).immediate = imm.toInt := by
  rw [immediate_of_opcode (ofWord_i _ _ _ _ _).1, ho, Format.immediate_i,
    BitVec.toInt_signExtend_of_le (by decide)]

theorem immediate_s (ho : o.format = .s) :
    (ofWord (Encoding.s o.bits funct3 rs1 rs2 imm)).immediate = imm.toInt := by
  rw [immediate_of_opcode (ofWord_s _ _ _ _ _).1, ho, Format.immediate_s,
    BitVec.toInt_signExtend_of_le (by decide)]

theorem immediate_b (ho : o.format = .b) :
    (ofWord (Encoding.b o.bits funct3 rs1 rs2 imm)).immediate = 2 * imm.toInt := by
  rw [immediate_of_opcode (ofWord_b _ _ _ _ _).1, ho, Format.immediate_b,
    BitVec.toInt_signExtend_of_le (by decide), BitVec.toInt_append_zero]
  rfl

theorem immediate_u (ho : o.format = .u) :
    (ofWord (Encoding.u o.bits rd long)).immediate = 4096 * long.toInt := by
  rw [immediate_of_opcode (ofWord_u _ _ _).1, ho, Format.immediate_u, BitVec.toInt_append_zero]
  rfl

theorem immediate_j (ho : o.format = .j) :
    (ofWord (Encoding.j o.bits rd long)).immediate = 2 * long.toInt := by
  rw [immediate_of_opcode (ofWord_j _ _ _).1, ho, Format.immediate_j,
    BitVec.toInt_signExtend_of_le (by decide), BitVec.toInt_append_zero]
  rfl

end Fields

end

namespace Fields

variable (word : UInt32)

/-- The fields of a word, assembled in the register format, are the word. -/
theorem eq_r {f : Fields} (h : ofWord word = f) :
    word = Encoding.r f.opcode f.rd f.funct3 f.rs1 f.rs2 f.funct7 := by
  subst h
  rw [← UInt32.toBitVec_inj]
  simp only [ofWord, Encoding.r]
  rw [BitVec.extractLsb'_append_extractLsb'_eq_extractLsb' (show 25 = 20 + 5 from rfl),
    BitVec.extractLsb'_append_extractLsb'_eq_extractLsb' (show 20 = 15 + 5 from rfl),
    BitVec.extractLsb'_append_extractLsb'_eq_extractLsb' (show 15 = 12 + 3 from rfl),
    BitVec.extractLsb'_append_extractLsb'_eq_extractLsb' (show 12 = 7 + 5 from rfl),
    BitVec.extractLsb'_append_extractLsb'_eq_extractLsb' (show 7 = 0 + 7 from rfl),
    BitVec.extractLsb'_eq_self]

theorem eq_i {f : Fields} (h : ofWord word = f) :
    word = Encoding.i f.opcode f.rd f.funct3 f.rs1 (f.funct7 ++ f.rs2) :=
  eq_r word h

theorem eq_s {f : Fields} (h : ofWord word = f) :
    word = Encoding.s f.opcode f.funct3 f.rs1 f.rs2 (f.funct7 ++ f.rd) := by
  have hupper : (f.funct7 ++ f.rd).extractLsb' 5 7 = f.funct7 := BitVec.extractLsb'_append_eq_left
  have hlower : (f.funct7 ++ f.rd).extractLsb' 0 5 = f.rd := BitVec.extractLsb'_append_eq_right
  rw [Encoding.s, hupper, hlower]
  exact eq_r word h

theorem exists_b {f : Fields} (h : ofWord word = f) :
    ∃ imm, word = Encoding.b f.opcode f.funct3 f.rs1 f.rs2 imm := by
  subst h
  let w := word.toBitVec
  refine ⟨w.extractLsb' 31 1 ++ w.extractLsb' 7 1 ++ w.extractLsb' 25 6 ++ w.extractLsb' 8 4, ?_⟩
  rw [← UInt32.toBitVec_inj]
  simp (disch := decide) only [w, ofWord, Encoding.b, BitVec.extractLsb'_append_eq_of_le,
    BitVec.extractLsb'_append_eq_of_add_le, BitVec.extractLsb'_eq_self, Nat.reduceSub]
  rw [BitVec.extractLsb'_append_extractLsb'_eq_extractLsb' (show 31 = 25 + 6 from rfl),
    BitVec.extractLsb'_append_extractLsb'_eq_extractLsb' (show 25 = 20 + 5 from rfl),
    BitVec.extractLsb'_append_extractLsb'_eq_extractLsb' (show 20 = 15 + 5 from rfl),
    BitVec.extractLsb'_append_extractLsb'_eq_extractLsb' (show 15 = 12 + 3 from rfl),
    BitVec.extractLsb'_append_extractLsb'_eq_extractLsb' (show 12 = 8 + 4 from rfl),
    BitVec.extractLsb'_append_extractLsb'_eq_extractLsb' (show 8 = 7 + 1 from rfl),
    BitVec.extractLsb'_append_extractLsb'_eq_extractLsb' (show 7 = 0 + 7 from rfl),
    BitVec.extractLsb'_eq_self]

theorem exists_u {f : Fields} (h : ofWord word = f) :
    ∃ imm, word = Encoding.u f.opcode f.rd imm := by
  subst h
  refine ⟨word.toBitVec.extractLsb' 12 20, ?_⟩
  rw [← UInt32.toBitVec_inj]
  simp only [ofWord, Encoding.u]
  rw [BitVec.extractLsb'_append_extractLsb'_eq_extractLsb' (show 12 = 7 + 5 from rfl),
    BitVec.extractLsb'_append_extractLsb'_eq_extractLsb' (show 7 = 0 + 7 from rfl),
    BitVec.extractLsb'_eq_self]

theorem exists_j {f : Fields} (h : ofWord word = f) :
    ∃ imm, word = Encoding.j f.opcode f.rd imm := by
  subst h
  let w := word.toBitVec
  refine ⟨w.extractLsb' 31 1 ++ w.extractLsb' 12 8 ++ w.extractLsb' 20 1 ++ w.extractLsb' 21 10, ?_⟩
  rw [← UInt32.toBitVec_inj]
  simp (disch := decide) only [w, ofWord, Encoding.j, BitVec.extractLsb'_append_eq_of_le,
    BitVec.extractLsb'_append_eq_of_add_le, BitVec.extractLsb'_eq_self, Nat.reduceSub]
  rw [BitVec.extractLsb'_append_extractLsb'_eq_extractLsb' (show 31 = 21 + 10 from rfl),
    BitVec.extractLsb'_append_extractLsb'_eq_extractLsb' (show 21 = 20 + 1 from rfl),
    BitVec.extractLsb'_append_extractLsb'_eq_extractLsb' (show 20 = 12 + 8 from rfl),
    BitVec.extractLsb'_append_extractLsb'_eq_extractLsb' (show 12 = 7 + 5 from rfl),
    BitVec.extractLsb'_append_extractLsb'_eq_extractLsb' (show 7 = 0 + 7 from rfl),
    BitVec.extractLsb'_eq_self]

end Fields

end RiscvSoc
