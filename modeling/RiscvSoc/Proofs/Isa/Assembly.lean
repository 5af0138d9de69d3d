import Mathlib.Algebra.Ring.Int.Defs
import RiscvSoc.Proofs.Isa.Formats

namespace RiscvSoc

/-- What the formats place around the opcode, with the immediate as a signed number. -/
structure Operands where
  rd : RegIndex
  rs1 : RegIndex
  rs2 : RegIndex
  funct3 : BitVec 3
  funct7 : BitVec 7
  imm : Int
  deriving DecidableEq

/-- The numbers that the immediate bits of a format can spell. Offsets of branches and jumps are
even, and upper immediates have no bit below the twelfth. -/
def Format.Holds : Format → Int → Prop
  | .plain, n => n = 0
  | .i, n | .s, n => -2048 ≤ n ∧ n < 2048
  | .b, n => -4096 ≤ n ∧ n < 4096 ∧ 2 ∣ n
  | .u, n => -2147483648 ≤ n ∧ n < 2147483648 ∧ 4096 ∣ n
  | .j, n => -1048576 ≤ n ∧ n < 1048576 ∧ 2 ∣ n

/-- The word of an opcode: the operands that its format has, and the low bits of the immediate. -/
def Opcode.assemble (o : Opcode) (x : Operands) : UInt32 :=
  match o.format with
  | .plain => Encoding.r o.bits x.rd x.funct3 x.rs1 x.rs2 x.funct7
  | .i => Encoding.i o.bits x.rd x.funct3 x.rs1 (.ofInt 12 x.imm)
  | .s => Encoding.s o.bits x.funct3 x.rs1 x.rs2 (.ofInt 12 x.imm)
  | .b => Encoding.b o.bits x.funct3 x.rs1 x.rs2 (.ofInt 12 (x.imm / 2))
  | .u => Encoding.u o.bits x.rd (.ofInt 20 (x.imm / 4096))
  | .j => Encoding.j o.bits x.rd (.ofInt 20 (x.imm / 2))

/-- Operands that agree wherever a format has a field. -/
def Format.Agree (x y : Operands) : Format → Prop
  | .plain => x.rd = y.rd ∧ x.funct3 = y.funct3 ∧ x.rs1 = y.rs1 ∧ x.rs2 = y.rs2 ∧
      x.funct7 = y.funct7
  | .i => x.rd = y.rd ∧ x.funct3 = y.funct3 ∧ x.rs1 = y.rs1
  | .s | .b => x.funct3 = y.funct3 ∧ x.rs1 = y.rs1 ∧ x.rs2 = y.rs2
  | .u | .j => x.rd = y.rd

namespace Fields

def operands (f : Fields) : Operands :=
  { rd := f.rd, rs1 := f.rs1, rs2 := f.rs2, funct3 := f.funct3, funct7 := f.funct7
    imm := f.immediate }

end Fields

namespace Format

theorem holds_i (bits : BitVec 12) : Format.i.Holds bits.toInt :=
  ⟨bits.le_toInt, BitVec.toInt_lt⟩

theorem holds_b (bits : BitVec 12) : Format.b.Holds (2 * bits.toInt) := by
  have hlo : -2048 ≤ bits.toInt := bits.le_toInt
  have hhi : bits.toInt < 2048 := BitVec.toInt_lt
  exact ⟨by omega, by omega, Int.dvd_mul_right _ _⟩

theorem holds_u (bits : BitVec 20) : Format.u.Holds (4096 * bits.toInt) := by
  have hlo : -524288 ≤ bits.toInt := bits.le_toInt
  have hhi : bits.toInt < 524288 := BitVec.toInt_lt
  exact ⟨by omega, by omega, Int.dvd_mul_right _ _⟩

theorem holds_j (bits : BitVec 20) : Format.j.Holds (2 * bits.toInt) := by
  have hlo : -524288 ≤ bits.toInt := bits.le_toInt
  have hhi : bits.toInt < 524288 := BitVec.toInt_lt
  exact ⟨by omega, by omega, Int.dvd_mul_right _ _⟩

end Format

/-- A number whose quotient by `unit` fits into the bits is what they spell in this unit. -/
theorem mul_toInt_ofInt {w : Nat} {unit n : Int} (hw : 0 < w) (hdvd : unit ∣ n)
    (hlo : -2 ^ (w - 1) ≤ n / unit) (hhi : n / unit < 2 ^ (w - 1)) :
    unit * (BitVec.ofInt w (n / unit)).toInt = n := by
  rw [BitVec.toInt_ofInt_eq_self hw hlo hhi, Int.mul_ediv_cancel' hdvd]

/-- What bits spell in some unit has them as its own. -/
theorem ofInt_mul_toInt_div {w : Nat} {unit : Int} (hunit : unit ≠ 0) (bits : BitVec w) :
    BitVec.ofInt w (unit * bits.toInt / unit) = bits := by
  rw [Int.mul_ediv_cancel_left _ hunit, BitVec.ofInt_toInt]

namespace Opcode

variable {o : Opcode} {word : UInt32}

theorem decode_assemble {x : Operands} (hx : o.format.Holds x.imm) :
    let f := Fields.ofWord (o.assemble x)
    f.opcode = o.bits ∧ o.format.Agree f.operands x ∧ f.immediate = x.imm := by
  rw [assemble]
  cases ho : o.format with
  | plain =>
    obtain ⟨hop, hrd, hfunct, hrs1, hrs2, hupper⟩ :=
      Fields.ofWord_r o.bits x.rd x.rs1 x.rs2 x.funct3 x.funct7
    rw [ho] at hx
    exact ⟨hop, ⟨hrd, hfunct, hrs1, hrs2, hupper⟩, (Fields.immediate_plain ho hop).trans hx.symm⟩
  | i =>
    obtain ⟨hop, hrd, hfunct, hrs1, -⟩ :=
      Fields.ofWord_i o.bits x.rd x.rs1 x.funct3 (.ofInt 12 x.imm)
    rw [ho] at hx
    refine ⟨hop, ⟨hrd, hfunct, hrs1⟩, (Fields.immediate_i _ _ _ _ ho).trans ?_⟩
    exact BitVec.toInt_ofInt_eq_self (by decide) hx.1 hx.2
  | s =>
    obtain ⟨hop, hfunct, hrs1, hrs2⟩ :=
      Fields.ofWord_s o.bits x.rs1 x.rs2 x.funct3 (.ofInt 12 x.imm)
    rw [ho] at hx
    refine ⟨hop, ⟨hfunct, hrs1, hrs2⟩, (Fields.immediate_s _ _ _ _ ho).trans ?_⟩
    exact BitVec.toInt_ofInt_eq_self (by decide) hx.1 hx.2
  | b =>
    obtain ⟨hop, hfunct, hrs1, hrs2⟩ :=
      Fields.ofWord_b o.bits x.rs1 x.rs2 x.funct3 (.ofInt 12 (x.imm / 2))
    rw [ho] at hx
    obtain ⟨hlo, hhi, hdvd⟩ := hx
    refine ⟨hop, ⟨hfunct, hrs1, hrs2⟩, (Fields.immediate_b _ _ _ _ ho).trans ?_⟩
    exact mul_toInt_ofInt (by decide) hdvd (by omega) (by omega)
  | u =>
    obtain ⟨hop, hrd⟩ := Fields.ofWord_u o.bits x.rd (.ofInt 20 (x.imm / 4096))
    rw [ho] at hx
    obtain ⟨hlo, hhi, hdvd⟩ := hx
    refine ⟨hop, hrd, (Fields.immediate_u _ _ ho).trans ?_⟩
    exact mul_toInt_ofInt (by decide) hdvd (by omega) (by omega)
  | j =>
    obtain ⟨hop, hrd⟩ := Fields.ofWord_j o.bits x.rd (.ofInt 20 (x.imm / 2))
    rw [ho] at hx
    obtain ⟨hlo, hhi, hdvd⟩ := hx
    refine ⟨hop, hrd, (Fields.immediate_j _ _ ho).trans ?_⟩
    exact mul_toInt_ofInt (by decide) hdvd (by omega) (by omega)

theorem assemble_decode (hop : (Fields.ofWord word).opcode = o.bits) :
    o.format.Holds (Fields.ofWord word).immediate ∧
      o.assemble (Fields.ofWord word).operands = word := by
  obtain ⟨f, hf⟩ : ∃ f, Fields.ofWord word = f := ⟨_, rfl⟩
  rw [hf] at hop ⊢
  rw [assemble, Fields.operands]
  -- The bits of the immediate come first; they tell the number, and the number tells them.
  cases ho : o.format with
  | plain =>
    have hr := Fields.eq_r word hf
    rw [hop] at hr
    exact ⟨hf ▸ Fields.immediate_plain ho (hf ▸ hop), hr.symm⟩
  | i =>
    have hi := Fields.eq_i word hf
    rw [hop] at hi
    have himm : f.immediate = (f.funct7 ++ f.rs2).toInt := by
      rw [← Fields.immediate_i f.rd f.rs1 f.funct3 _ ho, ← hi, hf]
    rw [himm, BitVec.ofInt_toInt]
    exact ⟨Format.holds_i _, hi.symm⟩
  | s =>
    have hs := Fields.eq_s word hf
    rw [hop] at hs
    have himm : f.immediate = (f.funct7 ++ f.rd).toInt := by
      rw [← Fields.immediate_s f.rs1 f.rs2 f.funct3 _ ho, ← hs, hf]
    rw [himm, BitVec.ofInt_toInt]
    exact ⟨Format.holds_i _, hs.symm⟩
  | b =>
    obtain ⟨bits, hb⟩ := Fields.exists_b word hf
    rw [hop] at hb
    have himm : f.immediate = 2 * bits.toInt := by
      rw [← Fields.immediate_b f.rs1 f.rs2 f.funct3 bits ho, ← hb, hf]
    rw [himm, ofInt_mul_toInt_div (by decide)]
    exact ⟨Format.holds_b bits, hb.symm⟩
  | u =>
    obtain ⟨bits, hu⟩ := Fields.exists_u word hf
    rw [hop] at hu
    have himm : f.immediate = 4096 * bits.toInt := by
      rw [← Fields.immediate_u f.rd bits ho, ← hu, hf]
    rw [himm, ofInt_mul_toInt_div (by decide)]
    exact ⟨Format.holds_u bits, hu.symm⟩
  | j =>
    obtain ⟨bits, hj⟩ := Fields.exists_j word hf
    rw [hop] at hj
    have himm : f.immediate = 2 * bits.toInt := by
      rw [← Fields.immediate_j f.rd bits ho, ← hj, hf]
    rw [himm, ofInt_mul_toInt_div (by decide)]
    exact ⟨Format.holds_j bits, hj.symm⟩

/-- For every opcode: whatever the fields of its format and an immediate in range, decoding the
assembled word finds the opcode, these fields and this immediate; and every word with the opcode has
an immediate in range and is assembled from its own fields. -/
theorem assemble_inverse (o : Opcode) :
    (∀ x : Operands, o.format.Holds x.imm →
        let f := Fields.ofWord (o.assemble x)
        f.opcode = o.bits ∧ o.format.Agree f.operands x ∧ f.immediate = x.imm) ∧
      ∀ word : UInt32, (Fields.ofWord word).opcode = o.bits →
        o.format.Holds (Fields.ofWord word).immediate ∧
          o.assemble (Fields.ofWord word).operands = word :=
  ⟨fun _ hx => decode_assemble hx, fun _ hop => assemble_decode hop⟩

/-- The branch that reaches farthest back: of its immediate, only the sign bit is set. -/
theorem assemble_inverse_branch :
    let x : Operands := { rd := 0, rs1 := 31, rs2 := 17, funct3 := 5, funct7 := 0, imm := -4096 }
    Opcode.branch.format.Holds x.imm ∧
      (Fields.ofWord 0x811FD063).opcode = Opcode.branch.bits ∧
      (Fields.ofWord (Opcode.branch.assemble x)).immediate = -4096 ∧
      Opcode.branch.assemble (Fields.ofWord 0x811FD063).operands = 0x811FD063 := by
  intro x
  have hx : Opcode.branch.format.Holds x.imm := ⟨by decide, by decide, by decide⟩
  have hop : (Fields.ofWord 0x811FD063).opcode = Opcode.branch.bits := by decide
  obtain ⟨hdecode, hassemble⟩ := assemble_inverse .branch
  exact ⟨hx, hop, (hdecode x hx).2.2, (hassemble _ hop).2⟩

end Opcode

end RiscvSoc
