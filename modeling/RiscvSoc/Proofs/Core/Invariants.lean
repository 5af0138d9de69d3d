import RiscvSoc.Proofs.Core.LegalCsrs
import RiscvSoc.Proofs.Isa.Assembly

/-! What holds of the core after any run of edges. Register zero is zero also where it is stored,
the trap registers keep to their bits, and with an even reset vector the program counter and the
return address stay even: a jump adds an even offset or clears the lowest bit, and everything else
that reaches them is a multiple of four or one of the two. -/

namespace RiscvSoc

theorem Word.even_add {a b : UInt32} (ha : 2 ∣ a.toNat) (hb : 2 ∣ b.toNat) : 2 ∣ (a + b).toNat := by
  rw [UInt32.toNat_add]
  omega

theorem Word.even_and_not_three (a : UInt32) : 2 ∣ (a &&& ~~~3).toNat := by
  rw [toNat_and_not_three]
  omega

namespace Instruction

/-- What a jump or a branch adds to the program counter. -/
def offset? : Instruction → Option UInt32
  | .jal _ imm | .branch _ _ _ imm => some imm
  | _ => none

variable {word offset : UInt32}

theorem offset?_ofSystem (f : Fields) : (ofSystem f).offset? = none := by
  rw [ofSystem]
  repeat' split
  all_goals rfl

theorem even_of_dvd_immediate {f : Fields} (h : 2 ∣ f.immediate) :
    2 ∣ (UInt32.ofBitVec f.imm).toNat := by
  have hnat := f.imm.toInt_eq_toNat_cond
  rw [Fields.immediate] at h
  rw [UInt32.toNat_ofBitVec]
  split at hnat <;> omega

theorem even_offset (h : (decode word).offset? = some offset) : 2 ∣ offset.toNat := by
  have hdvd : ∀ o : Opcode, Opcode.ofBits? (Fields.ofWord word).opcode = some o →
      (o.format = .b ∨ o.format = .j) →
      2 ∣ (UInt32.ofBitVec (Fields.ofWord word).imm).toNat := by
    intro o ho hformat
    have hholds := (Opcode.assemble_decode (Opcode.bits_of_ofBits? ho).symm).1
    apply even_of_dvd_immediate
    rcases hformat with hb | hj
    · rw [hb] at hholds
      exact hholds.2.2
    · rw [hj] at hholds
      exact hholds.2.2
  rw [decode, ofFields] at h
  cases ho : Opcode.ofBits? (Fields.ofWord word).opcode with
  | none => simp [ho, offset?] at h
  | some o =>
    rw [ho] at h
    cases o with
    | jal =>
      obtain rfl := Option.some.inj h
      exact hdvd .jal ho (.inr rfl)
    | branch =>
      cases hc : Comparison.ofFunct3? (Fields.ofWord word).funct3.toNat with
      | none => simp [hc, offset?] at h
      | some condition =>
        simp only [hc] at h
        obtain rfl := Option.some.inj h
        exact hdvd .branch ho (.inl rfl)
    | system => simp [offset?_ofSystem] at h
    | lui | auipc | jalr | miscMem => simp [offset?] at h
    | load | store | opImm | op =>
      dsimp only at h
      split at h <;> simp [offset?] at h

end Instruction

theorem Registers.zero_write {r : Registers} (h : r.values[0] = 0) (i : Nat) (v : UInt32) :
    (r.write i v).values[0] = 0 := by
  rw [write]
  split
  · exact h
  · rename_i hi
    simp [hi, h]

theorem and_not_of_and_eq {a m : UInt32} (h : a &&& m = a) : a &&& ~~~m = 0 := by
  rw [← h, UInt32.and_assoc, UInt32.and_not_self, UInt32.and_zero]

namespace Core

variable {c : Core} {i : CoreInputs}

theorem misa_writeCsr (c : Csrs) (write : Option (UInt32 × UInt32)) :
    (writeCsr c write).misa = c.misa := by
  obtain hnone | ⟨r, v, -, hset⟩ := writeCsr_cases c write
  · rw [hnone]
  · rw [hset]
    cases r <;> rfl

theorem even_mepc_writeCsr {c : Csrs} (h : 2 ∣ c.mepc.toNat) (write : Option (UInt32 × UInt32)) :
    2 ∣ (writeCsr c write).mepc.toNat := by
  obtain hnone | ⟨r, v, -, hset⟩ := writeCsr_cases c write
  · rwa [hnone]
  · rw [hset]
    cases r with
    | mepc => exact Word.even_and_not_three v
    | _ => exact h

theorem even_nextPc (h : 2 ∣ c.pc.toNat) : 2 ∣ (c.effect i).nextPc.toNat := by
  have hnext : 2 ∣ (c.pc + 4).toNat := Word.even_add h (by decide)
  have hjump : ∀ {offset}, (Instruction.decode i.instruction).offset? = some offset →
      2 ∣ (c.pc + offset).toNat := fun ho => Word.even_add h (Instruction.even_offset ho)
  rw [effect]
  cases hd : Instruction.decode i.instruction with
  | jal rd offset => exact hjump (by rw [hd]; rfl)
  | branch condition rs1 rs2 offset =>
    rw [execute, Effect.nothing]
    split
    · exact hjump (by rw [hd]; rfl)
    · exact hnext
  | jalr rd rs1 offset =>
    show 2 ∣ ((c.reg rs1 + offset) &&& ~~~1).toNat
    rw [Word.toNat_and_not_one]
    exact Nat.dvd_mul_left 2 _
  | _ => exact hnext

/-- What every edge keeps: register zero, the masks, and even addresses. -/
structure Regular (c : Core) : Prop where
  zero : c.registers.values[0] = 0
  masked : c.csrs.Masked
  misa : c.csrs.misa = Csrs.initial.misa
  resetVector : 2 ∣ c.resetVector.toNat
  pc : 2 ∣ c.pc.toNat
  mepc : 2 ∣ c.csrs.mepc.toNat

theorem regular_powerOn {resetVector : UInt32} (h : 2 ∣ resetVector.toNat) :
    (powerOn resetVector).Regular where
  zero := rfl
  masked r _ := Csrs.legal_initial r
  misa := rfl
  resetVector := h
  pc := h
  mepc := Nat.dvd_zero 2

namespace Regular

theorem step (h : c.Regular) (i : CoreInputs) : (c.clockEdge i).1.Regular := by
  have hmasked := masked_clockEdge h.masked i
  have hedge := c.advances_clockEdge i
  generalize (c.clockEdge i).1 = c' at hmasked hedge ⊢
  cases hedge with
  | restart => exact regular_powerOn h.resetVector
  | wait => exact ⟨h.zero, hmasked, h.misa, h.resetVector, h.pc, h.mepc⟩
  | enter =>
    -- The handler starts at a word, and the even program counter becomes the return address.
    exact ⟨h.zero, hmasked, h.misa, h.resetVector, Word.even_and_not_three _, h.pc⟩
  | leave => exact ⟨h.zero, hmasked, h.misa, h.resetVector, h.mepc, h.mepc⟩
  | retire =>
    have hzero : (writeback c.registers (c.effect i).writeback).values[0] = 0 := by
      cases (c.effect i).writeback with
      | none => exact h.zero
      | some write => exact Registers.zero_write h.zero write.1.toNat write.2
    have hmisa : (writeCsr (countCycle c.csrs) (c.effect i).csrWrite).misa = Csrs.initial.misa :=
      (misa_writeCsr _ _).trans h.misa
    have hcounted : 2 ∣ (countCycle c.csrs).mepc.toNat := h.mepc
    exact ⟨hzero, hmasked, hmisa, h.resetVector, even_nextPc h.pc, even_mepc_writeCsr hcounted _⟩

theorem run (h : c.Regular) (is : List CoreInputs) : (c.run is).Regular := by
  induction is generalizing c with
  | nil => exact h
  | cons i is ih => exact ih (h.step i)

end Regular

/-- After any edges from power-on at an even address, whatever they sample: register zero reads zero
in every view, the status register holds the two enable bits at most, the interrupt enables those of
the two sources, the vector is aligned to a word, the instruction set is the initial one, and the
program counter and the return address are even. -/
theorem invariants_of_run {resetVector : UInt32} (h : 2 ∣ resetVector.toNat)
    (is : List CoreInputs) :
    let c := (powerOn resetVector).run is
    (c.registers.read 0 = 0 ∧ c.registers.toList[0]? = some 0 ∧ c.readRegister 0 = 0) ∧
      c.csrs.mstatus &&& ~~~(mieBit ||| mpieBit) = 0 ∧
      c.csrs.mie &&& ~~~mieMask = 0 ∧
      c.csrs.mtvec &&& 3 = 0 ∧
      c.csrs.misa = Csrs.initial.misa ∧
      2 ∣ c.pc.toNat ∧ 2 ∣ c.csrs.mepc.toNat := by
  intro c
  have hc : c.Regular := (regular_powerOn h).run is
  have hsnapshot : c.registers.toList[0]? = some 0 := by
    rw [Registers.toList, Vector.getElem?_toList, Vector.getElem?_eq_getElem (by decide), hc.zero]
  have hvector : c.csrs.mtvec &&& 3 = 0 := by
    have hnot := and_not_of_and_eq (hc.masked .mtvec (by decide))
    rwa [UInt32.not_not] at hnot
  exact ⟨⟨rfl, hsnapshot, rfl⟩, and_not_of_and_eq (hc.masked .mstatus (by decide)),
    and_not_of_and_eq (hc.masked .mie (by decide)), hvector, hc.misa, hc.pc, hc.mepc⟩

/-- An odd value is written to the return address and jumped to; then comes an environment call, and
another odd value for the vector. -/
def oddTargets : List CoreInputs :=
  [executing 0x00700093, executing 0x34109073, executing 0x00008067,
    executing Instruction.ecallWord, executing 0x30509073]

theorem invariants_of_run_oddTargets :
    2 ∣ (0x1002 : UInt32).toNat ∧
      let c := (powerOn 0x1002).run oddTargets
      c.registers.read 1 = 7 ∧ c.csrs.mepc = 6 ∧ c.pc = 4 ∧ c.csrs.mtvec = 4 ∧
        2 ∣ c.csrs.mepc.toNat := by
  have h : 2 ∣ (0x1002 : UInt32).toNat := by decide
  obtain ⟨-, -, -, -, -, -, hmepc⟩ := invariants_of_run h oddTargets
  exact ⟨h, by decide +kernel, by decide +kernel, by decide +kernel, by decide +kernel, hmepc⟩

end Core

end RiscvSoc
