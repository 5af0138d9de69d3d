import RiscvSoc.Proofs.Core.CsrFile
import RiscvSoc.Proofs.Core.Handler
import RiscvSoc.Proofs.Isa.Undefined

/-! A register that one instruction writes and the next one reads. The counter of cycles counts
before the write and the counter of instructions after it, so only the latter is read back one
further on. -/

namespace RiscvSoc

def CsrAccess.word (access : CsrAccess) (rd source : RegIndex) (r : Csr) : UInt32 :=
  Encoding.i Opcode.system.bits rd access.funct3 source (.ofNat 12 r.address.toNat)

namespace Csr

theorem setWidth_address (r : Csr) :
    UInt32.ofBitVec ((BitVec.ofNat 12 r.address.toNat).setWidth 32) = r.address := by
  cases r <;> rfl

end Csr

theorem CsrAccess.funct3_ne_zero (access : CsrAccess) : access.funct3 ≠ 0 := by
  obtain ⟨update, immediate⟩ := access
  cases update <;> cases immediate <;> decide

theorem decode_csrWord (access : CsrAccess) (rd source : RegIndex) (r : Csr) :
    Instruction.decode (access.word rd source r) = .csr access rd source r.address := by
  obtain ⟨hop, hrd, hfunct, hsource, haddress, -⟩ := Fields.ofWord_i Opcode.system.bits rd source
    access.funct3 (.ofNat 12 r.address.toNat)
  rw [Instruction.decode, CsrAccess.word, Instruction.ofFields, hop, Opcode.ofBits?_bits]
  show Instruction.ofSystem _ = _
  rw [Instruction.ofSystem, hfunct, if_neg access.funct3_ne_zero, access.ofFunct3?_funct3, hrd,
    hsource, haddress, r.setWidth_address]

namespace Csrs

/-- Counting a retired instruction moves the register: always the low half of the counter, and the
high half when the low half is full. -/
def MovedByRetirement (c : Csrs) (r : Csr) : Prop :=
  r = .minstret ∨ r = .minstreth ∧ lowHalf c.minstret = 0xFFFFFFFF

instance (c : Csrs) (r : Csr) : Decidable (c.MovedByRetirement r) :=
  inferInstanceAs (Decidable (_ ∨ _ ∧ _))

/-- Only the low half of the counter decides about the carry. -/
theorem movedByRetirement_set (c : Csrs) (v : UInt32) {r s : Csr}
    (h : ¬ (r = .minstret ∧ s = .minstreth)) :
    (c.set v r).MovedByRetirement s ↔ c.MovedByRetirement s := by
  cases s with
  | minstreth =>
    have hlow : lowHalf (c.set v r).minstret = lowHalf c.minstret :=
      c.get_set_of_ne 0 v (s := .minstret) fun hr => h ⟨hr.symm, rfl⟩
    rw [MovedByRetirement, hlow, MovedByRetirement]
  | _ => simp [MovedByRetirement]

end Csrs

namespace Core

variable {c : Core} {i : CoreInputs}

theorem get_countRetired (c : Csrs) (pending : UInt32) (r : Csr) :
    (countRetired c).get pending r =
      c.get pending r + if c.MovedByRetirement r.home then 1 else 0 := by
  cases r with
  | minstret | instret =>
    simp [countRetired, Csrs.get, Csrs.MovedByRetirement, Csr.home, lowHalf_add_one]
  | minstreth | instreth =>
    simp [countRetired, Csrs.get, Csrs.MovedByRetirement, Csr.home, highHalf_add_one]
  | _ => simp [countRetired, Csrs.get, Csrs.MovedByRetirement, Csr.home]

theorem sequential_of_retired (hm : i.instruction ≠ Instruction.mretWord)
    (h : (c.clockEdge i).2.retired = true) :
    i.reset = false ∧ i.instructionValid = true ∧
      (c.trapInputs i).transition = .sequential := by
  cases hr : i.reset with
  | true =>
    rw [clockEdge_of_reset hr] at h
    cases h
  | false =>
    cases hv : i.instructionValid with
    | false =>
      rw [clockEdge_of_invalid hr hv] at h
      cases h
    | true =>
      rw [clockEdge_of_valid hr hv] at h
      refine ⟨rfl, rfl, ?_⟩
      cases ht : (c.trapInputs i).transition with
      | sequential => rfl
      | trapReturn => exact absurd (TrapInputs.instruction_of_trapReturn ht) hm
      | exception | interrupt =>
        rw [ht] at h
        cases h

section

variable {access : CsrAccess} {rd source : RegIndex} {r : Csr}

/-- An access retires with its write between the two counts, and its register gets the value from
before. -/
theorem clockEdge_of_csrWord (hw : i.instruction = access.word rd source r)
    (h : (c.clockEdge i).2.retired = true) :
    (c.clockEdge i).1.csrs =
        countRetired (writeCsr (countCycle c.csrs) (c.effect i).csrWrite) ∧
      ∀ x : RegIndex, (c.clockEdge i).1.reg x =
        if x = rd ∧ x ≠ 0 then c.csrs.get i.interruptFlag r else c.reg x := by
  have hd : Instruction.decode i.instruction = .csr access rd source r.address := by
    rw [hw, decode_csrWord]
  have hm : i.instruction ≠ Instruction.mretWord := by
    intro hm
    rw [hm, decode_mretWord] at hd
    cases hd
  obtain ⟨hr, hv, ht⟩ := sequential_of_retired hm h
  have hedge := clockEdge_of_sequential hr hv ht
  have hwriteback : (c.effect i).writeback = some (rd, c.csrs.get i.interruptFlag r) := by
    rw [effect, hd]
    show some (rd, c.csrs.read r.address i.interruptFlag) = _
    rw [Csrs.read, r.ofAddress?_address]
  refine ⟨by rw [hedge], fun x => ?_⟩
  rw [hedge, hwriteback]
  exact read_writeback c.registers (some (rd, c.csrs.get i.interruptFlag r)) x

theorem csrs_of_write (hr : r.isWritable = true)
    (hw : i.instruction = CsrAccess.word ⟨.write, false⟩ rd source r)
    (h : (c.clockEdge i).2.retired = true) :
    (c.clockEdge i).1.csrs = countRetired ((countCycle c.csrs).set (c.reg source) r) := by
  have heffect : (c.effect i).csrWrite = some (r.address, c.reg source) := by
    rw [effect, hw, decode_csrWord]
    show csrTarget r.address (some (c.reg source)) = _
    rw [csrTarget, Csr.not_isReadOnlyCsr hr]
    rfl
  rw [(clockEdge_of_csrWord hw h).1, heffect, writeCsr, Csrs.write, r.ofAddress?_address]

end

/-- On an edge that writes `v` to `r`, all other registers show what counting the cycle and the
instruction leaves. The one exception is a carry into the high half of the counter of instructions,
which comes out of the low half that was written. -/
structure Spares (r : Csr) (v : UInt32) (before after : Csrs) : Prop where
  kept : ∀ pending (s : Csr), s.home ≠ r → ¬ (r = .minstret ∧ s.home = .minstreth) →
    after.get pending s = (countRetired (countCycle before)).get pending s
  carried : r = .minstret → ∀ pending (s : Csr), s.home = .minstreth →
    after.get pending s =
      highHalf before.minstret + if v = 0xFFFFFFFF then 1 else 0

theorem spares_set (c : Csrs) (v : UInt32) (r : Csr) :
    Spares r v c (countRetired ((countCycle c).set v r)) := by
  constructor
  · intro pending s hs hcarry
    rw [get_countRetired, get_countRetired, Csrs.get_set_of_ne _ _ _ hs]
    simp only [Csrs.movedByRetirement_set _ v hcarry]
  · rintro rfl pending s hs
    have hne : s.home ≠ .minstret := by
      rw [hs]
      nofun
    -- The carry comes out of the low half as written, not as it was before.
    have hlow : lowHalf ((countCycle c).set v .minstret).minstret = v :=
      (countCycle c).get_set 0 v (r := .minstret) rfl
    rw [get_countRetired, Csrs.get_set_of_ne _ _ _ hne, ← Csrs.get_home, hs]
    simp only [Csrs.MovedByRetirement, hlow, reduceCtorEq, true_and, false_or]
    rfl

theorem get_written {r : Csr} (hr : r.isWritable = true) (c : Csrs) (v pending : UInt32) :
    (countRetired ((countCycle c).set v r)).get pending r =
      r.legal v + if c.MovedByRetirement r then 1 else 0 := by
  have hhome : r.home = r := by cases r <;> first | rfl | cases hr
  have hcarry : ¬ (r = .minstret ∧ r = .minstreth) := by
    rintro ⟨rfl, h⟩
    cases h
  rw [get_countRetired, Csrs.get_set _ _ _ hr, hhome]
  simp only [Csrs.movedByRetirement_set _ v hcarry]
  rfl

/-- A register that one instruction writes is read back by the next one in its legal form. The
exceptions are the two halves of the counter of instructions: counting the write itself moves the
low half always, and the high half when the low half is full. -/
theorem readback {i j : CoreInputs} {r : Csr} {rd source : RegIndex} (hr : r.isWritable = true)
    (hi : i.instruction = CsrAccess.word ⟨.write, false⟩ 0 source r)
    (hwritten : (c.clockEdge i).2.retired = true)
    (hj : j.instruction = CsrAccess.word ⟨.set, false⟩ rd 0 r)
    (hread : ((c.clockEdge i).1.clockEdge j).2.retired = true) :
    let v := c.reg source
    let written := (c.clockEdge i).1
    let read := (written.clockEdge j).1
    (rd ≠ 0 →
        read.reg rd = (r.legal v + if c.csrs.MovedByRetirement r then 1 else 0) ∧
          (read.reg rd = r.legal v ↔ ¬ c.csrs.MovedByRetirement r)) ∧
      Spares r v c.csrs written.csrs := by
  intro v written read
  have hcsrs : written.csrs = countRetired ((countCycle c.csrs).set v r) :=
    csrs_of_write hr hi hwritten
  refine ⟨fun hrd => ?_, ?_⟩
  · have hvalue : read.reg rd = r.legal v + if c.csrs.MovedByRetirement r then 1 else 0 := by
      rw [(clockEdge_of_csrWord hj hread).2, if_pos ⟨rfl, hrd⟩, hcsrs, get_written hr]
    refine ⟨hvalue, ?_⟩
    rw [hvalue]
    by_cases h : c.csrs.MovedByRetirement r <;> simp [h]
  · rw [hcsrs]
    exact spares_set c.csrs v r

/-- A core with all ones in register two. -/
def filled : Core :=
  { powerOn 0x1000 with registers := Registers.zeroed.write 2 0xFFFFFFFF }

def writeStatus : CoreInputs :=
  executing (CsrAccess.word ⟨.write, false⟩ 0 2 .mstatus)

def readStatus : CoreInputs :=
  executing (CsrAccess.word ⟨.set, false⟩ 1 0 .mstatus)

/-- All ones in the status register are read back as the bits that it has. -/
theorem readback_mstatus :
    (filled.clockEdge writeStatus).2.retired = true ∧
      ((filled.clockEdge writeStatus).1.clockEdge readStatus).2.retired = true ∧
      ((filled.clockEdge writeStatus).1.clockEdge readStatus).1.reg 1 = 0x1888 := by
  have hwritten : (filled.clockEdge writeStatus).2.retired = true := by decide
  have hread : ((filled.clockEdge writeStatus).1.clockEdge readStatus).2.retired = true := by
    decide
  have hlegal : Csr.mstatus.legal (filled.reg 2) = 0x1888 := by decide
  have hstays : ¬ filled.csrs.MovedByRetirement .mstatus := by decide
  have hi : writeStatus.instruction = CsrAccess.word ⟨.write, false⟩ 0 2 .mstatus := rfl
  have hj : readStatus.instruction = CsrAccess.word ⟨.set, false⟩ 1 0 .mstatus := rfl
  obtain ⟨hback, -⟩ := readback rfl hi hwritten hj hread
  have hvalue := (hback (by decide)).2.mpr hstays
  refine ⟨hwritten, hread, ?_⟩
  rw [hvalue, hlegal]

/-- Zero in the counter of instructions is read back as one. -/
theorem readback_minstret :
    let c := powerOn 0x1000
    let write := executing (CsrAccess.word ⟨.write, false⟩ 0 0 .minstret)
    let read := executing (CsrAccess.word ⟨.set, false⟩ 1 0 .minstret)
    Csr.minstret.isWritable = true ∧ (c.clockEdge write).2.retired = true ∧
      ((c.clockEdge write).1.clockEdge read).2.retired = true ∧
      Csr.minstret.legal (c.reg 0) = 0 ∧
      ((c.clockEdge write).1.clockEdge read).1.reg 1 = 1 := by
  decide

end Core

end RiscvSoc
