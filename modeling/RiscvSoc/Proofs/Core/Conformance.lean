import RiscvSoc.Proofs.Core.Commit
import RiscvSoc.Proofs.Isa.Base
import RiscvSoc.Proofs.Memory.Lanes

/-! The base instructions do what the instruction set says. What it says is written in integers:
each result is a number, and a register keeps its remainder modulo `2 ^ 32`. -/

namespace RiscvSoc

inductive Access where
  | none
  | load (address : Int)
  | store (width : StoreWidth) (address : Int) (value : UInt32)

namespace Access

/-- The port puts the bytes of a value at an address, aligned down to the size, and no others. -/
structure Stores (width : StoreWidth) (address : Int) (value : UInt32) (d : DataPort) : Prop where
  enabled : d.writeEnable = true
  address : (d.address.toNat : Int) = address % 2 ^ 32
  data : d.writeData.toNat =
    value.toNat % 256 ^ width.size * 256 ^ laneOf width.size d.address
  strobe : ∀ j < 4, d.strobe.enables j = true ↔
    laneOf width.size d.address ≤ j ∧ j < laneOf width.size d.address + width.size
  bytes : ∀ old, ∀ j < 4, Word.byteAt (d.strobe.merge old d.writeData) j =
    if laneOf width.size d.address ≤ j ∧ j < laneOf width.size d.address + width.size then
      Word.byteAt value (j - laneOf width.size d.address)
    else Word.byteAt old j

/-- What the data port shows of an access. -/
def Drives (d : DataPort) : Access → Prop
  | .none => d = .idle
  | .load address => d = { DataPort.idle with address := .ofInt address }
  | .store width address value => Stores width address value d

end Access

/-- What an instruction does: the register that it writes, where the program goes on, and the access
to data. -/
structure Meaning where
  writes : Option (RegIndex × Int)
  nextPc : Int
  access : Access

namespace Meaning

def value (pc : UInt32) (rd : RegIndex) (z : Int) : Meaning :=
  { writes := some (rd, z), nextPc := pc.toNat + 4, access := .none }

/-- An effect that carries out a meaning. -/
structure Realized (m : Meaning) (e : Effect) : Prop where
  writeback : e.writeback = m.writes.map fun (rd, z) => (rd, UInt32.ofInt z)
  nextPc : e.nextPc = UInt32.ofInt m.nextPc
  csrWrite : e.csrWrite = none
  access : m.access.Drives e.data

end Meaning

/-- What the instruction set says that an instruction at `pc` does, with the registers `x` and the
word `data` at the address of a load. -/
def BaseInstruction.meaning (pc : UInt32) (x : RegIndex → UInt32) (data : UInt32)
    (ins : BaseInstruction) : Meaning :=
  match ins with
  | .lui rd imm => .value pc rd (4096 * imm.toInt)
  | .auipc rd imm => .value pc rd (pc.toNat + 4096 * imm.toInt)
  | .jal rd offset =>
    { Meaning.value pc rd (pc.toNat + 4) with nextPc := pc.toNat + 2 * offset.toInt }
  | .jalr rd rs1 imm =>
    { Meaning.value pc rd (pc.toNat + 4) with
      nextPc := (Word.signed (x rs1) + imm.toInt) % 2 ^ 32 / 2 * 2 }
  | .branch condition rs1 rs2 offset =>
    { writes := none
      nextPc :=
        if condition.Integer (x rs1) (x rs2) then pc.toNat + 2 * offset.toInt else pc.toNat + 4
      access := .none }
  | .load kind rd rs1 imm =>
    let address := Word.signed (x rs1) + imm.toInt
    { Meaning.value pc rd (kind.integer (.ofInt address) data) with access := .load address }
  | .store width rs1 rs2 imm =>
    { writes := none, nextPc := pc.toNat + 4
      access := .store width (Word.signed (x rs1) + imm.toInt) (x rs2) }
  | .immediate op rd rs1 imm => .value pc rd (op.alu.integer (x rs1) (.ofInt imm.toInt))
  | .shift op rd rs1 amount => .value pc rd (op.alu.integer (x rs1) (.ofNat amount.toNat))
  | .register op rd rs1 rs2 => .value pc rd (op.integer (x rs1) (x rs2))
  | .fence .. => { writes := none, nextPc := pc.toNat + 4, access := .none }

namespace Core

variable (c : Core) (data flag : UInt32)

private theorem next_eq_ofInt (pc : UInt32) : pc + 4 = UInt32.ofInt (pc.toNat + 4) := by
  rw [UInt32.ofInt_add, Word.ofInt_toNat]
  rfl

private theorem offset_eq_ofInt (a : UInt32) (z : Int) :
    a + .ofInt z = UInt32.ofInt (a.toNat + z) := by
  rw [UInt32.ofInt_add, Word.ofInt_toNat]

private theorem address_eq_ofInt (a : UInt32) (z : Int) :
    a + .ofInt z = UInt32.ofInt (Word.signed a + z) := by
  rw [UInt32.ofInt_add, Word.ofInt_signed]

private theorem apply_shift (op : ShiftOp) (a : UInt32) (amount : BitVec 5) :
    op.alu.apply a (.ofInt (op.alu.funct7 ++ amount).toInt) =
      UInt32.ofInt (op.alu.integer a (.ofNat amount.toNat)) := by
  have hamount : (UInt32.ofInt (op.alu.funct7 ++ amount).toInt).toNat % 32 =
      (UInt32.ofNat amount.toNat).toNat % 32 := by
    revert amount
    cases op <;> decide
  rw [AluOp.apply_eq_integer]
  cases op <;> simp only [ShiftOp.alu, AluOp.integer, hamount] at hamount ⊢

private theorem jump_eq_ofInt (a : UInt32) (z : Int) :
    (a + .ofInt z) &&& ~~~1 = UInt32.ofInt ((Word.signed a + z) % 2 ^ 32 / 2 * 2) := by
  have hsum := Word.toNat_ofInt (Word.signed a + z)
  rw [address_eq_ofInt]
  apply Word.eq_ofInt
  rw [Word.toNat_and_not_one]
  omega

private theorem stores_lanes (width : StoreWidth) (a value : UInt32) (z : Int) :
    Access.Stores width (Word.signed a + z) value
      { address := a + .ofInt z
        writeData := (width.lanes (a + .ofInt z) value).1
        writeEnable := true
        strobe := (width.lanes (a + .ofInt z) value).2 } := by
  refine ⟨rfl, ?_, width.toNat_lanes _ _, fun j hj => ?_, fun old j hj => ?_⟩
  · rw [address_eq_ofInt, Word.toNat_ofInt]
  · rw [width.enables_lanes _ _ hj, decide_eq_true_eq]
  · exact width.byteAt_merge_lanes _ _ _ hj

theorem realized_execute (ins : BaseInstruction) :
    (ins.meaning c.pc c.reg data).Realized (c.execute data flag ins.decoded) := by
  have hnext := next_eq_ofInt c.pc
  cases ins with
  | lui rd imm => exact ⟨rfl, hnext, rfl, rfl⟩
  | auipc rd imm =>
    exact ⟨congrArg (fun v => some (rd, v)) (offset_eq_ofInt c.pc _), hnext, rfl, rfl⟩
  | jal rd offset =>
    exact ⟨congrArg (fun v => some (rd, v)) hnext, offset_eq_ofInt c.pc _, rfl, rfl⟩
  | jalr rd rs1 imm =>
    exact ⟨congrArg (fun v => some (rd, v)) hnext, jump_eq_ofInt (c.reg rs1) _, rfl, rfl⟩
  | branch condition rs1 rs2 offset =>
    refine ⟨rfl, ?_, rfl, rfl⟩
    have htaken := condition.holds_iff_integer (c.reg rs1) (c.reg rs2)
    have hoffset := offset_eq_ofInt c.pc (2 * offset.toInt)
    by_cases h : condition.Integer (c.reg rs1) (c.reg rs2)
    · simp only [execute, BaseInstruction.decoded, BaseInstruction.meaning, Effect.nothing,
        htaken.mpr h, h, if_true]
      exact hoffset
    · have hfalls : condition.holds (c.reg rs1) (c.reg rs2) = false :=
        Bool.eq_false_iff.mpr fun ht => h (htaken.mp ht)
      simp only [execute, BaseInstruction.decoded, BaseInstruction.meaning, Effect.nothing,
        hfalls, h, Bool.false_eq_true, if_false]
      exact hnext
  | load kind rd rs1 imm =>
    have haddress := address_eq_ofInt (c.reg rs1) imm.toInt
    refine ⟨?_, hnext, rfl, ?_⟩
    · refine congrArg (fun v => some (rd, v)) ?_
      show kind.extract (c.reg rs1 + .ofInt imm.toInt) data = _
      rw [LoadKind.extract_eq_integer, haddress]
    · exact congrArg (fun a => { DataPort.idle with address := a }) haddress
  | store width rs1 rs2 imm =>
    exact ⟨rfl, hnext, rfl, stores_lanes width (c.reg rs1) (c.reg rs2) imm.toInt⟩
  | immediate op rd rs1 imm =>
    exact ⟨congrArg (fun v => some (rd, v)) (op.alu.apply_eq_integer _ _), hnext, rfl, rfl⟩
  | shift op rd rs1 amount =>
    exact ⟨congrArg (fun v => some (rd, v)) (apply_shift op _ amount), hnext, rfl, rfl⟩
  | register op rd rs1 rs2 =>
    exact ⟨congrArg (fun v => some (rd, v)) (op.apply_eq_integer _ _), hnext, rfl, rfl⟩
  | fence rd rs1 order => exact ⟨rfl, hnext, rfl, rfl⟩

end Core

/-- On the edge that samples an instruction, the core does what the meaning `m` says: it writes the
one register, goes on where it must, drives the access, and only counts besides. -/
structure Conforms (m : Meaning) (c : Core) (i : CoreInputs) : Prop where
  report : (c.clockEdge i).2 = { retired := true, transition := .sequential }
  pc : ((c.clockEdge i).1.pc.toNat : Int) = m.nextPc % 2 ^ 32
  written : ∀ rd z, m.writes = some (rd, z) → rd ≠ 0 →
    (((c.clockEdge i).1.reg rd).toNat : Int) = z % 2 ^ 32
  kept : ∀ r, (∀ z, m.writes ≠ some (r, z)) ∨ r = 0 → (c.clockEdge i).1.reg r = c.reg r
  csrs : (c.clockEdge i).1.csrs =
    { c.csrs with mcycle := c.csrs.mcycle + 1, minstret := c.csrs.minstret + 1 }
  resetVector : (c.clockEdge i).1.resetVector = c.resetVector
  pending : (c.clockEdge i).1.pending = i.interruptFlag
  fetch : (c.outputs i).instructionAddress = c.pc
  access : m.access.Drives (c.outputs i).data
  routed : (c.outputs i).effectiveAddress = ⟨(c.outputs i).data.address⟩

namespace Core

/-- On its standard encoding, with no interrupt to take, every base instruction does what the
instruction set says. -/
theorem clockEdge_conforms {c : Core} {i : CoreInputs} {ins : BaseInstruction}
    (hr : i.reset = false) (hv : i.instructionValid = true) (hw : i.instruction = ins.encode)
    (hq : ¬ (c.trapInputs i).Interrupted) :
    Conforms (ins.meaning c.pc c.reg i.readData) c i := by
  have hd : Instruction.decode i.instruction = ins.decoded := by
    rw [hw, ins.decode_encode]
  have ht : (c.trapInputs i).transition = .sequential := by
    apply transition_of_decode hd _ _ _ hq <;> cases ins <;> simp [BaseInstruction.decoded]
  have he : c.effect i = c.execute i.readData i.interruptFlag ins.decoded := by
    rw [effect, hd]
  have hm := c.realized_execute i.readData i.interruptFlag ins
  rw [← he] at hm
  have hedge := clockEdge_of_sequential hr hv ht
  have hreg : ∀ r, (c.clockEdge i).1.reg r =
      (writeback c.registers (c.effect i).writeback).read r.toNat := by
    intro r
    rw [hedge]
    rfl
  refine ⟨?_, ?_, ?_, ?_, ?_, ?_, ?_, ?_, ?_, ?_⟩
  · rw [hedge]
  · rw [hedge]
    show ((c.effect i).nextPc.toNat : Int) = _
    rw [hm.nextPc, Word.toNat_ofInt]
  · intro rd z hz hne
    rw [hreg, hm.writeback, hz, read_writeback]
    simp only [Option.map_some, hne, ne_eq, not_false_eq_true, and_self, if_true]
    exact Word.toNat_ofInt z
  · intro r hkept
    rw [hreg, hm.writeback, read_writeback]
    cases hwrites : (ins.meaning c.pc c.reg i.readData).writes with
    | none => rfl
    | some write =>
      obtain ⟨rd, z⟩ := write
      have hne : ¬ (r = rd ∧ r ≠ 0) := by
        rintro ⟨rfl, hnz⟩
        rcases hkept with h | h
        · exact h z hwrites
        · exact hnz h
      simp only [Option.map_some, hne, if_false]
      rfl
  · rw [hedge]
    show countRetired (writeCsr (countCycle c.csrs) (c.effect i).csrWrite) = _
    rw [hm.csrWrite]
    rfl
  · rw [hedge]
  · rw [hedge]
  · simp only [outputs, hr, hv, Bool.false_eq_true, if_false, if_true]
    rfl
  · rw [data_outputs hr hv, ht]
    simpa [Transition.entersHandler] using hm.access
  · exact c.effectiveAddress_outputs i

/-- A jump through its own link register, from an odd address. -/
def linking : Core :=
  { Core.powerOn 0x100 with registers := Registers.zeroed.write 1 0x1001 }

def jumpBack : CoreInputs :=
  { reset := false, instruction := (BaseInstruction.jalr 1 1 4).encode, instructionValid := true
    interruptFlag := 0, readData := 0 }

/-- The link replaces the register after the target has been taken from it. -/
theorem clockEdge_linking :
    jumpBack.reset = false ∧ jumpBack.instructionValid = true ∧
      ¬ (linking.trapInputs jumpBack).Interrupted ∧
      ((linking.clockEdge jumpBack).1.reg 1).toNat = 0x104 ∧
      (linking.clockEdge jumpBack).1.pc.toNat = 0x1004 := by
  have hq : ¬ (linking.trapInputs jumpBack).Interrupted := fun h => h.1 (by decide)
  have hc : Conforms ((BaseInstruction.jalr 1 1 4).meaning 0x100 linking.reg 0) linking jumpBack :=
    clockEdge_conforms rfl rfl rfl hq
  refine ⟨rfl, rfl, hq, ?_, ?_⟩
  · exact Int.ofNat.inj (hc.written 1 0x104 rfl (by decide))
  · exact Int.ofNat.inj hc.pc

end Core

end RiscvSoc
