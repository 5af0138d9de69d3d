import RiscvSoc.Proofs.Core.Handler
import RiscvSoc.Proofs.Isa.Undefined

/-! Words that encode nothing retire without an effect. The one exception is a jump through a
register whose minor opcode is not zero: it jumps and links all the same. -/

namespace RiscvSoc.Core

variable {c : Core} {i : CoreInputs}

/-- The edge retires the sampled word and does nothing else: it stores nothing, writes no register,
leaves the control and status registers alone but for the two counters, and goes on with the next
word. -/
structure Idles (c : Core) (i : CoreInputs) : Prop where
  report : (c.clockEdge i).2 = { retired := true, transition := .sequential }
  silent : (c.outputs i).data.writeEnable = false
  registers : ∀ x : RegIndex, (c.clockEdge i).1.reg x = c.reg x
  csrs : (c.clockEdge i).1.csrs =
    { c.csrs with mcycle := c.csrs.mcycle + 1, minstret := c.csrs.minstret + 1 }
  pc : (c.clockEdge i).1.pc = c.pc + 4
  resetVector : (c.clockEdge i).1.resetVector = c.resetVector
  pending : (c.clockEdge i).1.pending = i.interruptFlag

theorem execute_of_isInert {ins : Instruction} (h : ins.isInert = true) (data flag : UInt32) :
    let e := c.execute data flag ins
    e.data.writeEnable = false ∧ e.writeback = none ∧ e.csrWrite = none ∧ e.nextPc = c.pc + 4 := by
  cases ins with
  | reservedLoad | fence | wfi | reserved => exact ⟨rfl, rfl, rfl, rfl⟩
  | _ => cases h

theorem idles_of_isInert (hr : i.reset = false) (hv : i.instructionValid = true)
    (hq : ¬ (c.trapInputs i).Interrupted) (h : (Instruction.decode i.instruction).isInert = true) :
    c.Idles i := by
  have ht : (c.trapInputs i).transition = .sequential := by
    refine transition_of_decode rfl ?_ ?_ ?_ hq <;> intro hd <;> rw [hd] at h <;> cases h
  obtain ⟨hstore, hwriteback, hcsr, hnext⟩ :=
    c.execute_of_isInert h i.readData i.interruptFlag
  have hedge := clockEdge_of_sequential hr hv ht
  rw [effect, hwriteback, hcsr, hnext] at hedge
  have hsilent : (c.outputs i).data.writeEnable = false := by
    rw [data_outputs hr hv, effect, hstore, Bool.false_and]
  constructor
  · rw [hedge]
  · exact hsilent
  · intro x
    rw [hedge]
    rfl
  · rw [hedge]
    rfl
  · rw [hedge]
  · rw [hedge]
  · rw [hedge]

/-- A jump through a register does nothing only if it goes to the next word and the link is there
already. -/
theorem idles_jalr_iff {rd rs1 : RegIndex} {funct3 : BitVec 3} {imm : BitVec 12}
    (hr : i.reset = false) (hv : i.instructionValid = true) (hq : ¬ (c.trapInputs i).Interrupted)
    (hw : i.instruction = Encoding.i Opcode.jalr.bits rd funct3 rs1 imm) :
    c.Idles i ↔
      (c.reg rs1 + .ofInt imm.toInt) &&& ~~~1 = c.pc + 4 ∧ (rd = 0 ∨ c.reg rd = c.pc + 4) := by
  have hd : Instruction.decode i.instruction = .jalr rd rs1 (.ofInt imm.toInt) := by
    rw [hw, decode_jalr]
  have ht : (c.trapInputs i).transition = .sequential :=
    transition_of_decode hd (by simp) (by simp) (by simp) hq
  have hedge := clockEdge_of_sequential hr hv ht
  have heffect : c.effect i =
      .write ((c.reg rs1 + .ofInt imm.toInt) &&& ~~~1) rd (c.pc + 4) := by
    rw [effect, hd]
    rfl
  have hreg : ∀ x : RegIndex, (c.clockEdge i).1.reg x =
      if x = rd ∧ x ≠ 0 then c.pc + 4 else c.reg x := by
    intro x
    rw [hedge, heffect]
    exact read_writeback c.registers (some (rd, c.pc + 4)) x
  have hpc : (c.clockEdge i).1.pc = (c.reg rs1 + .ofInt imm.toInt) &&& ~~~1 := by
    rw [hedge, heffect]
    rfl
  constructor
  · intro h
    refine ⟨hpc.symm.trans h.pc, ?_⟩
    by_cases hrd : rd = 0
    · exact .inl hrd
    · have hlink := hreg rd
      rw [if_pos ⟨rfl, hrd⟩, h.registers rd] at hlink
      exact .inr hlink
  · rintro ⟨hjump, hlink⟩
    refine ⟨?_, ?_, ?_, ?_, hpc.trans hjump, ?_, ?_⟩
    · rw [hedge]
    · rw [data_outputs hr hv, heffect]
      rfl
    · intro x
      rw [hreg x]
      split
      · rename_i hx
        obtain ⟨rfl, hne⟩ := hx
        exact (hlink.resolve_left hne).symm
      · rfl
    · rw [hedge, heffect]
      rfl
    · rw [hedge]
    · rw [hedge]

/-- On a word that encodes nothing, with no interrupt to take, an edge outside reset retires the
word and does nothing else, exactly if the fetch is valid and the word is no jump through a register
that goes elsewhere or leaves a link. -/
theorem idles_iff_of_not_validEncoding (hr : i.reset = false)
    (hq : ¬ (c.trapInputs i).Interrupted) (hword : ¬ ValidEncoding i.instruction) :
    c.Idles i ↔ i.instructionValid = true ∧
      ∀ rd funct3 rs1 imm, i.instruction = Encoding.i Opcode.jalr.bits rd funct3 rs1 imm →
        (c.reg rs1 + .ofInt imm.toInt) &&& ~~~1 = c.pc + 4 ∧
          (rd = 0 ∨ c.reg rd = c.pc + 4) := by
  cases hv : i.instructionValid with
  | false =>
    have hidle : (c.clockEdge i).2 = .idle := by rw [clockEdge_of_invalid hr hv]
    constructor
    · intro h
      have hretired := congrArg EdgeReport.retired (hidle.symm.trans h.report)
      exact absurd hretired Bool.false_ne_true
    · rintro ⟨hvalid, -⟩
      exact absurd hvalid Bool.false_ne_true
  | true =>
    constructor
    · intro h
      exact ⟨rfl, fun rd funct3 rs1 imm hw => (idles_jalr_iff hr hv hq hw).mp h⟩
    · rintro ⟨-, hjump⟩
      rcases inert_or_jalr hword with hinert | ⟨rd, funct3, rs1, imm, -, hw⟩
      · exact idles_of_isInert hr hv hq hinert
      · exact (idles_jalr_iff hr hv hq hw).mpr (hjump rd funct3 rs1 imm hw)

/-- A jump to address 64 through register zero with a link to register one, of minor opcode 1. -/
def strayJump : CoreInputs :=
  { reset := false, instruction := Encoding.i Opcode.jalr.bits 1 1 0 0x40, instructionValid := true
    interruptFlag := 0, readData := 0 }

/-- Right in front of its target, a jump with its link to register zero does nothing. -/
theorem idles_strayJump :
    let i := { strayJump with instruction := Encoding.i Opcode.jalr.bits 0 1 0 0x40 }
    ¬ ValidEncoding i.instruction ∧ (powerOn 0x3C).Idles i := by
  have hword : ¬ ValidEncoding (Encoding.i Opcode.jalr.bits 0 1 0 0x40) :=
    not_validEncoding_jalr (by decide)
  refine ⟨hword, ?_⟩
  refine (idles_iff_of_not_validEncoding rfl (fun h => h.1 (by decide)) hword).mpr ⟨rfl, ?_⟩
  intro rd funct3 rs1 imm hw
  have hd := congrArg Instruction.decode hw
  rw [decode_jalr, decode_jalr] at hd
  obtain ⟨hrd, hrs1, himm⟩ := Instruction.jalr.inj hd
  rw [← hrd, ← hrs1, ← himm]
  exact ⟨by decide, .inl rfl⟩

/-- The jump encodes nothing, but it is taken and leaves its link. -/
theorem strayJump_taken :
    strayJump.reset = false ∧ strayJump.instructionValid = true ∧
      ¬ ((powerOn 0).trapInputs strayJump).Interrupted ∧
      ¬ ValidEncoding strayJump.instruction ∧
      ((powerOn 0).clockEdge strayJump).1.pc = 0x40 ∧
      ((powerOn 0).clockEdge strayJump).1.reg 1 = 4 ∧ ¬ (powerOn 0).Idles strayJump := by
  have hpc : ((powerOn 0).clockEdge strayJump).1.pc = 0x40 := by decide
  refine ⟨rfl, rfl, fun h => h.1 (by decide), not_validEncoding_jalr (by decide), hpc, by decide,
    ?_⟩
  intro h
  exact absurd (hpc.symm.trans h.pc) (by decide)

end RiscvSoc.Core
