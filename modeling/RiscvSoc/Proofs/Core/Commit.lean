import RiscvSoc.Proofs.Core.Wires

/-! What an edge commits, one equation for each way that it can go. Everything else about edges is
read off these: entering a handler, returning from one, and retiring in sequence. -/

namespace RiscvSoc

namespace TrapInputs

variable {i : TrapInputs}

/-- An interrupt is pending, its source is enabled, and interrupts are enabled. -/
def Interrupted (i : TrapInputs) : Prop :=
  i.csrs.mstatus &&& mieBit ≠ 0 ∧
    ∃ source : InterruptSource,
      i.flag &&& source.flag ≠ 0 ∧ i.csrs.mie &&& source.enableMask ≠ 0

theorem ready_iff {source : InterruptSource} :
    i.ready source = true ↔ i.flag &&& source.flag ≠ 0 ∧ i.csrs.mie &&& source.enableMask ≠ 0 := by
  simp [ready]

theorem interrupt?_eq_none_iff : i.interrupt? = none ↔ ¬ i.Interrupted := by
  have hall : (∀ s ∈ InterruptSource.byPriority, ¬ i.ready s = true) ↔
      ¬ ∃ s : InterruptSource, i.flag &&& s.flag ≠ 0 ∧ i.csrs.mie &&& s.enableMask ≠ 0 := by
    simp only [← ready_iff]
    constructor
    · rintro h ⟨s, hs⟩
      exact h s (by cases s <;> simp [InterruptSource.byPriority]) hs
    · exact fun h s _ hs => h ⟨s, hs⟩
  by_cases hm : i.csrs.mstatus &&& mieBit = 0
  · simp [interrupt?, Interrupted, hm]
  · rw [interrupt?, if_neg hm, Option.map_eq_none_iff, List.find?_eq_none, hall, Interrupted]
    exact ⟨fun h hi => h hi.2, fun h hi => h ⟨hm, hi⟩⟩

theorem transition_eq_sequential (he : i.instruction ≠ Instruction.ecallWord)
    (hb : i.instruction ≠ Instruction.ebreakWord) (hr : i.instruction ≠ Instruction.mretWord)
    (hi : ¬ i.Interrupted) : i.transition = .sequential := by
  simp [transition, exception?, return?, he, hb, hr, interrupt?_eq_none_iff.mpr hi]

theorem transition_eq_trapReturn (hr : i.instruction = Instruction.mretWord)
    (hi : ¬ i.Interrupted) : i.transition = .trapReturn := by
  have he : Instruction.mretWord ≠ Instruction.ecallWord := by decide
  have hb : Instruction.mretWord ≠ Instruction.ebreakWord := by decide
  simp [transition, exception?, return?, hr, he, hb, interrupt?_eq_none_iff.mpr hi]

theorem ready_of_interrupt? {t : Transition} (h : i.interrupt? = some t) :
    ∃ source, t = .interrupt source ∧ i.csrs.mstatus &&& mieBit ≠ 0 ∧ i.ready source = true := by
  unfold interrupt? at h
  split at h
  · cases h
  · rename_i hm
    obtain ⟨source, hf, rfl⟩ := Option.map_eq_some_iff.mp h
    exact ⟨source, rfl, hm, List.find?_some hf⟩

/-- What each transition says about the word and the interrupts. -/
theorem transition_spec (i : TrapInputs) :
    match i.transition with
    | .exception cause =>
      (i.instruction = Instruction.ecallWord ∧ cause = 11) ∨
        (i.instruction = Instruction.ebreakWord ∧ cause = 3)
    | .interrupt source => i.csrs.mstatus &&& mieBit ≠ 0 ∧ i.ready source = true
    | .trapReturn => i.instruction = Instruction.mretWord
    | .sequential => ¬ i.Interrupted := by
  by_cases he : i.instruction = Instruction.ecallWord
  · simp [transition, exception?, he]
  · by_cases hb : i.instruction = Instruction.ebreakWord
    · have hne : Instruction.ebreakWord ≠ Instruction.ecallWord := by decide
      simp [transition, exception?, hb, hne]
    · have hx : i.exception? = none := by simp [exception?, he, hb]
      cases hi : i.interrupt? with
      | some t =>
        obtain ⟨source, rfl, hready⟩ := ready_of_interrupt? hi
        simpa [transition, hx, hi] using hready
      | none =>
        have hq : ¬ i.Interrupted := interrupt?_eq_none_iff.mp hi
        by_cases hr : i.instruction = Instruction.mretWord
        · simp [transition, hx, hi, return?, hr]
        · simpa [transition, hx, hi, return?, hr] using hq

theorem instruction_of_trapReturn (h : i.transition = .trapReturn) :
    i.instruction = Instruction.mretWord := by
  have hs := i.transition_spec
  rw [h] at hs
  exact hs

end TrapInputs

def Transition.cause? : Transition → Option UInt32
  | .exception cause => some cause
  | .interrupt source => some source.cause
  | .trapReturn | .sequential => none

theorem Transition.entersHandler_iff {t : Transition} :
    t.entersHandler = true ↔ ∃ cause, t.cause? = some cause := by
  cases t <;> simp [entersHandler, cause?]

/-- The status register on entering a handler: the enable bit moves to its saved place. -/
def enteredStatus (mstatus : UInt32) : UInt32 :=
  (mstatus &&& ~~~(mieBit ||| mpieBit)) ||| if mstatus &&& mieBit = 0 then 0 else mpieBit

theorem or_and_distrib (a b m : UInt32) : (a ||| b) &&& m = (a &&& m) ||| (b &&& m) :=
  UInt32.toBitVec_inj.mp BitVec.and_or_distrib_right

theorem enteredStatus_enable (mstatus : UInt32) : enteredStatus mstatus &&& mieBit = 0 := by
  have hmask : ~~~(mieBit ||| mpieBit) &&& mieBit = 0 := by decide
  have hsaved : mpieBit &&& mieBit = 0 := by decide
  rw [enteredStatus, or_and_distrib, UInt32.and_assoc, hmask, UInt32.and_zero]
  split
  · rfl
  · rw [hsaved]
    rfl

theorem enteredStatus_saved (mstatus : UInt32) :
    enteredStatus mstatus &&& mpieBit = if mstatus &&& mieBit = 0 then 0 else mpieBit := by
  have hmask : ~~~(mieBit ||| mpieBit) &&& mpieBit = 0 := by decide
  rw [enteredStatus, or_and_distrib, UInt32.and_assoc, hmask, UInt32.and_zero]
  split <;> rfl

/-- The status register on returning: the enable bit comes back from its saved place. -/
def returnedStatus (mstatus : UInt32) : UInt32 :=
  (mstatus &&& ~~~mieBit) ||| if mstatus &&& mpieBit = 0 then 0 else mieBit

theorem returnedStatus_enable (mstatus : UInt32) :
    returnedStatus mstatus &&& mieBit = if mstatus &&& mpieBit = 0 then 0 else mieBit := by
  have hmask : ~~~mieBit &&& mieBit = 0 := by decide
  rw [returnedStatus, or_and_distrib, UInt32.and_assoc, hmask, UInt32.and_zero]
  split <;> rfl

namespace Core

variable {c : Core} {i : CoreInputs}

def trapInputs (c : Core) (i : CoreInputs) : TrapInputs :=
  { instruction := i.instruction, address := c.pc, flag := i.interruptFlag, csrs := c.trapCsrs }

/-- What the sampled word does unless a handler is entered. -/
def effect (c : Core) (i : CoreInputs) : Effect :=
  c.execute i.readData i.interruptFlag (.decode i.instruction)

theorem plan_eq : c.plan i = { effect := c.effect i, trap := .ofInputs (c.trapInputs i) } := rfl

theorem ofInputs_of_cause {t : TrapInputs} {cause : UInt32}
    (h : t.transition.cause? = some cause) :
    TrapDecision.ofInputs t = .enter t t.transition cause := by
  unfold TrapDecision.ofInputs
  split <;> simp_all [Transition.cause?]

theorem transition_ofInputs (t : TrapInputs) :
    (TrapDecision.ofInputs t).transition = t.transition := by
  unfold TrapDecision.ofInputs
  split <;> simp_all [TrapDecision.enter, TrapDecision.leave, TrapDecision.pass]

/-- What the data port shows of the sampled word; entering a handler holds the write enable low. -/
theorem data_outputs (hr : i.reset = false) (hv : i.instructionValid = true) :
    (c.outputs i).data =
      { (c.effect i).data with
        writeEnable :=
          (c.effect i).data.writeEnable && !(c.trapInputs i).transition.entersHandler } := by
  simp only [outputs, hr, hv, Bool.false_eq_true, if_false, if_true, plan_eq, Plan.outputs,
    transition_ofInputs]

theorem clockEdge_of_valid (hr : i.reset = false) (hv : i.instructionValid = true) :
    c.clockEdge i =
      ({ c with pending := i.interruptFlag }.commit (c.plan i),
        { retired := !(c.trapInputs i).transition.entersHandler
          transition := (c.trapInputs i).transition }) := by
  have ht : (c.plan i).trap.transition = (c.trapInputs i).transition := transition_ofInputs _
  simp only [clockEdge, hr, hv, plan_pending, ht, Bool.false_eq_true, if_false, if_true]

/-- Entering a handler: nothing of the instruction is left. -/
theorem clockEdge_of_cause (hr : i.reset = false) (hv : i.instructionValid = true) {cause : UInt32}
    (ht : (c.trapInputs i).transition.cause? = some cause) :
    c.clockEdge i =
      ({ c with
        pc := c.csrs.mtvec &&& ~~~3
        csrs := { c.csrs with
          mstatus := enteredStatus c.csrs.mstatus
          mepc := c.pc
          mcause := cause
          mcycle := c.csrs.mcycle + 1 }
        pending := i.interruptFlag },
        { retired := false, transition := (c.trapInputs i).transition }) := by
  have hent : (c.trapInputs i).transition.entersHandler = true :=
    Transition.entersHandler_iff.mpr ⟨cause, ht⟩
  rw [clockEdge_of_valid hr hv, plan_eq, ofInputs_of_cause ht]
  simp only [commit, TrapDecision.enter, hent, writeTrap, if_true]
  rfl

theorem clockEdge_of_sequential (hr : i.reset = false) (hv : i.instructionValid = true)
    (ht : (c.trapInputs i).transition = .sequential) :
    c.clockEdge i =
      ({ c with
        pc := (c.effect i).nextPc
        registers := writeback c.registers (c.effect i).writeback
        csrs := countRetired (writeCsr (countCycle c.csrs) (c.effect i).csrWrite)
        pending := i.interruptFlag }, { retired := true, transition := .sequential }) := by
  have hd : TrapDecision.ofInputs (c.trapInputs i) = .pass (c.trapInputs i) := by
    simp only [TrapDecision.ofInputs, ht]
  rw [clockEdge_of_valid hr hv, plan_eq, hd, ht]
  rfl

theorem decode_ecallWord : Instruction.decode Instruction.ecallWord = .ecall := by decide

theorem decode_ebreakWord : Instruction.decode Instruction.ebreakWord = .ebreak := by decide

theorem decode_mretWord : Instruction.decode Instruction.mretWord = .mret := by decide

theorem effect_of_trapReturn (ht : (c.trapInputs i).transition = .trapReturn) :
    c.effect i = .nothing (c.pc + 4) := by
  have hw : i.instruction = Instruction.mretWord := TrapInputs.instruction_of_trapReturn ht
  rw [effect, hw, decode_mretWord]
  rfl

theorem clockEdge_of_trapReturn (hr : i.reset = false) (hv : i.instructionValid = true)
    (ht : (c.trapInputs i).transition = .trapReturn) :
    c.clockEdge i =
      ({ c with
        pc := c.csrs.mepc
        csrs := { c.csrs with
          mstatus := returnedStatus c.csrs.mstatus
          mcycle := c.csrs.mcycle + 1
          minstret := c.csrs.minstret + 1 }
        pending := i.interruptFlag }, { retired := true, transition := .trapReturn }) := by
  have hd : TrapDecision.ofInputs (c.trapInputs i) = .leave (c.trapInputs i) := by
    simp only [TrapDecision.ofInputs, ht]
  rw [clockEdge_of_valid hr hv, plan_eq, hd, ht, effect_of_trapReturn ht]
  rfl

/-- Instructions outside the system group retire in sequence unless an interrupt comes. -/
theorem transition_of_decode {ins : Instruction} (hd : Instruction.decode i.instruction = ins)
    (he : ins ≠ .ecall) (hb : ins ≠ .ebreak) (hm : ins ≠ .mret)
    (hi : ¬ (c.trapInputs i).Interrupted) : (c.trapInputs i).transition = .sequential := by
  have hne : ∀ w, Instruction.decode w ≠ ins → i.instruction ≠ w := by
    intro w hw h
    exact hw (h ▸ hd)
  apply TrapInputs.transition_eq_sequential
  · exact hne _ (decode_ecallWord ▸ he.symm)
  · exact hne _ (decode_ebreakWord ▸ hb.symm)
  · exact hne _ (decode_mretWord ▸ hm.symm)
  · exact hi

/-- The write of an instruction sets the control and status register at its address, or nothing. -/
theorem writeCsr_cases (c : Csrs) (write : Option (UInt32 × UInt32)) :
    writeCsr c write = c ∨
      ∃ r v, write = some (Csr.address r, v) ∧ writeCsr c write = c.set v r := by
  cases write with
  | none => exact .inl rfl
  | some write =>
    obtain ⟨a, v⟩ := write
    rw [writeCsr]
    obtain hnone | ⟨r, rfl, hset⟩ := c.write_eq a v
    · exact .inl hnone
    · exact .inr ⟨r, v, rfl, hset⟩

theorem read_writeback (r : Registers) (wb : Option (RegIndex × UInt32)) (x : RegIndex) :
    (writeback r wb).read x.toNat =
      match wb with
      | some (rd, value) => if x = rd ∧ x ≠ 0 then value else r.read x.toNat
      | none => r.read x.toNat := by
  cases wb with
  | none => rfl
  | some p =>
    obtain ⟨rd, value⟩ := p
    have hx : x.toNat < 32 := x.isLt
    have hzero : x ≠ 0 ↔ 0 < x.toNat := by
      rw [Nat.pos_iff_ne_zero, ne_eq, ne_eq, ← BitVec.toNat_inj]
      rfl
    have hcond : (rd.toNat = x.toNat ∧ 0 < rd.toNat ∧ rd.toNat < 32) ↔ (x = rd ∧ x ≠ 0) := by
      rw [hzero, ← BitVec.toNat_inj]
      omega
    simp only [writeback, Registers.read_write, hcond]

/-- What is sampled of a valid word while no interrupt is pending. -/
def executing (instruction : UInt32) : CoreInputs :=
  { reset := false, instruction, instructionValid := true, interruptFlag := 0, readData := 0 }

end Core

end RiscvSoc
