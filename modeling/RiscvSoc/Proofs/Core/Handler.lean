import RiscvSoc.Proofs.Core.Commit

/-! Trap handlers of any length. Entering a handler turns interrupts off and keeps the way back.
A handler that touches neither the status register nor the return address is never interrupted,
and its return goes on where the program was. -/

namespace RiscvSoc.Core

variable {c : Core} {i : CoreInputs} {p : UInt32} {enabled : Bool}

def run (c : Core) : List CoreInputs → Core
  | [] => c
  | i :: is => (c.clockEdge i).1.run is

/-- A property of every edge of a run: of the state before the edge and of what it samples. -/
def Along (P : Core → CoreInputs → Prop) (c : Core) : List CoreInputs → Prop
  | [] => True
  | i :: is => P c i ∧ Along P (c.clockEdge i).1 is

instance decidableAlong (P : Core → CoreInputs → Prop) [DecidableRel P] (c : Core) :
    (is : List CoreInputs) → Decidable (c.Along P is)
  | [] => inferInstanceAs (Decidable True)
  | i :: is =>
    have := decidableAlong P (c.clockEdge i).1 is
    inferInstanceAs (Decidable (P c i ∧ (c.clockEdge i).1.Along P is))

def Enters (c : Core) (i : CoreInputs) : Prop :=
  (c.clockEdge i).2.transition.entersHandler = true

/-- A write leaves the status register and the return address alone. -/
def SparesReturn : Option (UInt32 × UInt32) → Prop
  | none => True
  | some (a, _) => a ≠ Csr.mstatus.address ∧ a ≠ Csr.mepc.address

instance : DecidablePred SparesReturn
  | none => inferInstanceAs (Decidable True)
  | some (_, _) => inferInstanceAs (Decidable (_ ∧ _))

/-- The edge is one of a handler at work: no reset, no word that traps or returns, and no write to
the status register or to the return address. -/
structure Handles (c : Core) (i : CoreInputs) : Prop where
  reset : i.reset = false
  word : i.instructionValid = true → i.instruction ≠ Instruction.ecallWord ∧
    i.instruction ≠ Instruction.ebreakWord ∧ i.instruction ≠ Instruction.mretWord
  csrWrite : (c.clockEdge i).2.retired = true → SparesReturn (c.effect i).csrWrite

instance : DecidableRel Handles := fun c i =>
  decidable_of_iff
    (i.reset = false ∧
      (i.instructionValid = true → i.instruction ≠ Instruction.ecallWord ∧
        i.instruction ≠ Instruction.ebreakWord ∧ i.instruction ≠ Instruction.mretWord) ∧
      ((c.clockEdge i).2.retired = true → SparesReturn (c.effect i).csrWrite))
    ⟨fun ⟨reset, word, csrWrite⟩ => ⟨reset, word, csrWrite⟩,
      fun h => ⟨h.reset, h.word, h.csrWrite⟩⟩

/-- Interrupts are off, and what was interrupted is kept: the address `p` and the enable bit. -/
structure Suspended (p : UInt32) (enabled : Bool) (c : Core) : Prop where
  mepc : c.csrs.mepc = p
  disabled : c.csrs.mstatus &&& mieBit = 0
  saved : (c.csrs.mstatus &&& mpieBit != 0) = enabled

theorem clockEdge_of_reset (hr : i.reset = true) : c.clockEdge i = (c.reset, .idle) := by
  rw [clockEdge, hr, if_pos rfl]

theorem clockEdge_of_invalid (hr : i.reset = false) (hv : i.instructionValid = false) :
    c.clockEdge i = ({ c with pending := i.interruptFlag }, .idle) := by
  simp only [clockEdge, hr, hv, Bool.false_eq_true, if_false]

/-- The ways an edge can go, and the core after each: it restarts, waits for a valid word, enters a
handler, returns from one, or retires the sampled word in sequence. -/
inductive Advances (c : Core) (i : CoreInputs) : Core → Prop where
  | restart (hr : i.reset = true) : Advances c i c.reset
  | wait (hr : i.reset = false) (hv : i.instructionValid = false) :
    Advances c i { c with pending := i.interruptFlag }
  | enter (henters : c.Enters i) (cause : UInt32)
    (ht : (c.trapInputs i).transition.cause? = some cause) :
    Advances c i { c with
      pc := c.csrs.mtvec &&& ~~~3
      csrs := { c.csrs with
        mstatus := enteredStatus c.csrs.mstatus
        mepc := c.pc
        mcause := cause
        mcycle := c.csrs.mcycle + 1 }
      pending := i.interruptFlag }
  | leave (ht : (c.trapInputs i).transition = .trapReturn) :
    Advances c i { c with
      pc := c.csrs.mepc
      csrs := { c.csrs with
        mstatus := returnedStatus c.csrs.mstatus
        mcycle := c.csrs.mcycle + 1
        minstret := c.csrs.minstret + 1 }
      pending := i.interruptFlag }
  | retire (ht : (c.trapInputs i).transition = .sequential) :
    Advances c i { c with
      pc := (c.effect i).nextPc
      registers := writeback c.registers (c.effect i).writeback
      csrs := countRetired (writeCsr (countCycle c.csrs) (c.effect i).csrWrite)
      pending := i.interruptFlag }

theorem advances_clockEdge (c : Core) (i : CoreInputs) : c.Advances i (c.clockEdge i).1 := by
  cases hr : i.reset with
  | true =>
    rw [clockEdge_of_reset hr]
    exact .restart hr
  | false =>
    cases hv : i.instructionValid with
    | false =>
      rw [clockEdge_of_invalid hr hv]
      exact .wait hr hv
    | true =>
      have henter : ∀ cause, (c.trapInputs i).transition.cause? = some cause →
          c.Advances i (c.clockEdge i).1 := by
        intro cause ht
        have henters : c.Enters i := by
          rw [Enters, clockEdge_of_cause hr hv ht]
          exact Transition.entersHandler_iff.mpr ⟨cause, ht⟩
        rw [clockEdge_of_cause hr hv ht]
        exact .enter henters cause ht
      cases ht : (c.trapInputs i).transition with
      | exception cause => exact henter cause (by rw [ht]; rfl)
      | interrupt source => exact henter source.cause (by rw [ht]; rfl)
      | trapReturn =>
        rw [clockEdge_of_trapReturn hr hv ht]
        exact .leave ht
      | sequential =>
        rw [clockEdge_of_sequential hr hv ht]
        exact .retire ht

theorem Enters.cause (h : c.Enters i) : i.reset = false ∧ i.instructionValid = true ∧
    ∃ cause, (c.trapInputs i).transition.cause? = some cause := by
  rw [Enters] at h
  cases hr : i.reset with
  | true =>
    rw [clockEdge_of_reset hr] at h
    cases h
  | false =>
    cases hv : i.instructionValid with
    | false =>
      rw [clockEdge_of_invalid hr hv] at h
      cases h
    | true =>
      rw [clockEdge_of_valid hr hv] at h
      exact ⟨rfl, rfl, Transition.entersHandler_iff.mp h⟩

theorem Enters.suspended (h : c.Enters i) :
    Suspended c.pc c.csrs.interruptsEnabled (c.clockEdge i).1 := by
  obtain ⟨hr, hv, cause, ht⟩ := h.cause
  rw [clockEdge_of_cause hr hv ht]
  refine ⟨rfl, enteredStatus_enable _, ?_⟩
  show (enteredStatus c.csrs.mstatus &&& mpieBit != 0) = (c.csrs.mstatus &&& mieBit != 0)
  rw [enteredStatus_saved]
  by_cases hm : c.csrs.mstatus &&& mieBit = 0
  · rw [if_pos hm, hm]
  · rw [if_neg hm, bne_iff_ne.mpr hm]
    rfl

namespace Suspended

theorem not_interrupted (h : Suspended p enabled c) : ¬ (c.trapInputs i).Interrupted :=
  fun hi => hi.1 h.disabled

private theorem of_write (h : Suspended p enabled c) {write : Option (UInt32 × UInt32)}
    (hw : SparesReturn write) :
    (writeCsr c.csrs write).mepc = p ∧ (writeCsr c.csrs write).mstatus = c.csrs.mstatus := by
  obtain hnone | ⟨r, v, rfl, hset⟩ := writeCsr_cases c.csrs write
  · rw [hnone]
    exact ⟨h.mepc, rfl⟩
  · obtain ⟨hstatus, hepc⟩ := hw
    rw [hset]
    cases r with
    | mstatus => exact absurd rfl hstatus
    | mepc => exact absurd rfl hepc
    | _ => exact ⟨h.mepc, rfl⟩

/-- One edge of the handler is not interrupted and keeps everything. -/
theorem step (h : Suspended p enabled c) (hi : c.Handles i) :
    Suspended p enabled (c.clockEdge i).1 ∧ ¬ c.Enters i := by
  cases hv : i.instructionValid with
  | false =>
    rw [Enters, clockEdge_of_invalid hi.reset hv]
    exact ⟨⟨h.mepc, h.disabled, h.saved⟩, Bool.false_ne_true⟩
  | true =>
    obtain ⟨hecall, hebreak, hmret⟩ := hi.word hv
    have ht : (c.trapInputs i).transition = .sequential :=
      TrapInputs.transition_eq_sequential hecall hebreak hmret h.not_interrupted
    have hedge := clockEdge_of_sequential hi.reset hv ht
    have hcounted : Suspended p enabled { c with csrs := countCycle c.csrs } :=
      ⟨h.mepc, h.disabled, h.saved⟩
    obtain ⟨hepc, hstatus⟩ := hcounted.of_write (hi.csrWrite (by rw [hedge]))
    rw [Enters, hedge]
    refine ⟨⟨hepc, ?_, ?_⟩, Bool.false_ne_true⟩
    · exact (congrArg (· &&& mieBit) hstatus).trans h.disabled
    · exact (congrArg (· &&& mpieBit != 0) hstatus).trans h.saved

/-- A handler of any length is not interrupted and keeps everything. -/
theorem run {is : List CoreInputs} (h : Suspended p enabled c) (his : c.Along Handles is) :
    Suspended p enabled (c.run is) ∧ c.Along (fun c i => ¬ c.Enters i) is := by
  induction is generalizing c with
  | nil => exact ⟨h, trivial⟩
  | cons i is ih =>
    obtain ⟨hi, his⟩ := his
    obtain ⟨hnext, hquiet⟩ := h.step hi
    obtain ⟨hlast, hrest⟩ := ih hnext his
    exact ⟨hlast, hquiet, hrest⟩

/-- The return is not interrupted either, and brings everything back. -/
theorem mret (h : Suspended p enabled c) (hr : i.reset = false) (hv : i.instructionValid = true)
    (hm : i.instruction = Instruction.mretWord) :
    ¬ c.Enters i ∧ (c.clockEdge i).1.pc = p ∧
      (c.clockEdge i).1.csrs.interruptsEnabled = enabled ∧ (c.clockEdge i).1.csrs.mepc = p := by
  have ht : (c.trapInputs i).transition = .trapReturn :=
    TrapInputs.transition_eq_trapReturn hm h.not_interrupted
  rw [Enters, clockEdge_of_trapReturn hr hv ht]
  refine ⟨Bool.false_ne_true, h.mepc, ?_, h.mepc⟩
  show (returnedStatus c.csrs.mstatus &&& mieBit != 0) = enabled
  rw [returnedStatus_enable, ← h.saved]
  by_cases hs : c.csrs.mstatus &&& mpieBit = 0
  · rw [if_pos hs, hs]
  · rw [if_neg hs, bne_iff_ne.mpr hs]
    rfl

end Suspended

/-- A handler entered from `c` runs undisturbed, whatever interrupts come, and its return goes on at
the address of `c` with interrupts enabled as they were. -/
theorem mret_resumes {enter mret : CoreInputs} {is : List CoreInputs} (he : c.Enters enter)
    (his : (c.clockEdge enter).1.Along Handles is) (hr : mret.reset = false)
    (hv : mret.instructionValid = true) (hm : mret.instruction = Instruction.mretWord) :
    let handled := (c.clockEdge enter).1.run is
    (c.clockEdge enter).1.Along (fun c i => ¬ c.Enters i) is ∧ ¬ handled.Enters mret ∧
      (handled.clockEdge mret).1.pc = c.pc ∧
      (handled.clockEdge mret).1.csrs.interruptsEnabled = c.csrs.interruptsEnabled ∧
      (handled.clockEdge mret).1.csrs.mepc = c.pc := by
  intro handled
  obtain ⟨hlast, hquiet⟩ := he.suspended.run his
  exact ⟨hquiet, hlast.mret hr hv hm⟩

/-- A core at an odd address, with both interrupt sources enabled. -/
def interruptible : Core :=
  { Core.powerOn 0x43 with
    csrs := { Csrs.initial with mstatus := mieBit, mie := mieMask, mtvec := 0x200 } }

def pendingEdge (instruction : UInt32) (instructionValid : Bool) : CoreInputs :=
  { reset := false, instruction, instructionValid, interruptFlag := 3, readData := 7 }

/-- A handler that loads a word into a register, writes it to the vector and enables all sources,
with a failed fetch of an environment call on the way. -/
def reload : List CoreInputs :=
  [pendingEdge 0x00002083 true, pendingEdge Instruction.ecallWord false,
    pendingEdge 0x30509073 true, pendingEdge 0x30446073 true]

theorem mret_resumes_reload :
    interruptible.Enters (pendingEdge 0x00102023 true) ∧
      (interruptible.clockEdge (pendingEdge 0x00102023 true)).1.Along Handles reload ∧
      (((interruptible.clockEdge (pendingEdge 0x00102023 true)).1.run reload).clockEdge
        (pendingEdge Instruction.mretWord true)).1.pc = 0x43 := by
  have he : interruptible.Enters (pendingEdge 0x00102023 true) := by
    rw [Enters]
    decide +kernel
  have his : (interruptible.clockEdge (pendingEdge 0x00102023 true)).1.Along Handles reload := by
    decide +kernel
  exact ⟨he, his, (mret_resumes he his rfl rfl rfl).2.2.1⟩

end RiscvSoc.Core
