import RiscvSoc.Proofs.Core.CsrFile
import RiscvSoc.Proofs.Core.Handler
import RiscvSoc.Proofs.Isa.Base

/-! Which registers hold values that a write would keep. Software writes through the masks, and the
trap controller moves the status bits within theirs; but it saves the address of a trap as it is,
and a jump may have led to the middle of a word. -/

namespace RiscvSoc

namespace Csrs

variable {c : Csrs} {r s : Csr}

theorem legal_initial (r : Csr) : initial.Legal r := by
  cases r <;> first | rfl | trivial

theorem legal_set_self (c : Csrs) (v : UInt32) (hr : r.isWritable = true) :
    (c.set v r).Legal r := by
  cases r with
  | mstatus | mie | mtvec | mepc => simp [set, Legal, UInt32.and_assoc]
  | mscratch | mcause | mtval | mcycle | mcycleh | minstret | minstreth => trivial
  | misa | mip | cycle | cycleh | time | timeh | instret | instreth => cases hr

theorem Legal.set (h : c.Legal s) (v : UInt32) (r : Csr) : (c.set v r).Legal s := by
  by_cases hs : s = r
  · subst hs
    cases hw : s.isWritable with
    | true => exact c.legal_set_self v hw
    | false => rwa [c.set_of_not_isWritable v hw]
  · cases r <;> cases s <;> first | exact h | exact absurd rfl hs

/-- All registers but the return address hold legal values. -/
def Masked (c : Csrs) : Prop :=
  ∀ r ≠ Csr.mepc, c.Legal r

end Csrs

theorem enteredStatus_legal {mstatus : UInt32} (h : mstatus &&& (mieBit ||| mpieBit) = mstatus) :
    enteredStatus mstatus &&& (mieBit ||| mpieBit) = enteredStatus mstatus := by
  have hrest : mstatus &&& ~~~(mieBit ||| mpieBit) = 0 := by
    rw [← h, UInt32.and_assoc, UInt32.and_not_self, UInt32.and_zero]
  rw [enteredStatus, hrest]
  split <;> decide

theorem returnedStatus_legal {mstatus : UInt32} (h : mstatus &&& (mieBit ||| mpieBit) = mstatus) :
    returnedStatus mstatus &&& (mieBit ||| mpieBit) = returnedStatus mstatus := by
  have hkept : (mstatus &&& ~~~mieBit) &&& (mieBit ||| mpieBit) = mstatus &&& ~~~mieBit := by
    rw [UInt32.and_assoc, UInt32.and_comm (~~~mieBit), ← UInt32.and_assoc, h]
  rw [returnedStatus, or_and_distrib, hkept]
  split <;> rfl

namespace Core

variable {c : Core} {i : CoreInputs}

/-- All that an edge can do to the registers: clear them, leave them, enter a handler, return from
one, or write one of them. -/
theorem csrs_clockEdge (c : Core) (i : CoreInputs) :
    (c.clockEdge i).1.csrs = .initial ∨ (c.clockEdge i).1.csrs = c.csrs ∨
      (c.Enters i ∧ ∃ cause, (c.clockEdge i).1.csrs =
        { c.csrs with
          mstatus := enteredStatus c.csrs.mstatus
          mepc := c.pc
          mcause := cause
          mcycle := c.csrs.mcycle + 1 }) ∨
      (c.clockEdge i).1.csrs =
        { c.csrs with
          mstatus := returnedStatus c.csrs.mstatus
          mcycle := c.csrs.mcycle + 1
          minstret := c.csrs.minstret + 1 } ∨
      ∃ write, (c.clockEdge i).1.csrs = countRetired (writeCsr (countCycle c.csrs) write) := by
  have h := c.advances_clockEdge i
  generalize (c.clockEdge i).1 = c' at h ⊢
  cases h with
  | restart => exact .inl rfl
  | wait => exact .inr (.inl rfl)
  | enter henters cause => exact .inr (.inr (.inl ⟨henters, cause, rfl⟩))
  | leave => exact .inr (.inr (.inr (.inl rfl)))
  | retire => exact .inr (.inr (.inr (.inr ⟨_, rfl⟩)))

theorem legal_writeCsr {c : Csrs} {s : Csr} (h : c.Legal s) (write : Option (UInt32 × UInt32)) :
    (countRetired (writeCsr (countCycle c) write)).Legal s := by
  have hcounted : ∀ c : Csrs, c.Legal s → (countCycle c).Legal s ∧ (countRetired c).Legal s := by
    intro c h
    cases s <;> exact ⟨h, h⟩
  refine (hcounted _ ?_).2
  obtain hnone | ⟨r, v, -, hset⟩ := writeCsr_cases (countCycle c) write
  · rw [hnone]
    exact (hcounted c h).1
  · rw [hset]
    exact (hcounted c h).1.set v r

theorem masked_clockEdge (h : c.csrs.Masked) (i : CoreInputs) : (c.clockEdge i).1.csrs.Masked := by
  intro r hr
  have hlegal := h r hr
  obtain hedge | hedge | ⟨-, cause, hedge⟩ | hedge | ⟨write, hedge⟩ := c.csrs_clockEdge i <;>
    rw [hedge]
  · exact Csrs.legal_initial r
  · exact hlegal
  · cases r with
    | mstatus => exact enteredStatus_legal hlegal
    | mepc => exact absurd rfl hr
    | _ => exact hlegal
  · cases r with
    | mstatus => exact returnedStatus_legal hlegal
    | _ => exact hlegal
  · exact legal_writeCsr hlegal write

theorem masked_run (h : c.csrs.Masked) (is : List CoreInputs) : (c.run is).csrs.Masked := by
  induction is generalizing c with
  | nil => exact h
  | cons i is ih => exact ih (masked_clockEdge h i)

theorem mepc_clockEdge (c : Core) (i : CoreInputs) :
    (c.clockEdge i).1.csrs.mepc = c.csrs.mepc ∨ (c.clockEdge i).1.csrs.Legal .mepc ∨
      c.Enters i ∧ (c.clockEdge i).1.csrs.mepc = c.pc := by
  obtain hedge | hedge | ⟨henters, cause, hedge⟩ | hedge | ⟨write, hedge⟩ := c.csrs_clockEdge i <;>
    rw [hedge]
  · exact .inr (.inl (Csrs.legal_initial .mepc))
  · exact .inl rfl
  · exact .inr (.inr ⟨henters, rfl⟩)
  · exact .inl rfl
  · obtain hnone | ⟨r, v, -, hset⟩ := writeCsr_cases (countCycle c.csrs) write
    · left
      rw [hnone]
      rfl
    · rw [hset]
      by_cases hr : r = .mepc
      · subst hr
        have hlegal : ((countCycle c.csrs).set v .mepc).Legal .mepc :=
          Csrs.legal_set_self _ v rfl
        exact .inr (.inl hlegal)
      · have hkept := (countCycle c.csrs).get_set_of_ne 0 v (s := .mepc) (Ne.symm hr)
        exact .inl hkept

/-- After a run the return address is the one from before, or legal, or where a handler was entered.
-/
theorem mepc_run (c : Core) (is : List CoreInputs) :
    (c.run is).csrs.mepc = c.csrs.mepc ∨ (c.run is).csrs.Legal .mepc ∨
      ∃ before i after, is = before ++ i :: after ∧ (c.run before).Enters i ∧
        (c.run before).pc = (c.run is).csrs.mepc := by
  induction is generalizing c with
  | nil => exact .inl rfl
  | cons i is ih =>
    -- If the later edges keep the register, the first one decides where its value is from.
    obtain hsame | hlegal | ⟨before, entry, after, rfl, henters, hpc⟩ := ih (c.clockEdge i).1
    · obtain hkept | hlegal | ⟨henters, hpc⟩ := c.mepc_clockEdge i
      · exact .inl (hsame.trans hkept)
      · refine .inr (.inl ?_)
        rw [Csrs.Legal, ← hsame] at hlegal
        exact hlegal
      · exact .inr (.inr ⟨[], i, is, rfl, henters, (hsame.trans hpc).symm⟩)
    · exact .inr (.inl hlegal)
    · exact .inr (.inr ⟨i :: before, entry, after, rfl, henters, hpc⟩)

/-- In every state that is reached from power-on, writing back what was just read changes nothing,
at every address but that of the return address. There it changes nothing exactly if the two low
bits are clear, and if they are not, a handler was entered at that very address. -/
theorem write_read_of_run (resetVector : UInt32) (is : List CoreInputs) :
    let c := (powerOn resetVector).run is
    (∀ a pending, c.csrs.write a (c.csrs.read a pending) = c.csrs ↔
        (a = Csr.mepc.address → c.csrs.mepc &&& ~~~3 = c.csrs.mepc)) ∧
      (c.csrs.mepc &&& ~~~3 = c.csrs.mepc ∨
        ∃ before i after, is = before ++ i :: after ∧
          ((powerOn resetVector).run before).Enters i ∧
          ((powerOn resetVector).run before).pc = c.csrs.mepc) := by
  intro c
  have hmasked : c.csrs.Masked := masked_run (fun r _ => Csrs.legal_initial r) is
  constructor
  · intro a pending
    rw [Csrs.write_read_iff]
    constructor
    · rintro h rfl
      exact h .mepc rfl
    · intro h r ha
      by_cases hr : r = .mepc
      · subst hr
        exact h ha.symm
      · exact hmasked r hr
  · obtain hkept | hlegal | hentry := (powerOn resetVector).mepc_run is
    · left
      rw [show c.csrs.mepc = 0 from hkept]
      rfl
    · exact .inl hlegal
    · exact .inr hentry

/-- A jump into the middle of a word, and an environment call there: writing back the return address
clears its second bit. -/
theorem write_read_after_jump :
    let c := (powerOn 0x1000).run
      [executing (BaseInstruction.jal 0 1).encode, executing Instruction.ecallWord]
    (0x1000 : UInt32) &&& 3 = 0 ∧ c.csrs.read Csr.mepc.address 0 = 0x1002 ∧
      (c.csrs.write Csr.mepc.address (c.csrs.read Csr.mepc.address 0)).mepc = 0x1000 ∧
      c.csrs.write Csr.mepc.address (c.csrs.read Csr.mepc.address 0) ≠ c.csrs := by
  decide

end Core

end RiscvSoc
