import Mathlib.Tactic.SplitIfs
import RiscvSoc.Proofs.Core.Commit

namespace RiscvSoc

namespace TrapInputs

variable (i : TrapInputs)

def Raises (i : TrapInputs) : Prop :=
  i.instruction = Instruction.ecallWord ∨ i.instruction = Instruction.ebreakWord

def Requests (i : TrapInputs) (source : InterruptSource) : Prop :=
  i.csrs.mstatus &&& mieBit ≠ 0 ∧ i.flag &&& source.flag ≠ 0 ∧
    i.csrs.mie &&& source.enableMask ≠ 0

instance : Decidable i.Raises :=
  inferInstanceAs (Decidable (_ ∨ _))

instance (source : InterruptSource) : Decidable (i.Requests source) :=
  inferInstanceAs (Decidable (_ ∧ _ ∧ _))

/-- The timer is asked before the external source. -/
theorem interrupt?_eq :
    i.interrupt? =
      if i.Requests .timer then some (.interrupt .timer)
      else if i.Requests .external then some (.interrupt .external)
      else none := by
  by_cases henabled : i.csrs.mstatus &&& mieBit = 0
  · simp [interrupt?, Requests, henabled]
  · have hrequests : ∀ source, i.Requests source ↔ i.ready source = true := by
      intro source
      rw [ready_iff, Requests, and_iff_right henabled]
    rw [interrupt?, if_neg henabled, InterruptSource.byPriority]
    simp only [hrequests]
    cases htimer : i.ready .timer with
    | true => simp [htimer]
    | false => cases hexternal : i.ready .external <;> simp [htimer, hexternal]

/-- The transition by the order of the guards. -/
theorem transition_eq :
    i.transition =
      if i.instruction = Instruction.ecallWord then .exception 11
      else if i.instruction = Instruction.ebreakWord then .exception 3
      else if i.Requests .timer then .interrupt .timer
      else if i.Requests .external then .interrupt .external
      else if i.instruction = Instruction.mretWord then .trapReturn
      else .sequential := by
  rw [transition, exception?, interrupt?_eq, return?]
  split_ifs <;> rfl

/-- The transition `t` is the first in the order of priority whose condition holds. -/
structure Selects (i : TrapInputs) (t : Transition) : Prop where
  exception : ∀ cause, t = .exception cause ↔
    (i.instruction = Instruction.ecallWord ∧ cause = 11) ∨
      (i.instruction = Instruction.ebreakWord ∧ cause = 3)
  timer : t = .interrupt .timer ↔ ¬ i.Raises ∧ i.Requests .timer
  external : t = .interrupt .external ↔
    ¬ i.Raises ∧ ¬ i.Requests .timer ∧ i.Requests .external
  trapReturn : t = .trapReturn ↔
    ¬ i.Raises ∧ ¬ i.Requests .timer ∧ ¬ i.Requests .external ∧
      i.instruction = Instruction.mretWord
  sequential : t = .sequential ↔
    ¬ i.Raises ∧ ¬ i.Requests .timer ∧ ¬ i.Requests .external ∧
      i.instruction ≠ Instruction.mretWord

theorem selects_transition : i.Selects i.transition := by
  have hwords : Instruction.ecallWord ≠ Instruction.ebreakWord := by decide
  rw [transition_eq]
  by_cases hecall : i.instruction = Instruction.ecallWord
  · constructor <;> simp [Raises, hecall, hwords, eq_comm]
  by_cases hebreak : i.instruction = Instruction.ebreakWord
  · constructor <;> simp [Raises, hebreak, hwords.symm, eq_comm]
  · constructor <;> simp only [Raises, hecall, hebreak] <;> split_ifs <;> simp_all

end TrapInputs

namespace TrapDecision

variable (i : TrapInputs)

/-- With both sources pending and the timer masked, the external one wins over a return. -/
example :
    let i : TrapInputs :=
      { instruction := Instruction.mretWord, address := 0x1024, flag := 0x23
        csrs := { mstatus := mieBit, mie := 0x800, mtvec := 0x1101, mepc := 0x2000, mcause := 0 } }
    ofInputs i =
      { transition := .interrupt .external
        csrs := { i.csrs with mstatus := mpieBit, mepc := 0x1024, mcause := 0x8000000B }
        writes := true, redirects := true, target := 0x1100 } := by
  decide

end TrapDecision

end RiscvSoc
