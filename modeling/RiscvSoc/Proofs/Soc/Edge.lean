import RiscvSoc.Proofs.Core.Commit
import RiscvSoc.Proofs.Isa.Integer
import RiscvSoc.Soc

/-! An edge outside reset: what it reports, what it writes on the bus, and what is left when it
enters a handler. The store is committed from the outputs and all else from the edge; both come from
one plan. -/

namespace RiscvSoc

def Traffic.isWrite : Traffic → Bool
  | .memoryWrite | .deviceWrite => true
  | .none | .deviceRead => false

namespace Instruction

def isStore : Instruction → Bool
  | .store .. => true
  | _ => false

end Instruction

namespace Core

variable {c : Core} {i : CoreInputs}

theorem writeEnable_effect :
    (c.effect i).data.writeEnable = (Instruction.decode i.instruction).isStore := by
  rw [effect]
  cases Instruction.decode i.instruction <;> rfl

end Core

namespace Soc

variable {s : Soc} {w : Wires} {cause : UInt32}

/-- The bus after the store that an instruction asks for, if it asks for one. -/
def stored (s : Soc) : Instruction → Bus
  | .store width rs1 rs2 imm =>
    let address := s.core.reg rs1 + imm
    let (data, strobe) := width.lanes address (s.core.reg rs2)
    s.bus.write ⟨address⟩ data strobe
  | _ => s.bus

/-- The edge `e` entered a handler for `cause`: of the instruction nothing is left but the address
to come back to. -/
structure Preempts (s : Soc) (w : Wires) (cause : UInt32) (e : Soc × EdgeReport × Traffic) :
    Prop where
  transition : e.2.1.transition.cause? = some cause
  reason :
    (w.instruction = Instruction.ecallWord ∧ cause = 11) ∨
      (w.instruction = Instruction.ebreakWord ∧ cause = 3) ∨
      ∃ source : InterruptSource, e.2.1.transition = .interrupt source ∧ cause = source.cause ∧
        s.core.csrs.mstatus &&& mieBit ≠ 0 ∧ s.core.csrs.mie &&& source.enableMask ≠ 0 ∧
        s.lines.flag &&& source.flag ≠ 0
  retired : e.2.1.retired = false
  silent : e.2.2.isWrite = false
  memory : e.1.bus.memory = s.bus.memory
  devices : e.1.bus.devices = s.bus.devices.map Device.tick
  registers : ∀ x, e.1.core.reg x = s.core.reg x
  pc : e.1.core.pc = s.core.csrs.mtvec &&& ~~~3
  csrs : e.1.core.csrs =
    { s.core.csrs with
      mstatus := enteredStatus s.core.csrs.mstatus
      mepc := s.core.pc
      mcause := cause
      mcycle := s.core.csrs.mcycle + 1 }
  disabled : e.1.core.csrs.mstatus &&& mieBit = 0
  saved : e.1.core.csrs.mstatus &&& mpieBit = 0 ↔ s.core.csrs.mstatus &&& mieBit = 0

/-- Whether a handler is entered, from the wires that the edge samples. -/
def enters (s : Soc) (w : Wires) : Bool :=
  (s.core.trapInputs (s.inputs w)).transition.entersHandler

theorem writeEnable_outputs (hr : w.reset = false) :
    (s.core.outputs (s.inputs w)).data.writeEnable =
      ((Instruction.decode w.instruction).isStore && !s.enters w) := by
  rw [Core.data_outputs hr rfl]
  simp only [Core.writeEnable_effect, enters]
  rfl

private theorem store_effect (ins : Instruction) (d flag : UInt32) (hs : ins.isStore = true) :
    let data := (s.core.execute d flag ins).data
    s.stored ins = s.bus.write ⟨data.address⟩ data.writeData data.strobe := by
  cases ins <;> first | rfl | cases hs

private theorem stored_of_not_isStore {ins : Instruction} (hs : ins.isStore = false) :
    s.stored ins = s.bus := by
  cases ins <;> first | rfl | cases hs

/-- The bus sees the store of the instruction if no handler is entered, and then one tick. -/
theorem bus_edge (hr : w.reset = false) :
    (s.edge w).1.bus =
      (if s.enters w then s.bus else s.stored (.decode w.instruction)).tick := by
  have hb : (s.edge w).1.bus =
      (if (s.core.outputs (s.inputs w)).data.writeEnable then
        s.bus.write (s.core.outputs (s.inputs w)).effectiveAddress
          (s.core.outputs (s.inputs w)).data.writeData (s.core.outputs (s.inputs w)).data.strobe
      else s.bus).tick := by
    have hi : (s.inputs w).reset = false := hr
    simp only [edge, store, hi, Bool.not_false, Bool.true_and, Bus.write]
  rw [hb, writeEnable_outputs hr, Core.effectiveAddress_outputs, Core.data_outputs hr rfl]
  cases he : s.enters w with
  | true => simp
  | false =>
    cases hs : (Instruction.decode w.instruction).isStore with
    | true => simp [store_effect _ w.readData s.lines.flag hs, Core.effect, inputs]
    | false => simp [stored_of_not_isStore hs]

theorem isWrite_edge (hr : w.reset = false) :
    (s.edge w).2.2.isWrite = ((Instruction.decode w.instruction).isStore && !s.enters w) := by
  have hi : (s.inputs w).reset = false := hr
  rw [← writeEnable_outputs hr]
  simp only [edge, traffic, hi, Bool.false_eq_true, if_false]
  cases (s.core.outputs (s.inputs w)).data.writeEnable with
  | true => simp only [if_true]; split <;> rfl
  | false => simp only [Bool.false_eq_true, if_false]; split <;> rfl

theorem report_edge (hr : w.reset = false) :
    (s.edge w).2.1 =
      { retired := !s.enters w, transition := (s.core.trapInputs (s.inputs w)).transition } := by
  have hc : (s.edge w).2.1 = (s.core.clockEdge (s.inputs w)).2 := rfl
  rw [hc, Core.clockEdge_of_valid hr rfl]
  rfl

theorem preempts_of_enters (hr : w.reset = false) (he : s.enters w = true) :
    ∃ cause, s.Preempts w cause (s.edge w) := by
  obtain ⟨cause, ht⟩ := Transition.entersHandler_iff.mp he
  have hreport := report_edge (s := s) hr
  have hcore : (s.edge w).1.core = (s.core.clockEdge (s.inputs w)).1 := rfl
  rw [Core.clockEdge_of_cause hr rfl ht] at hcore
  have hbus := bus_edge (s := s) hr
  rw [if_pos he] at hbus
  refine ⟨cause, ?_, ?_, ?_, ?_, ?_, ?_, ?_, ?_, ?_, ?_, ?_⟩
  · rw [hreport]
    exact ht
  · rw [hreport]
    have hspec := (s.core.trapInputs (s.inputs w)).transition_spec
    cases hx : (s.core.trapInputs (s.inputs w)).transition with
    | exception code =>
      rw [hx] at hspec ht
      cases ht
      rcases hspec with h | h
      · exact Or.inl h
      · exact Or.inr (Or.inl h)
    | interrupt source =>
      rw [hx] at hspec ht
      cases ht
      obtain ⟨hflag, henable⟩ := TrapInputs.ready_iff.mp hspec.2
      exact Or.inr (Or.inr ⟨source, rfl, rfl, hspec.1, henable, hflag⟩)
    | trapReturn => rw [hx] at ht; cases ht
    | sequential => rw [hx] at ht; cases ht
  · rw [hreport, he]
    rfl
  · rw [isWrite_edge hr, he]
    exact Bool.and_false _
  · rw [hbus]
    rfl
  · rw [hbus]
    rfl
  · intro x
    rw [hcore]
    rfl
  · rw [hcore]
  · rw [hcore]
  · rw [hcore]
    exact enteredStatus_enable _
  · rw [hcore, enteredStatus_saved]
    split <;> simp_all [mpieBit]

end Soc

end RiscvSoc
