import RiscvSoc.Proofs.Bus.Store
import RiscvSoc.Proofs.Core.RetiredCsrs
import RiscvSoc.Proofs.Soc.Edge

namespace RiscvSoc

def Core.storeRequest? (c : Core) : Instruction → Option StoreRequest
  | .store width rs1 rs2 imm => some ⟨width, c.reg rs1 + imm, c.reg rs2⟩
  | _ => none

namespace Bus

theorem stored_eq_store (s : Soc) (width : StoreWidth) (rs1 rs2 : RegIndex) (imm : UInt32) :
    s.stored (.store width rs1 rs2 imm) =
      s.bus.store width (s.core.reg rs1 + imm) (s.core.reg rs2) := by
  rw [store, EffectiveAddress.combine_ofAddress]
  rfl

theorem cycled_stored (s : Soc) (ins : Instruction) :
    Cycled (s.core.storeRequest? ins) s.bus (s.stored ins).tick := by
  cases ins with
  | store width rs1 rs2 imm =>
    rw [stored_eq_store, Core.storeRequest?]
    refine ⟨nofun, ?_, ?_, owners_store _ _ _⟩
    · rintro _ ⟨⟩ hfree
      refine ⟨?_, ?_, fun x hx => flat_store_of_unowned hfree hx⟩
      · exact congrArg (List.map Device.tick) (devices_store_of_unowned hfree)
      · show (s.bus.store _ _ _).memory.capacity = _
        rw [memory_store_of_unowned hfree, Memory.capacity_write]
    · rintro _ i ⟨⟩ howned
      refine ⟨memory_store_of_owned howned _ _, fun j => ?_⟩
      rw [tick, List.getElem?_map, devices_store_of_owned howned, Option.map_map]
      rfl
  | _ => exact ⟨fun _ => ⟨rfl, rfl⟩, nofun, nofun, rfl⟩

end Bus

namespace Soc

variable {s : Soc} {w : Wires}

/-- The edge `e` retired the sampled instruction: its store, its register write and its write to a
control and status register have each been done once, and nothing else has. -/
structure Retires (s : Soc) (w : Wires) (e : Soc × EdgeReport × Traffic) : Prop where
  transition : e.2.1.transition = .trapReturn ∨ e.2.1.transition = .sequential
  retired : e.2.1.retired = true
  bus : s.bus.Cycled (s.core.storeRequest? (.decode w.instruction)) e.1.bus
  registers : ∀ x, e.1.core.reg x =
    match (s.core.effect (s.inputs w)).writeback with
    | some (rd, value) => if x = rd ∧ x ≠ 0 then value else s.core.reg x
    | none => s.core.reg x
  pc : e.1.core.pc =
    if e.2.1.transition = .trapReturn then s.core.csrs.mepc
    else (s.core.effect (s.inputs w)).nextPc
  csrs : Csrs.Retired (s.core.csrRequest s.lines.flag (.decode w.instruction))
    (if e.2.1.transition = .trapReturn then
      { s.core.csrs with mstatus := returnedStatus s.core.csrs.mstatus }
    else s.core.csrs) e.1.core.csrs

theorem retires_of_not_enters (hr : w.reset = false) (he : s.enters w = false) :
    s.Retires w (s.edge w) := by
  have hreport := report_edge (s := s) hr
  have hcore : (s.edge w).1.core = (s.core.clockEdge (s.inputs w)).1 := rfl
  have hbus : s.bus.Cycled (s.core.storeRequest? (.decode w.instruction)) (s.edge w).1.bus := by
    rw [bus_edge hr, he, if_neg Bool.false_ne_true]
    exact Bus.cycled_stored s _
  have hretired : (s.edge w).2.1.retired = true := by rw [hreport, he]; rfl
  have hx : (s.edge w).2.1.transition = (s.core.trapInputs (s.inputs w)).transition := by
    rw [hreport]
  cases ht : (s.core.trapInputs (s.inputs w)).transition with
  | exception cause => rw [enters, ht] at he; cases he
  | interrupt source => rw [enters, ht] at he; cases he
  | trapReturn =>
    rw [Core.clockEdge_of_trapReturn hr rfl ht] at hcore
    rw [ht] at hx
    have hdecode : Instruction.decode w.instruction = .mret := by
      have hword : w.instruction = Instruction.mretWord := TrapInputs.instruction_of_trapReturn ht
      rw [hword, Core.decode_mretWord]
    have hrequest : s.core.csrRequest s.lines.flag (.decode w.instruction) = fun _ => none := by
      rw [hdecode]
      rfl
    refine ⟨Or.inl hx, hretired, hbus, ?_, ?_, ?_⟩
    · intro x
      rw [hcore, Core.effect_of_trapReturn ht]
      rfl
    · rw [hcore, if_pos hx]
    · rw [hcore, if_pos hx, hrequest]
      exact Core.retired_nothing { s.core.csrs with mstatus := returnedStatus s.core.csrs.mstatus }
  | sequential =>
    rw [Core.clockEdge_of_sequential hr rfl ht] at hcore
    rw [ht] at hx
    have hne : (s.edge w).2.1.transition ≠ .trapReturn := by rw [hx]; simp
    refine ⟨Or.inr hx, hretired, hbus, ?_, ?_, ?_⟩
    · intro x
      rw [hcore]
      exact Core.read_writeback _ _ _
    · rw [hcore, if_neg hne]
    · rw [hcore, if_neg hne]
      exact s.core.retired_csrRequest w.readData s.lines.flag (.decode w.instruction)

end Soc

end RiscvSoc
