import RiscvSoc.Proofs.Soc.Edge

namespace RiscvSoc

structure RetiredStore where
  address : EffectiveAddress
  data : UInt32
  strobe : Strobe
  deriving DecidableEq

namespace Soc

variable (s : Soc) (w : Wires)

/-- The store that an edge retires, if it retires one. -/
def retiredStore? : Option RetiredStore :=
  let data := (s.core.outputs (s.inputs w)).data
  if (Instruction.decode w.instruction).isStore && (s.edge w).2.1.retired then
    some
      { address := (s.core.outputs (s.inputs w)).effectiveAddress
        data := data.writeData
        strobe := data.strobe }
  else none

theorem retired_of_reset (hr : w.reset = true) : (s.edge w).2.1.retired = false := by
  have hedge : (s.edge w).2.1 = (s.core.clockEdge (s.inputs w)).2 := rfl
  rw [hedge, Core.clockEdge, if_pos (show (s.inputs w).reset = true from hr)]
  rfl

/-- A store retires only outside reset, and only if no handler preempts it. -/
theorem committed_of_retiredStore? {st : RetiredStore} (h : s.retiredStore? w = some st) :
    w.reset = false ∧ (s.edge w).2.1.transition.entersHandler = false := by
  have hretired : (s.edge w).2.1.retired = true := by
    rw [retiredStore?, Option.ite_none_right_eq_some, Bool.and_eq_true] at h
    exact h.1.2
  have hreset : w.reset = false := by
    rw [← Bool.not_eq_true]
    intro hreset
    exact Bool.false_ne_true ((s.retired_of_reset w hreset).symm.trans hretired)
  rw [report_edge hreset, Bool.not_eq_true'] at hretired
  rw [report_edge hreset]
  exact ⟨hreset, hretired⟩

theorem store_eq :
    let i := s.inputs w
    let o := s.core.outputs i
    store s.bus i o (s.bus.route o.effectiveAddress) =
      match s.retiredStore? w with
      | some st => s.bus.write st.address st.data st.strobe
      | none => s.bus := by
  intro i o
  have hi : i.reset = w.reset := rfl
  rw [store, retiredStore?, hi]
  cases hr : w.reset with
  | true => simp [retired_of_reset s w hr]
  | false =>
    have hretired : (s.edge w).2.1.retired = !s.enters w := by rw [report_edge hr]
    rw [writeEnable_outputs hr, hretired]
    cases (Instruction.decode w.instruction).isStore && !s.enters w <;> rfl

theorem bus_edge_eq :
    (s.edge w).1.bus =
      (match s.retiredStore? w with
      | some st => s.bus.write st.address st.data st.strobe
      | none => s.bus).tick :=
  congrArg Bus.tick (s.store_eq w)

end Soc

end RiscvSoc
