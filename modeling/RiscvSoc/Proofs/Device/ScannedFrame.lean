import Mathlib.Data.List.Induction
import RiscvSoc.Display
import RiscvSoc.Proofs.Device.Picture

namespace RiscvSoc

namespace Display

variable {d : Display} {p : Pixel} {x y : Nat}

def Filled (d : Display) : Prop :=
  d.frame.size = d.width * d.height

@[simp] theorem width_update (d : Display) (p : Pixel) : (d.update p).width = d.width := by
  rw [update]
  split <;> rfl

@[simp] theorem height_update (d : Display) (p : Pixel) : (d.update p).height = d.height := by
  rw [update]
  split <;> rfl

theorem Filled.update (h : d.Filled) (p : Pixel) : (d.update p).Filled := by
  rw [Filled, width_update, height_update, Display.update]
  split
  · exact Array.size_setIfInBounds.trans h
  · exact h

end Display

end RiscvSoc
