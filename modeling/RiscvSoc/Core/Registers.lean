/-! The 32 integer registers. Register 0 reads zero and ignores writes, as do indices beyond 31. -/

namespace RiscvSoc

structure Registers where
  values : Vector UInt32 32
  deriving DecidableEq

namespace Registers

def zeroed : Registers :=
  ⟨Vector.replicate 32 0⟩

def read (r : Registers) (index : Nat) : UInt32 :=
  if index = 0 then 0 else r.values[index]?.getD 0

def write (r : Registers) (index : Nat) (value : UInt32) : Registers :=
  if index = 0 then r else ⟨r.values.setIfInBounds index value⟩

@[simp] theorem read_zero (r : Registers) : r.read 0 = 0 := rfl

@[simp] theorem read_zeroed (i : Nat) : zeroed.read i = 0 := by
  simp only [read, zeroed, Vector.getElem?_replicate]
  split
  · rfl
  · split <;> rfl

theorem read_write (r : Registers) (i j : Nat) (v : UInt32) :
    (r.write i v).read j = if i = j ∧ 0 < i ∧ i < 32 then v else r.read j := by
  by_cases hi : i = 0
  · simp [write, hi]
  · by_cases hij : i = j
    · subst hij
      by_cases hb : i < 32 <;> simp [write, read, hi, hb, Nat.pos_of_ne_zero hi]
    · simp [write, read, hi, hij]

def toList (r : Registers) : List UInt32 :=
  r.values.toList

end Registers

end RiscvSoc
