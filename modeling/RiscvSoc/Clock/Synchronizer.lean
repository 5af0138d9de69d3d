/-! A chain of registers that a signal passes through on its way into another clock domain. -/

namespace RiscvSoc

/-- The registers, the one next to the output in front. -/
structure Synchronizer (α : Type) where
  stages : List α

namespace Synchronizer

variable {α : Type}

/-- The fewest stages that are safe to cross with. -/
def minStages : Nat := 2

/-- At least `minStages` stages, all holding `rest`. -/
def ofDepth (depth : Nat) (rest : α) : Synchronizer α :=
  ⟨List.replicate (max minStages depth) rest⟩

def depth (s : Synchronizer α) : Nat :=
  s.stages.length

def output [Inhabited α] (s : Synchronizer α) : α :=
  s.stages.headD default

/-- Shifts a sample into the first stage. -/
def clock (s : Synchronizer α) (sample : α) : Synchronizer α :=
  ⟨s.stages.drop 1 ++ [sample]⟩

@[simp] theorem depth_ofDepth (n : Nat) (rest : α) :
    (ofDepth n rest).depth = max minStages n := by
  simp [ofDepth, depth]

end Synchronizer

end RiscvSoc
