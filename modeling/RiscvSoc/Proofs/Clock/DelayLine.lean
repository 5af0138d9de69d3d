import Mathlib.Data.List.Induction
import RiscvSoc.Clock.Synchronizer

/-! A synchronizer is a delay line. Each clock pushes the value in front out and a sample in at the
back, so that the stages always hold the end of what has come in, the oldest sample in front. -/

namespace RiscvSoc.Synchronizer

variable {α : Type} {s : Synchronizer α}

theorem depth_ofDepth_pos (depth : Nat) (rest : α) : 0 < (ofDepth depth rest).depth := by
  rw [depth_ofDepth]
  exact Nat.lt_of_lt_of_le (by decide : 0 < minStages) (Nat.le_max_left _ _)

theorem stages_foldl_clock (h : 0 < s.depth) (samples : List α) :
    (samples.foldl clock s).stages = (s.stages ++ samples).drop samples.length := by
  induction samples using List.reverseRecOn with
  | nil => exact (List.append_nil s.stages).symm
  | append_singleton samples x ih =>
    have hle : samples.length + 1 ≤ (s.stages ++ samples).length := by
      rw [List.length_append, Nat.add_comm]
      exact Nat.add_le_add_right h samples.length
    rw [List.foldl_append, List.foldl_cons, List.foldl_nil, clock, ih, List.drop_drop,
      ← List.append_assoc, List.length_append, List.length_singleton,
      List.drop_append_of_le_length hle]

theorem depth_foldl_clock (h : 0 < s.depth) (samples : List α) :
    (samples.foldl clock s).depth = s.depth := by
  rw [depth, stages_foldl_clock h, List.length_drop, List.length_append, Nat.add_sub_cancel]
  rfl

variable [Inhabited α]

theorem output_foldl_clock (h : 0 < s.depth) (samples : List α) :
    (s.stages ++ samples)[samples.length]? = some (samples.foldl clock s).output := by
  have hlt : samples.length < (s.stages ++ samples).length := by
    rw [List.length_append]
    exact Nat.lt_add_of_pos_left h
  rw [output, List.headD_eq_head?_getD, stages_foldl_clock h, List.head?_drop,
    List.getElem?_eq_getElem hlt, Option.getD_some]

/-- With `d` stages, the sample taken as the `d`-th last one is shown; before there are so many, what
the stages held at first. -/
theorem output_ofDepth (depth : Nat) (rest : α) (samples : List α) :
    let d := max minStages depth
    let shown := (samples.foldl clock (ofDepth depth rest)).output
    if d ≤ samples.length then samples[samples.length - d]? = some shown else shown = rest := by
  intro d shown
  have hshown := output_foldl_clock (depth_ofDepth_pos depth rest) samples
  have hlength : (ofDepth depth rest).stages.length = d := depth_ofDepth depth rest
  split
  · rename_i hle
    rwa [List.getElem?_append_right (hlength ▸ hle), hlength] at hshown
  · rename_i hlt
    rw [List.getElem?_append_left (hlength ▸ Nat.lt_of_not_le hlt)] at hshown
    exact List.eq_of_mem_replicate (List.mem_of_getElem? hshown)

example : ([7, 8, 9, 10].foldl clock (ofDepth 3 0)).output = 8 := by
  decide

end RiscvSoc.Synchronizer
