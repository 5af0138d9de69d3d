import RiscvSoc.Proofs.Clock.DelayLine
import RiscvSoc.Proofs.Device.Picture

namespace RiscvSoc.Vga

/-- The raw flags that the edges of the core's clock among the actions sample, in their order. -/
def sampledFlags (g : Vga) : List Action → List Bool
  | [] => []
  | .tick :: rest => g.vblankRaw :: g.tick.sampledFlags rest
  | x :: rest => (g.act x).sampledFlags rest

theorem vblank_write (g : Vga) (offset value : UInt32) :
    (g.write offset value).vblank = g.vblank := by
  simp only [write]
  repeat' split
  all_goals rfl

theorem read_status (g : Vga) : g.read 0x0 = Word.ofBool g.vblank.output := rfl

theorem vblank_foldl (g : Vga) (actions : List Action) :
    (actions.foldl act g).vblank = (g.sampledFlags actions).foldl Synchronizer.clock g.vblank := by
  induction actions generalizing g with
  | nil => rfl
  | cons x actions ih =>
    rw [List.foldl_cons, ih]
    cases x with
    | write offset value =>
      rw [act, vblank_write]
      rfl
    | tick => rfl
    | scan => rfl

theorem length_sampledFlags (g : Vga) (actions : List Action) :
    (g.sampledFlags actions).length = actions.count .tick := by
  induction actions generalizing g with
  | nil => rfl
  | cons x actions ih =>
    cases x with
    | write offset value =>
      rw [List.count_cons_of_ne (by nofun)]
      exact ih _
    | tick =>
      rw [List.count_cons_self]
      exact congrArg Nat.succ (ih _)
    | scan =>
      rw [List.count_cons_of_ne (by nofun)]
      exact ih _

theorem exists_edge_of_sampled {g : Vga} {actions : List Action} {k : Nat} {flag : Bool}
    (h : (g.sampledFlags actions)[k]? = some flag) :
    ∃ before after, actions = before ++ .tick :: after ∧ before.count .tick = k ∧
      (before.foldl act g).vblankRaw = flag := by
  induction actions generalizing g k with
  | nil => exact absurd h (by rw [sampledFlags, List.getElem?_nil]; nofun)
  | cons x actions ih =>
    have hlater : ∀ {k}, ((g.act x).sampledFlags actions)[k]? = some flag →
        ∃ before after, x :: actions = before ++ .tick :: after ∧
          before.count .tick = k + [x].count .tick ∧ (before.foldl act g).vblankRaw = flag := by
      intro k hk
      obtain ⟨before, after, rfl, hcount, hflag⟩ := ih hk
      refine ⟨x :: before, after, rfl, ?_, hflag⟩
      rw [← List.singleton_append, List.count_append, hcount, Nat.add_comm]
    cases x with
    | write offset value => exact hlater h
    | scan => exact hlater h
    | tick =>
      cases k with
      | zero => exact ⟨[], actions, rfl, rfl, Option.some.inj h⟩
      | succ k => exact hlater h

theorem read_status_foldl (t : VgaTiming) (depth : Nat) (actions : List Action) :
    let d := max 2 depth
    let n := actions.count .tick
    if d ≤ n then
      ∃ before after, actions = before ++ .tick :: after ∧ before.count .tick = n - d ∧
        (actions.foldl act (initial t depth)).read 0x0 =
          Word.ofBool (before.foldl act (initial t depth)).vblankRaw
    else (actions.foldl act (initial t depth)).read 0x0 = 0 := by
  intro d n
  let flags := (initial t depth).sampledFlags actions
  let shown := (flags.foldl Synchronizer.clock (.ofDepth depth false)).output
  have hread : (actions.foldl act (initial t depth)).read 0x0 = Word.ofBool shown := by
    rw [read_status, vblank_foldl]
    rfl
  have hshown : if d ≤ flags.length then flags[flags.length - d]? = some shown
      else shown = false := Synchronizer.output_ofDepth depth false flags
  have hlength : flags.length = n := length_sampledFlags _ _
  rw [hlength] at hshown
  rw [hread]
  split
  · rename_i hle
    rw [if_pos hle] at hshown
    obtain ⟨before, after, hactions, hcount, hflag⟩ := exists_edge_of_sampled hshown
    exact ⟨before, after, hactions, hcount, congrArg Word.ofBool hflag.symm⟩
  · rename_i hlt
    rw [if_neg hlt] at hshown
    rw [hshown]
    rfl

theorem read_status_between (g : Vga) {between : List Action} (h : .tick ∉ between) :
    (between.foldl act g).read 0x0 = g.read 0x0 := by
  have hnone : g.sampledFlags between = [] := by
    rw [← List.length_eq_zero_iff, length_sampledFlags, List.count_eq_zero]
    exact h
  rw [read_status, vblank_foldl, hnone, List.foldl_nil, read_status]

/-- A synchronizer of a requested depth has that many stages, at least two, and shows the sample that
was taken that many clocks ago. So the status register reads as the raw vertical-blank flag of that
many edges of the core's clock ago, or as zero before there were so many edges, and neither a pixel
clock nor a write of a register in between changes it. -/
theorem blank_flag_delayed {α : Type} [Inhabited α] (depth : Nat) :
    let d := max 2 depth
    (∀ samples : List α,
      let s := samples.foldl Synchronizer.clock (.ofDepth depth default)
      s.depth = d ∧
        if d ≤ samples.length then samples[samples.length - d]? = some s.output
        else s.output = default) ∧
      ∀ (t : VgaTiming) (actions : List Action),
        let g := actions.foldl act (initial t depth)
        let n := actions.count .tick
        (if d ≤ n then
          ∃ before after, actions = before ++ .tick :: after ∧ before.count .tick = n - d ∧
            g.read 0x0 = Word.ofBool (before.foldl act (initial t depth)).vblankRaw
        else g.read 0x0 = 0) ∧
        ∀ between : List Action, .tick ∉ between →
          (between.foldl act g).read 0x0 = g.read 0x0 := by
  intro d
  constructor
  · intro samples
    refine ⟨?_, Synchronizer.output_ofDepth depth default samples⟩
    rw [Synchronizer.depth_foldl_clock (Synchronizer.depth_ofDepth_pos depth default)]
    exact Synchronizer.depth_ofDepth depth default
  · intro t actions g n
    exact ⟨read_status_foldl t depth actions, fun between => read_status_between g⟩

end RiscvSoc.Vga
