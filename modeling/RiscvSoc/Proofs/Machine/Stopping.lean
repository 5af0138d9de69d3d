import Mathlib.Data.Nat.Count
import Mathlib.Order.Bounds.Defs
import RiscvSoc.Machine.Run
import RiscvSoc.Proofs.Machine.Pace

/-! The end of a run. A run stops with the first step that meets a condition for stopping, and the
step budget makes sure that there is one. Steps are numbered from one: step `s` takes the machine
from `after (s - 1)` to `after s`. -/

namespace RiscvSoc.Machine

variable (m : Machine)

/-- After step `s`, the polled word holds the halt value. Address zero turns polling off. -/
def HaltsAt (s : Nat) : Prop :=
  m.settings.haltAddress ≠ 0 ∧
    (m.after s).soc.bus.memory.read (m.settings.haltAddress &&& deviceMask) = m.settings.haltValue

/-- Step `s` presents a frame, and the display asks to stop. -/
def QuitsAt (s : Nat) : Prop :=
  (m.after s).stats.framesPresented = (m.after (s - 1)).stats.framesPresented + 1 ∧
    (m.after s).display.any Display.quitRequested = true

def TimesOutAt (s : Nat) : Prop :=
  m.settings.cycleBudget ≤ m.stats.steps + s

def StopsAt (s : Nat) : Prop :=
  0 < s ∧ (m.HaltsAt s ∨ m.QuitsAt s ∨ m.TimesOutAt s)

instance (s : Nat) : Decidable (m.HaltsAt s) := inferInstanceAs (Decidable (_ ∧ _))

instance (s : Nat) : Decidable (m.QuitsAt s) := inferInstanceAs (Decidable (_ ∧ _))

instance (s : Nat) : Decidable (m.TimesOutAt s) := inferInstanceAs (Decidable (_ ≤ _))

instance (s : Nat) : Decidable (m.StopsAt s) := inferInstanceAs (Decidable (_ ∧ _))

/-- The outcome of a run that stops with step `s`; the first condition counts. -/
def outcomeAt (s : Nat) : Outcome :=
  { reason :=
      if m.HaltsAt s then .halted else if m.QuitsAt s then .quitRequested else .timedOut
    steps := m.stats.steps + s }

def RunsOn (t : Nat) : Prop :=
  ∀ s ≤ t, ¬ m.StopsAt s

/-- Step `s` commits an edge of the core outside reset. -/
def CommitsAt (s : Nat) : Prop :=
  (m.after (s - 1)).coreClock.step.2 = .rising ∧ m.settings.resetSteps < m.stats.steps + s

instance (s : Nat) : Decidable (m.CommitsAt s) := inferInstanceAs (Decidable (_ ∧ _))

/-- The edges of the core outside reset that steps `1` to `t` commit. -/
def edges (t : Nat) : Nat :=
  Nat.count (fun k => m.CommitsAt (k + 1)) t

@[simp] theorem frames_recordTraffic (s : Stats) (t : Traffic) :
    (s.recordTraffic t).framesPresented = s.framesPresented := by
  cases t <;> rfl

@[simp] theorem cycles_recordTraffic (s : Stats) (t : Traffic) :
    (s.recordTraffic t).cycles = s.cycles := by
  cases t <;> rfl

@[simp] theorem frames_recordEdge (s : Stats) (r : EdgeReport) :
    (s.recordEdge r).framesPresented = s.framesPresented := by
  obtain ⟨retired, transition⟩ := r
  cases transition <;> rfl

@[simp] theorem cycles_recordEdge (s : Stats) (r : EdgeReport) :
    (s.recordEdge r).cycles = s.cycles + 1 := by
  obtain ⟨retired, transition⟩ := r
  cases transition <;> rfl

private theorem risingEdge_counts :
    m.risingEdge.stats.framesPresented = m.stats.framesPresented ∧
      m.risingEdge.stats.cycles = m.stats.cycles + if m.wires.reset = false then 1 else 0 := by
  simp only [risingEdge]
  cases m.wires.reset with
  | true => exact ⟨rfl, rfl⟩
  | false => simp

/-- The core's clock presents no frame, and counts a cycle on an edge outside reset. -/
theorem clockCore_counts :
    m.clockCore.stats.framesPresented = m.stats.framesPresented ∧
      m.clockCore.stats.cycles = m.stats.cycles +
        if m.coreClock.step.2 = .rising ∧ m.wires.reset = false then 1 else 0 := by
  simp only [clockCore]
  split
  · rename_i hrise
    obtain ⟨hframes, hcycles⟩ := risingEdge_counts { m with coreClock := m.coreClock.step.1 }
    refine ⟨hframes, hcycles.trans ?_⟩
    simp only [hrise, true_and]
  · rename_i hlow
    rw [if_neg fun h => hlow h.1]
    exact ⟨rfl, rfl⟩

/-- The pixel side of a step counts no cycle, and asks to stop only when it has presented a frame
and the display wants to stop. -/
private structure Shows (m : Machine) (r : Machine × Bool) : Prop where
  cycles : r.1.stats.cycles = m.stats.cycles
  quit : r.2 = true ↔ r.1.stats.framesPresented = m.stats.framesPresented + 1 ∧
    r.1.display.any Display.quitRequested = true

private theorem Shows.quiet {m m' : Machine} (h : m'.stats = m.stats) : Shows m (m', false) := by
  refine ⟨congrArg Stats.cycles h, fun hquit => (Bool.false_ne_true hquit).elim, ?_⟩
  rintro ⟨hframes, _⟩
  exact absurd (hframes.symm.trans (congrArg Stats.framesPresented h)) (Nat.succ_ne_self _)

private theorem showPixel_shows (p : Pixel) : Shows m (m.showPixel p) := by
  simp only [showPixel]
  cases (m.previousVsync && !p.vsync && m.display.isSome) with
  | true =>
    refine ⟨rfl, ?_⟩
    simp only [if_true, Bool.true_and, true_and]
  | false => exact .quiet rfl

private theorem scanPixel_shows : Shows m m.scanPixel := by
  unfold scanPixel
  split
  · rename_i p _
    obtain ⟨hcycles, hquit⟩ := showPixel_shows
      { m with soc := { m.soc with bus := m.soc.bus.scan } } p
    exact ⟨hcycles, hquit⟩
  · exact .quiet rfl

private theorem clockPixel_shows : Shows m m.clockPixel := by
  simp only [clockPixel]
  split
  · obtain ⟨hcycles, hquit⟩ := scanPixel_shows { m with pixelClock := m.pixelClock.step.1 }
    exact ⟨hcycles, hquit⟩
  · exact .quiet rfl

private theorem trace_shown : m.trace.stats = m.stats ∧ m.trace.display = m.display := by
  unfold trace
  split <;> exact ⟨rfl, rfl⟩

/-- What a step gives, and how its counters and the display bear on it. -/
private structure Gives (m : Machine) (quit : Bool) (m' : Machine) (o : Option Outcome) : Prop where
  outcome : o = m'.outcome? quit
  quit : quit = true ↔ m'.stats.framesPresented = m.stats.framesPresented + 1 ∧
    m'.display.any Display.quitRequested = true
  cycles : m'.stats.cycles = m.stats.cycles +
    if m.coreClock.step.2 = .rising ∧ m.settings.resetSteps < m.stats.steps + 1 then 1 else 0

private theorem step_gives : ∃ quit, Gives m quit m.step.1 m.step.2 := by
  let m₁ := m.beginStep.clockCore.settle
  have hstep : m.step = (m₁.clockPixel.1.trace, m₁.clockPixel.1.trace.outcome? m₁.clockPixel.2) := by
    rw [step]
  have hframes : m₁.stats.framesPresented = m.stats.framesPresented :=
    (clockCore_counts m.beginStep).1
  have hcore := (clockCore_counts m.beginStep).2
  obtain ⟨hpixel, hquit⟩ := clockPixel_shows m₁
  obtain ⟨hstats, hdisplay⟩ := trace_shown m₁.clockPixel.1
  have hreset : m.beginStep.wires.reset = false ↔ m.settings.resetSteps < m.stats.steps + 1 := by
    simp only [beginStep, decide_eq_false_iff_not, Nat.not_le]
  have hrise : m.beginStep.coreClock = m.coreClock := rfl
  have hcycles : m.beginStep.stats.cycles = m.stats.cycles := rfl
  refine ⟨m₁.clockPixel.2, ?_⟩
  rw [hstep]
  constructor
  · dsimp only
  · rw [hstats, hdisplay, ← hframes]
    exact hquit
  · rw [hstats, hpixel]
    simp only [hreset, hrise, hcycles] at hcore
    exact hcore

theorem settings_after (s : Nat) : (m.after s).settings = m.settings := by
  induction s with
  | zero => rfl
  | succ s ih => rw [after_succ, (m.after s).steps_step.settings, ih]

theorem steps_after (s : Nat) : (m.after s).stats.steps = m.stats.steps + s := by
  induction s with
  | zero => rfl
  | succ s ih => rw [after_succ, (m.after s).steps_step.steps, ih, Nat.add_assoc]

private theorem isHalted_after (s : Nat) : (m.after s).isHalted = true ↔ m.HaltsAt s := by
  simp only [isHalted, HaltsAt, settings_after, Bool.and_eq_true, bne_iff_ne, beq_iff_eq]

theorem step_after (k : Nat) :
    (m.after k).step =
      (m.after (k + 1), if m.StopsAt (k + 1) then some (m.outcomeAt (k + 1)) else none) := by
  obtain ⟨quit, hgives⟩ := (m.after k).step_gives
  have hhalt := m.isHalted_after (k + 1)
  have hquit : quit = true ↔ m.QuitsAt (k + 1) := by
    rw [hgives.quit, QuitsAt, after_succ, Nat.add_sub_cancel]
  refine Prod.ext (m.after_succ k).symm ?_
  rw [hgives.outcome, ← after_succ]
  simp only [outcome?, hhalt, hquit, settings_after, steps_after, StopsAt, outcomeAt, TimesOutAt,
    Nat.succ_pos, true_and]
  by_cases hH : m.HaltsAt (k + 1)
  · simp only [hH, if_true, true_or]
  · by_cases hQ : m.QuitsAt (k + 1)
    · simp only [hH, hQ, if_true, if_false, true_or, false_or]
    · simp only [hH, hQ, if_false, false_or]

variable {m} {k : Nat}

theorem runsOn_zero : m.RunsOn 0 := by
  intro s hs hstop
  exact absurd hstop.1 (Nat.not_lt.mpr hs)

theorem RunsOn.succ (h : m.RunsOn k) (hs : ¬ m.StopsAt (k + 1)) : m.RunsOn (k + 1) := by
  intro s hle
  rcases Nat.le_succ_iff.mp hle with hle | rfl
  · exact h s hle
  · exact hs

theorem RunsOn.isLeast (h : m.RunsOn k) (hs : m.StopsAt (k + 1)) :
    IsLeast {s | m.StopsAt s} (k + 1) := by
  refine ⟨hs, fun s hstop => ?_⟩
  by_contra hlt
  exact h s (by omega) hstop

theorem stopsAt_stepsLeft (m : Machine) : m.StopsAt m.stepsLeft := by
  refine ⟨?_, .inr (.inr ?_)⟩
  · rw [stepsLeft]
    omega
  · rw [TimesOutAt, stepsLeft]
    omega

/-- Steps from `after k` on come to the first stop or, without one, to their end. -/
theorem runSteps_after (count : Nat) (hk : m.RunsOn k) :
    (m.RunsOn (k + count) ∧ runSteps count (m.after k) = (m.after (k + count), none)) ∨
      ∃ s, IsLeast {s | m.StopsAt s} s ∧
        runSteps count (m.after k) = (m.after s, some (m.outcomeAt s)) := by
  induction count generalizing k with
  | zero => exact .inl ⟨hk, rfl⟩
  | succ count ih =>
    rw [runSteps, step_after]
    by_cases hs : m.StopsAt (k + 1)
    · rw [if_pos hs]
      exact .inr ⟨k + 1, hk.isLeast hs, rfl⟩
    · rw [if_neg hs, ← Nat.add_assoc, Nat.add_right_comm]
      exact ih (hk.succ hs)

theorem runToStop_eq (m : Machine) :
    ∃ s, IsLeast {s | m.StopsAt s} s ∧ m.runToStop = (m.after s, m.outcomeAt s) := by
  rw [runToStop]
  rcases runSteps_after m.stepsLeft m.runsOn_zero with ⟨hruns, _⟩ | ⟨s, hleast, hsteps⟩
  · rw [Nat.zero_add] at hruns
    exact absurd m.stopsAt_stepsLeft (hruns _ le_rfl)
  · rw [after] at hsteps
    rw [hsteps]
    exact ⟨s, hleast, rfl⟩

/-- Up to step `k` nothing has ended the loop that counts `n` cycles. -/
private structure Counting (m : Machine) (n k : Nat) : Prop where
  runsOn : m.RunsOn k
  below : ∀ j < k, m.edges j < n

private theorem Counting.succ {n : Nat} (h : Counting m n k) (hlt : m.edges k < n)
    (hs : ¬ m.StopsAt (k + 1)) : Counting m n (k + 1) := by
  refine ⟨h.runsOn.succ hs, fun j hj => ?_⟩
  rcases Nat.lt_succ_iff_lt_or_eq.mp hj with hj | rfl
  · exact h.below j hj
  · exact hlt

theorem stats_finishTrace (m : Machine) : m.finishTrace.1.stats = m.stats := by
  unfold finishTrace
  split <;> rfl

end RiscvSoc.Machine
