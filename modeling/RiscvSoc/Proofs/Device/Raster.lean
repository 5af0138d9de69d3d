import Mathlib.Algebra.Order.Group.Nat
import RiscvSoc.Device.Vga
import RiscvSoc.Proofs.Clock.Edges

/-! The scan as a raster. Its position is read off the number of pixel clocks by division, so that
each frame visits every position, and the falls of the vertical sync are one frame apart. -/

namespace RiscvSoc

theorem Word.toNat_sums {a b c d : UInt32} (h : a.toNat + b.toNat + c.toNat + d.toNat < 2 ^ 32) :
    (a + b).toNat = a.toNat + b.toNat ∧ (a + b + c).toNat = (a + b).toNat + c.toNat ∧
      (a + b + c + d).toNat = (a + b + c).toNat + d.toNat := by
  simp only [UInt32.toNat_add]
  omega

namespace VgaTiming

variable (t : VgaTiming)

/-- Pixel clocks that a line takes; a line of no clocks still takes one. -/
def lineClocks : Nat :=
  max 1 t.hTotal.toNat

def frameLines : Nat :=
  max 1 t.vTotal.toNat

/-- Pixel clocks that a frame takes. -/
def frameClocks : Nat :=
  t.lineClocks * t.frameLines

/-- Pixel clocks from the top of a frame to the line where its vertical sync falls. -/
def syncClock : Nat :=
  t.lineClocks * t.vSyncStart.toNat

theorem lineClocks_pos : 0 < t.lineClocks :=
  Nat.lt_of_lt_of_le Nat.one_pos (Nat.le_max_left _ _)

theorem frameLines_pos : 0 < t.frameLines :=
  Nat.lt_of_lt_of_le Nat.one_pos (Nat.le_max_left _ _)

theorem frameClocks_pos : 0 < t.frameClocks :=
  Nat.mul_pos t.lineClocks_pos t.frameLines_pos

/-- No sum of the timing is too large for a word. -/
structure Fits : Prop where
  line : t.hActive.toNat + t.hFrontPorch.toNat + t.hSync.toNat + t.hBackPorch.toNat < 2 ^ 32
  frame : t.vActive.toNat + t.vFrontPorch.toNat + t.vSync.toNat + t.vBackPorch.toNat < 2 ^ 32

/-- The vertical sync falls once a frame: a pulse that takes no line, or the whole frame, would not
fall again. -/
structure Pulses : Prop extends Fits t where
  sync : 0 < t.vSync.toNat
  off : 0 < t.vActive.toNat + t.vFrontPorch.toNat + t.vBackPorch.toNat

variable {t}

theorem Fits.frame_sums (h : t.Fits) :
    t.vSyncStart.toNat = t.vActive.toNat + t.vFrontPorch.toNat ∧
      t.vSyncEnd.toNat = t.vSyncStart.toNat + t.vSync.toNat ∧
      t.vTotal.toNat = t.vSyncEnd.toNat + t.vBackPorch.toNat :=
  Word.toNat_sums h.frame

theorem Pulses.frameLines_eq (h : t.Pulses) :
    t.frameLines = t.vSyncEnd.toNat + t.vBackPorch.toNat ∧
      t.vSyncStart.toNat < t.vSyncEnd.toNat ∧ 0 < t.vSyncStart.toNat + t.vBackPorch.toNat := by
  obtain ⟨hstart, hend, htotal⟩ := h.frame_sums
  have hsync := h.sync
  have hoff := h.off
  rw [frameLines, htotal]
  omega

theorem Pulses.syncClock_lt (h : t.Pulses) : t.syncClock < t.frameClocks := by
  obtain ⟨hlines, hpulse, -⟩ := h.frameLines_eq
  apply Nat.mul_lt_mul_of_pos_left _ t.lineClocks_pos
  omega

end VgaTiming

namespace ScanPosition

variable (t : VgaTiming) (k : Nat)

/-- The position after `k` pixel clocks from the origin. -/
def after : ScanPosition :=
  ⟨k % t.lineClocks, k / t.lineClocks % t.frameLines⟩

theorem after_zero : after t 0 = origin := by
  rw [after, Nat.zero_div, Nat.zero_mod, Nat.zero_mod, origin]

private theorem succ_lt_max_iff {a b : Nat} : a + 1 < b ↔ a + 1 < max 1 b := by
  omega

theorem next_after : (after t k).next t = after t (k + 1) := by
  simp only [next, after, succ_lt_max_iff (b := t.hTotal.toNat),
    succ_lt_max_iff (b := t.vTotal.toNat)]
  change (if k % t.lineClocks + 1 < t.lineClocks then _ else
    if k / t.lineClocks % t.frameLines + 1 < t.frameLines then _ else _) = _
  rcases ClockDivider.succ_div_mod t.lineClocks_pos k with ⟨hx, hm, hq⟩ | ⟨hx, hm, hq⟩
  · rw [if_neg (Nat.not_lt.mpr hx.ge), hm, hq]
    rcases ClockDivider.succ_div_mod t.frameLines_pos (k / t.lineClocks) with
      ⟨hy, hm', _⟩ | ⟨hy, hm', _⟩
    · rw [if_neg (Nat.not_lt.mpr hy.ge), hm', origin]
    · rw [if_pos hy, hm']
  · rw [if_pos hx, hm, hq]

theorem vsync_eq_false_iff {p : ScanPosition} :
    p.vsync t = false ↔ t.vSyncStart.toNat ≤ p.y ∧ p.y < t.vSyncEnd.toNat := by
  rw [vsync, Bool.not_eq_false', Bool.and_eq_true, decide_eq_true_iff, decide_eq_true_iff]

/-- The vertical sync that pixel clock `k` finds; it is high before the first. -/
def syncBefore : Nat → Bool
  | 0 => true
  | k + 1 => (after t k).vsync t

/-- The place within the frame at which the vertical sync is due to fall. -/
theorem mod_eq_syncClock_iff :
    k % t.frameClocks = t.syncClock ↔ (after t k).x = 0 ∧ (after t k).y = t.vSyncStart.toNat := by
  have hx : k % t.lineClocks < t.lineClocks := Nat.mod_lt k t.lineClocks_pos
  rw [VgaTiming.frameClocks, VgaTiming.syncClock, Nat.mod_mul]
  change k % t.lineClocks + t.lineClocks * (k / t.lineClocks % t.frameLines) = _ ↔
    k % t.lineClocks = 0 ∧ k / t.lineClocks % t.frameLines = t.vSyncStart.toNat
  generalize k % t.lineClocks = x at hx
  generalize k / t.lineClocks % t.frameLines = y
  constructor
  · intro h
    have hy := congrArg (· / t.lineClocks) h
    have hzero := congrArg (· % t.lineClocks) h
    simp only [Nat.add_mul_div_left _ _ t.lineClocks_pos, Nat.div_eq_of_lt hx, Nat.zero_add,
      Nat.mul_div_cancel_left _ t.lineClocks_pos] at hy
    simp only [Nat.add_mul_mod_self_left, Nat.mod_eq_of_lt hx, Nat.mul_mod_right] at hzero
    exact ⟨hzero, hy⟩
  · rintro ⟨rfl, rfl⟩
    rw [Nat.zero_add]

/-- The vertical sync falls at the start of its first line. -/
theorem falls_iff (hpulses : t.Pulses) :
    (syncBefore t k && !(after t k).vsync t) = true ↔ k % t.frameClocks = t.syncClock := by
  obtain ⟨hlines, hpulse, hoff⟩ := hpulses.frameLines_eq
  rw [mod_eq_syncClock_iff, Bool.and_eq_true, Bool.not_eq_true', vsync_eq_false_iff]
  cases k with
  | zero =>
    simp only [syncBefore, after_zero, origin, true_and]
    omega
  | succ k =>
    have hbefore : syncBefore t (k + 1) = true ↔
        ¬ (t.vSyncStart.toNat ≤ (after t k).y ∧ (after t k).y < t.vSyncEnd.toNat) := by
      rw [← vsync_eq_false_iff, Bool.not_eq_false]
      rfl
    rw [hbefore]
    -- Within a line the sync does not move, so only the starts of lines can be falls.
    rcases ClockDivider.succ_div_mod t.lineClocks_pos k with ⟨_, hx, hq⟩ | ⟨_, hx, hq⟩
    · rcases ClockDivider.succ_div_mod t.frameLines_pos (k / t.lineClocks) with
        ⟨hy, hy', _⟩ | ⟨hy, hy', _⟩
      · simp only [after, hx, hq, hy', true_and]
        omega
      · simp only [after, hx, hq, hy', true_and]
        omega
    · simp only [after, hx, hq]
      omega

/-- Falls of the vertical sync in the first `k` pixel clocks. -/
def framesAfter : Nat :=
  k / t.frameClocks + if t.syncClock < k % t.frameClocks then 1 else 0

theorem framesAfter_zero : framesAfter t 0 = 0 := by
  rw [framesAfter, Nat.zero_div, Nat.zero_mod, if_neg (Nat.not_lt_zero _)]

theorem framesAfter_succ (hpulses : t.Pulses) :
    framesAfter t (k + 1) =
      framesAfter t k + if k % t.frameClocks = t.syncClock then 1 else 0 := by
  have hlt := hpulses.syncClock_lt
  simp only [framesAfter]
  rcases ClockDivider.succ_div_mod t.frameClocks_pos k with ⟨hm, hm', hq⟩ | ⟨hm, hm', hq⟩
  · rw [hm', hq]
    split <;> split <;> split <;> omega
  · rw [hm', hq]
    split <;> split <;> split <;> omega

/-- Frame `j`, counted from zero, is complete with the fall of its sync. -/
theorem framesAfter_of_fall (hpulses : t.Pulses) (j : Nat) :
    framesAfter t (t.syncClock + t.frameClocks * j + 1) = j + 1 := by
  have hlt := hpulses.syncClock_lt
  have hfall : (t.syncClock + t.frameClocks * j) % t.frameClocks = t.syncClock := by
    rw [Nat.add_mul_mod_self_left, Nat.mod_eq_of_lt hlt]
  rw [framesAfter_succ t _ hpulses, if_pos hfall, framesAfter, hfall, if_neg (Nat.lt_irrefl _),
    Nat.add_zero, Nat.add_mul_div_left _ _ t.frameClocks_pos, Nat.div_eq_of_lt hlt, Nat.zero_add]

end ScanPosition

namespace Vga

variable (g : Vga)

@[simp] theorem timing_write (offset value : UInt32) : (g.write offset value).timing = g.timing := by
  simp only [write]
  repeat' split
  all_goals rfl

@[simp] theorem position_write (offset value : UInt32) :
    (g.write offset value).position = g.position := by
  simp only [write]
  repeat' split
  all_goals rfl

@[simp] theorem timing_tick : g.tick.timing = g.timing := rfl

@[simp] theorem position_tick : g.tick.position = g.position := rfl

@[simp] theorem position_scan : g.scan.position = g.position.next g.timing := rfl

end Vga

end RiscvSoc
