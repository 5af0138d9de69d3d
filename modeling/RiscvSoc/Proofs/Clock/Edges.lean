import Mathlib.Algebra.Ring.Nat
import Mathlib.Data.Nat.Find
import RiscvSoc.Clock.Divider

/-! Where the edges of a divided clock fall: with half a period of `divider + 1` steps, the clock
rises on the odd multiples of it and falls on the even ones. Its whole state is read off the step
number by division. Only the largest divider is never passed, since the counter wraps first. -/

namespace RiscvSoc.ClockDivider

section Multiples

variable {b n : Nat}

theorem odd_multiple_iff (hb : 0 < b) :
    (∃ k, n = (2 * k + 1) * b) ↔ n % b = 0 ∧ n / b % 2 = 1 := by
  constructor
  · rintro ⟨k, rfl⟩
    rw [Nat.mul_mod_left, Nat.mul_div_cancel _ hb]
    exact ⟨rfl, by omega⟩
  · rintro ⟨hmod, hodd⟩
    refine ⟨n / b / 2, ?_⟩
    have hq : 2 * (n / b / 2) + 1 = n / b := by omega
    rw [hq, Nat.div_mul_cancel (Nat.dvd_of_mod_eq_zero hmod)]

theorem even_multiple_iff (hb : 0 < b) (hn : 0 < n) :
    (∃ k, 0 < k ∧ n = 2 * k * b) ↔ n % b = 0 ∧ n / b % 2 = 0 := by
  constructor
  · rintro ⟨k, -, rfl⟩
    rw [Nat.mul_mod_left, Nat.mul_div_cancel _ hb]
    exact ⟨rfl, by omega⟩
  · rintro ⟨hmod, heven⟩
    have hcancel : n / b * b = n := Nat.div_mul_cancel (Nat.dvd_of_mod_eq_zero hmod)
    have hq : 2 * (n / b / 2) = n / b := by omega
    have hpos : 0 < n / b := by
      rw [Nat.pos_iff_ne_zero]
      intro hzero
      rw [hzero] at hcancel
      omega
    exact ⟨n / b / 2, by omega, by rw [hq, hcancel]⟩

/-- Counting on by one: the remainder is full and the quotient advances, or only the remainder
does. -/
theorem succ_div_mod (hb : 0 < b) (n : Nat) :
    (n % b + 1 = b ∧ (n + 1) % b = 0 ∧ (n + 1) / b = n / b + 1) ∨
      (n % b + 1 < b ∧ (n + 1) % b = n % b + 1 ∧ (n + 1) / b = n / b) := by
  have hlt := Nat.mod_lt n hb
  have hn := Nat.div_add_mod' n b
  rcases Nat.lt_or_eq_of_le (Nat.succ_le_of_lt hlt) with h | h
  · right
    have hu := (Nat.div_mod_unique (a := n + 1) (c := n % b + 1) (d := n / b) hb).mpr
      ⟨by rw [Nat.mul_comm]; omega, h⟩
    exact ⟨h, hu.2, hu.1⟩
  · left
    have hu := (Nat.div_mod_unique (a := n + 1) (c := 0) (d := n / b + 1) hb).mpr
      ⟨by rw [Nat.mul_add, Nat.mul_comm]; omega, hb⟩
    exact ⟨h, hu.2, hu.1⟩

end Multiples

variable {d : UInt32} {n : Nat}

/-- The register of the counter has a number past the divider, and the clock does not stand
still. -/
def Moves (d : UInt32) : Prop :=
  d.toNat + 1 < 2 ^ 32

instance : Decidable (Moves d) :=
  inferInstanceAs (Decidable (_ < _))

/-- A clock with divider `d` rises on step `n`, an odd multiple of half its period. -/
def RisesAt (d : UInt32) (n : Nat) : Prop :=
  Moves d ∧ ∃ k, n = (2 * k + 1) * (d.toNat + 1)

def after (d : UInt32) (n : Nat) : ClockDivider :=
  { divider := d
    counter := .ofNat (n % (d.toNat + 1))
    level := decide (Moves d) && n / (d.toNat + 1) % 2 == 1 }

theorem risesAt_iff : RisesAt d n ↔
    Moves d ∧ n % (d.toNat + 1) = 0 ∧ n / (d.toNat + 1) % 2 = 1 :=
  and_congr_right' (odd_multiple_iff d.toNat.add_one_pos)

instance : Decidable (RisesAt d n) :=
  decidable_of_iff _ risesAt_iff.symm

def edgeAt (d : UInt32) (n : Nat) : ClockEdge :=
  if ¬ (Moves d ∧ n % (d.toNat + 1) = 0) then .none
  else if n / (d.toNat + 1) % 2 = 1 then .rising else .falling

theorem edgeAt_eq_rising_iff : edgeAt d n = .rising ↔ RisesAt d n := by
  rw [risesAt_iff, ← and_assoc, edgeAt]
  split
  · simp_all
  · split <;> simp_all

theorem edgeAt_eq_falling_iff (hd : Moves d) (hn : 0 < n) :
    edgeAt d n = .falling ↔ ∃ k, 0 < k ∧ n = 2 * k * (d.toNat + 1) := by
  rw [even_multiple_iff d.toNat.add_one_pos hn, edgeAt]
  split
  · simp_all
  · split <;> simp_all

theorem edgeAt_eq_none_iff (hd : Moves d) : edgeAt d n = .none ↔ ¬ (d.toNat + 1) ∣ n := by
  rw [Nat.dvd_iff_mod_eq_zero, edgeAt]
  split
  · simp_all
  · split <;> simp_all

theorem after_zero : after d 0 = start d := by
  simp [after, start]

/-- A counter that has not passed the divider passes it from the divider itself, if there is a
number beyond. -/
theorem passes_iff {r : Nat} (hr : r < d.toNat + 1) :
    d < UInt32.ofNat r + 1 ↔ Moves d ∧ r = d.toNat := by
  have hd := d.toNat_lt
  rw [UInt32.lt_iff_toNat_lt, UInt32.toNat_add, UInt32.toNat_ofNat', UInt32.toNat_one, Moves]
  omega

theorem step_after (d : UInt32) (n : Nat) :
    (after d n).step = (after d (n + 1), edgeAt d (n + 1)) := by
  have hpasses := passes_iff (Nat.mod_lt n d.toNat.add_one_pos)
  have hcount : UInt32.ofNat (n % (d.toNat + 1)) + 1 = UInt32.ofNat (n % (d.toNat + 1) + 1) :=
    (UInt32.ofNat_add _ 1).symm
  rcases succ_div_mod d.toNat.add_one_pos n with ⟨hm, hm', hq⟩ | ⟨hm, hm', hq⟩
  · by_cases hd : Moves d
    · have hover := hpasses.mpr ⟨hd, by omega⟩
      rcases Nat.mod_two_eq_zero_or_one (n / (d.toNat + 1)) with h | h
      · have h' : (n / (d.toNat + 1) + 1) % 2 = 1 := by omega
        simp [after, step, edgeAt, hover, hm', hq, h, h', hd]
      · have h' : (n / (d.toNat + 1) + 1) % 2 = 0 := by omega
        simp [after, step, edgeAt, hover, hm', hq, h, h', hd]
    · -- The counter of the largest divider wraps without an edge.
      have hlargest : d.toNat + 1 = 2 ^ 32 := by
        have hlt := d.toNat_lt
        rw [Moves] at hd
        omega
      have hwraps : UInt32.ofNat (n % (d.toNat + 1) + 1) = 0 := by
        rw [hm, hlargest]
        rfl
      simp [after, step, edgeAt, hcount, hwraps, hm', hd]
  · have hover := mt hpasses.mp fun h => by omega
    simp [after, step, edgeAt, hover, hm', hq]

@[simp] theorem after_step (d : UInt32) (n : Nat) : (after d n).step.1 = after d (n + 1) := by
  rw [step_after]

@[simp] theorem after_step_eq_rising (d : UInt32) (n : Nat) :
    (after d n).step.2 = .rising ↔ RisesAt d (n + 1) := by
  rw [step_after, edgeAt_eq_rising_iff]

def stepped (d : UInt32) : Nat → ClockDivider
  | 0 => start d
  | n + 1 => (stepped d n).step.1

theorem stepped_eq_after (d : UInt32) (n : Nat) : stepped d n = after d n := by
  induction n with
  | zero => exact after_zero.symm
  | succ n ih => rw [stepped, ih, after_step]

theorem counter_stepped_le (d : UInt32) (n : Nat) : (stepped d n).counter ≤ d := by
  have hlt : n % (d.toNat + 1) < d.toNat + 1 := Nat.mod_lt n d.toNat.add_one_pos
  have hd : n % (d.toNat + 1) < 2 ^ 32 := Nat.lt_of_lt_of_le hlt d.toNat_lt
  rw [stepped_eq_after, after, UInt32.le_iff_toNat_le, UInt32.toNat_ofNat_of_lt' hd]
  exact Nat.le_of_lt_succ hlt

/-- With a divider below the top of a 32-bit register, call `n` makes a rising edge exactly on the
odd multiples of `d + 1`, a falling one on the even ones, and none on all other calls. After it the
level is high exactly if an odd number of half periods has passed. Between calls the counter stays
within the divider, so counting on never overflows the register. -/
theorem step_by_division (hd : d.toNat + 1 < 2 ^ 32) (hn : 0 < n) :
    ((stepped d (n - 1)).step.2 = .rising ↔ ∃ k, n = (2 * k + 1) * (d.toNat + 1)) ∧
      ((stepped d (n - 1)).step.2 = .falling ↔ ∃ k, 0 < k ∧ n = 2 * k * (d.toNat + 1)) ∧
      ((stepped d (n - 1)).step.2 = .none ↔ ¬ (d.toNat + 1) ∣ n) ∧
      ((stepped d n).level = true ↔ n / (d.toNat + 1) % 2 = 1) ∧
      (∀ m, (stepped d m).counter ≤ d) ∧ (stepped d (n - 1)).counter.toNat + 1 < 2 ^ 32 := by
  have hedge : (stepped d (n - 1)).step.2 = edgeAt d n := by
    rw [stepped_eq_after, step_after, Nat.sub_add_cancel hn]
  have hlevel : (stepped d n).level = (n / (d.toNat + 1) % 2 == 1) := by
    rw [stepped_eq_after, after, decide_eq_true (p := Moves d) hd, Bool.true_and]
  have hcounter := UInt32.le_iff_toNat_le.mp (counter_stepped_le d (n - 1))
  refine ⟨?_, ?_, ?_, ?_, counter_stepped_le d, by omega⟩
  · rw [hedge, edgeAt_eq_rising_iff]
    exact and_iff_right hd
  · rw [hedge]
    exact edgeAt_eq_falling_iff hd hn
  · rw [hedge]
    exact edgeAt_eq_none_iff hd
  · rw [hlevel]
    exact beq_iff_eq

/-- With divider two, call nine is the second rising edge. -/
theorem step_by_division_secondRise :
    (2 : UInt32).toNat + 1 < 2 ^ 32 ∧ 0 < 9 ∧ (stepped 2 8).step.2 = .rising ∧
      (stepped 2 8).counter = 2 := by
  have hd : (2 : UInt32).toNat + 1 < 2 ^ 32 := by decide
  have hn : 0 < 9 := by decide
  exact ⟨hd, hn, (step_by_division hd hn).1.mpr ⟨1, rfl⟩, by decide +kernel⟩

/-- How often the clock with divider `d` rises in steps `1` to `n`. -/
def rises (d : UInt32) (n : Nat) : Nat :=
  if Moves d then (n / (d.toNat + 1) + 1) / 2 else 0

theorem rises_zero (d : UInt32) : rises d 0 = 0 := by
  rw [rises, Nat.zero_div, ite_self]

theorem rises_succ (d : UInt32) (n : Nat) :
    rises d (n + 1) = rises d n + if RisesAt d (n + 1) then 1 else 0 := by
  simp only [risesAt_iff, rises]
  by_cases hd : Moves d
  · simp only [hd, if_true, true_and]
    rcases succ_div_mod d.toNat.add_one_pos n with ⟨_, hm, hq⟩ | ⟨_, hm, hq⟩
    · rw [hm, hq]
      split <;> omega
    · rw [hm, hq, if_neg (by omega)]
      rfl
  · simp only [hd, if_false, false_and]

section Moving

variable (hd : Moves d)

include hd

theorem rises_of_rise (k : Nat) : rises d ((2 * k + 1) * (d.toNat + 1)) = k + 1 := by
  rw [rises, if_pos hd, Nat.mul_div_cancel _ d.toNat.add_one_pos]
  omega

/-- The rises are numbered from zero: number `k` falls on step `(2 * k + 1) * (d + 1)`. -/
theorem risesAt_succ_iff (n : Nat) :
    RisesAt d (n + 1) ↔ n + 1 = (2 * rises d n + 1) * (d.toNat + 1) := by
  refine ⟨fun ⟨_, k, hk⟩ => ?_, fun h => ⟨hd, _, h⟩⟩
  have hlast : n / (d.toNat + 1) = 2 * k :=
    Nat.div_eq_of_lt_le (by rw [Nat.add_mul] at hk; omega) (by omega)
  have hnumber : rises d n = k := by
    rw [rises, if_pos hd, hlast]
    omega
  rw [hk, hnumber]

/-- After any step the clock rises again: here the first rising step past `r`. -/
theorem exists_first_rise (r : Nat) :
    ∃ s, r < s ∧ RisesAt d s ∧ ∀ t, r < t → t < s → ¬ RisesAt d t := by
  have hex : ∃ s, r < s ∧ RisesAt d s :=
    ⟨(2 * r + 1) * (d.toNat + 1),
      Nat.lt_of_lt_of_le (by omega) (Nat.le_mul_of_pos_right _ (Nat.succ_pos _)), hd, r, rfl⟩
  refine ⟨Nat.find hex, (Nat.find_spec hex).1, (Nat.find_spec hex).2, fun t hr ht hrise => ?_⟩
  exact Nat.find_min hex ht ⟨hr, hrise⟩

end Moving

end RiscvSoc.ClockDivider
