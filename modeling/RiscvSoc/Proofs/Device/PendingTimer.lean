import Mathlib.Algebra.Group.Nat.Defs
import RiscvSoc.Device.Timer

/-! How long the timer holds its interrupt line up. Software lets it drop with a new limit or by
disabling the timer. Left alone, the count runs on through the whole range of 32 bits: the line is
down again from the tick on which the count starts over until it has come back to the limit. -/

namespace RiscvSoc.Timer

inductive Access where
  | tick
  | read (offset : UInt32)
  | write (offset value : UInt32)
  deriving DecidableEq

def access (t : Timer) : Access → Timer
  | .tick => t.tick
  | .read _ => t
  | .write offset value => t.write offset value

/-- A new limit, or the end of counting. -/
def Access.Clears (a : Access) : Prop :=
  (∃ value, a = .write 0x4 value) ∨ a = .write 0x8 0

variable {t : Timer}

theorem enabled_of_pending (h : t.pending = true) : t.enabled = true := by
  rw [pending, Bool.and_eq_true] at h
  exact h.1

/-- While the timer is enabled, only its ticks count. -/
theorem access_eq (ht : t.enabled = true) {a : Access} (ha : ¬ a.Clears) :
    t.access a = t.after ([a].count .tick) := by
  cases a with
  | tick =>
    have hstep := t.tick_after 0
    rwa [after_zero] at hstep
  | read offset => exact t.after_zero.symm
  | write offset value =>
    have hlimit : offset ≠ 0x4 := fun h => ha (.inl ⟨value, by rw [h]⟩)
    have hnone : [Access.write offset value].count .tick = 0 := rfl
    rw [hnone, after_zero, access, write, if_neg hlimit]
    by_cases henabled : offset = 0x8
    · have hvalue : value ≠ 0 := fun h => ha (.inr (by rw [henabled, h]))
      rw [if_pos henabled, bne_iff_ne.mpr hvalue, ← ht]
    · rw [if_neg henabled]

theorem enabled_after (t : Timer) (n : Nat) : (t.after n).enabled = t.enabled := by
  rw [after]
  split <;> rfl

theorem after_after (t : Timer) (m n : Nat) : (t.after m).after n = t.after (m + n) := by
  induction n with
  | zero => exact after_zero _
  | succ n ih => rw [← tick_after, ih, tick_after, Nat.add_assoc]

theorem foldl_access_eq (ht : t.enabled = true) {accesses : List Access}
    (hclears : ∀ a ∈ accesses, ¬ a.Clears) :
    accesses.foldl access t = t.after (accesses.count .tick) := by
  induction accesses generalizing t with
  | nil => exact t.after_zero.symm
  | cons a accesses ih =>
    have hrest : ∀ a ∈ accesses, ¬ a.Clears := fun a ha => hclears a (List.mem_cons_of_mem _ ha)
    have hfirst := access_eq ht (hclears a List.mem_cons_self)
    have henabled : (t.access a).enabled = true := by rw [hfirst, enabled_after, ht]
    rw [List.foldl_cons, ih henabled hrest, hfirst, after_after, ← List.count_append,
      List.singleton_append]

theorem pending_after_iff (ht : t.enabled = true) (n : Nat) :
    (t.after n).pending = true ↔ t.limit.toNat ≤ (t.count.toNat + n) % 2 ^ 32 := by
  rw [after, if_pos ht, pending, ht, Bool.true_and, decide_eq_true_iff, UInt32.le_iff_toNat_le,
    UInt32.toNat_add, Nat.toUInt32_eq, UInt32.toNat_ofNat', Nat.add_mod_mod]

/-- From a timer whose line is up, a run of ticks, reads and writes that neither set the limit nor
disable it leaves the line up exactly if the count, running on through 32 bits, is at the limit or
above it then; so it is up as long as the count has not started over. A single access lets the line
drop only if it sets the limit, disables the timer, or is the tick on which the count starts over
below the limit. -/
theorem pending_until_wrap (t : Timer) (hpending : t.pending = true) (accesses : List Access)
    (hclears : ∀ a ∈ accesses, ¬ a.Clears) :
    let t' := accesses.foldl access t
    let count := t.count.toNat + accesses.count .tick
    (t'.pending = true ↔ t.limit.toNat ≤ count % 2 ^ 32) ∧
      (count < 2 ^ 32 → t'.pending = true) ∧
      ∀ a, (t.access a).pending = false →
        a.Clears ∨ a = .tick ∧ t.count.toNat + 1 = 2 ^ 32 ∧ 0 < t.limit.toNat := by
  intro t' count
  have henabled := enabled_of_pending hpending
  have hreached : t.limit.toNat ≤ t.count.toNat := by
    have hnow := pending_after_iff henabled 0
    rw [after_zero, Nat.add_zero, Nat.mod_eq_of_lt t.count.toNat_lt] at hnow
    exact hnow.mp hpending
  have hiff : t'.pending = true ↔ t.limit.toNat ≤ count % 2 ^ 32 := by
    rw [show t' = t.after (accesses.count .tick) from foldl_access_eq henabled hclears]
    exact pending_after_iff henabled _
  refine ⟨hiff, fun hcount => ?_, fun a hdrop => ?_⟩
  · rw [hiff, Nat.mod_eq_of_lt hcount]
    exact Nat.le_trans hreached (Nat.le_add_right _ _)
  · by_cases ha : a.Clears
    · exact .inl ha
    · have hbelow : ¬ t.limit.toNat ≤ (t.count.toNat + [a].count .tick) % 2 ^ 32 := by
        rw [← pending_after_iff henabled, ← access_eq henabled ha, hdrop]
        exact Bool.false_ne_true
      have hrange := t.count.toNat_lt
      cases a with
      | tick =>
        rw [List.count_cons_self, List.count_nil] at hbelow
        exact .inr ⟨rfl, by omega, by omega⟩
      | read offset =>
        rw [List.count_cons_of_ne (by nofun), List.count_nil] at hbelow
        omega
      | write offset value =>
        rw [List.count_cons_of_ne (by nofun), List.count_nil] at hbelow
        omega

/-- Two ticks past the limit. -/
def ringing : Timer :=
  [Access.write 0x4 2, .write 0x8 1, .tick, .tick, .tick, .tick].foldl access initial

/-- The timer is enabled once more, and an offset without a register is written. -/
def unmoved : List Access :=
  [.tick, .read 0x4, .write 0x8 7, .write 0x10 0, .tick]

theorem pending_until_wrap_ringing :
    ringing.pending = true ∧ (∀ a ∈ unmoved, ¬ a.Clears) ∧
      (unmoved.foldl access ringing).pending = true := by
  have hpending : ringing.pending = true := by decide
  have hclears : ∀ a ∈ unmoved, ¬ a.Clears := by simp [unmoved, Access.Clears]
  exact ⟨hpending, hclears, (pending_until_wrap ringing hpending unmoved hclears).2.1 (by decide)⟩

/-- Counting with limit one, up to the last tick before the count starts over. -/
def overdue : List Access :=
  [.write 0x4 1, .write 0x8 1] ++ List.replicate (2 ^ 32 - 1) .tick

/-- The next tick lets the line drop, and nobody has touched limit or enable. -/
theorem pending_drops_at_wrap :
    (overdue.foldl access initial).pending = true ∧ ¬ Access.tick.Clears ∧
      ((overdue.foldl access initial).access .tick).pending = false := by
  have hticks : ∀ a ∈ List.replicate (2 ^ 32 - 1) Access.tick, ¬ a.Clears := by
    intro a ha
    rw [List.eq_of_mem_replicate ha]
    simp [Access.Clears]
  have hfull : overdue.foldl access initial = (Timer.mk 1 true 0).after (2 ^ 32 - 1) := by
    rw [overdue, List.foldl_append]
    refine (foldl_access_eq rfl hticks).trans ?_
    rw [List.count_replicate_self]
    rfl
  rw [hfull]
  refine ⟨by decide, by simp [Access.Clears], ?_⟩
  rw [access, tick_after]
  decide

end RiscvSoc.Timer
