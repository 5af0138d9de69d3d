import Mathlib.Algebra.Group.Nat.Defs
import RiscvSoc.Text.Hex

namespace RiscvSoc.Hex

def lowerDigits : List Char :=
  ['0', '1', '2', '3', '4', '5', '6', '7', '8', '9', 'a', 'b', 'c', 'd', 'e', 'f']

theorem digitChar_mem_lowerDigits {d : Nat} (hd : d < 16) : Nat.digitChar d ∈ lowerDigits := by
  have hall : ∀ d < 16, Nat.digitChar d ∈ lowerDigits := by decide
  exact hall d hd

theorem digitValue?_digitChar {d : Nat} (hd : d < 16) :
    digitValue? (Nat.digitChar d) = some d := by
  have hall : ∀ d < 16, digitValue? (Nat.digitChar d) = some d := by decide
  exact hall d hd

theorem digitValue?_toLower (c : Char) : digitValue? c.toLower = digitValue? c := by
  by_cases hupper : 'A'.toNat ≤ c.toNat ∧ c.toNat ≤ 'Z'.toNat
  · have hall : ∀ n ≤ 'Z'.toNat, 'A'.toNat ≤ n →
        digitValue? (Char.ofNat n).toLower = digitValue? (Char.ofNat n) := by decide
    have hc := hall c.toNat hupper.2 hupper.1
    rwa [Char.ofNat_toNat] at hc
  · have hsame : c.toLower = c := dif_neg hupper
    rw [hsame]

theorem toLower_of_digitValue? {c : Char} {d : Nat} (h : digitValue? c = some d) :
    c.toLower = Nat.digitChar d := by
  have hlast : c.toNat ≤ 'f'.toNat := by
    rw [digitValue?] at h
    split at h
    · rename_i hc
      exact Nat.le_trans (UInt32.le_iff_toNat_le.mp hc.2) (by decide)
    split at h
    · rename_i hc
      exact UInt32.le_iff_toNat_le.mp hc.2
    split at h
    · rename_i hc
      exact Nat.le_trans (UInt32.le_iff_toNat_le.mp hc.2) (by decide)
    · cases h
  have hall : ∀ n ≤ 'f'.toNat, ∀ d ∈ digitValue? (Char.ofNat n),
      (Char.ofNat n).toLower = Nat.digitChar d := by decide
  have hc := hall c.toNat hlast d
  rw [Char.ofNat_toNat] at hc
  exact hc h

theorem length_digits (count n : Nat) : (digits count n).length = count := by
  induction count generalizing n with
  | zero => rfl
  | succ count ih => rw [digits, List.length_append, ih, List.length_singleton]

theorem mem_lowerDigits {count n : Nat} {c : Char} (h : c ∈ digits count n) : c ∈ lowerDigits := by
  induction count generalizing n with
  | zero => exact absurd h List.not_mem_nil
  | succ count ih =>
    rw [digits, List.mem_append, List.mem_singleton] at h
    rcases h with h | rfl
    · exact ih h
    · exact digitChar_mem_lowerDigits (Nat.mod_lt n (by omega))

theorem value?_concat (cs : List Char) (c : Char) :
    value? (cs ++ [c]) = (value? cs).bind fun n => (digitValue? c).map (n * 16 + ·) := by
  simp only [value?, List.foldlM_append, List.foldlM_cons, List.foldlM_nil, bind_pure]
  rfl

theorem value?_digits (count n : Nat) : value? (digits count n) = some (n % 16 ^ count) := by
  induction count generalizing n with
  | zero =>
    rw [Nat.pow_zero, Nat.mod_one]
    rfl
  | succ count ih =>
    have hlast : n % 16 < 16 := Nat.mod_lt n (by omega)
    rw [digits, value?_concat, ih, Option.bind_some, digitValue?_digitChar hlast, Option.map_some,
      Nat.pow_succ', Nat.mod_mul, Nat.mul_comm 16, Nat.add_comm]

theorem toList_word (w : UInt32) : (word w).toList = digits 8 w.toNat := by
  rw [word, String.toList_ofList]

theorem value?_word (w : UInt32) : value? (word w).toList = some w.toNat := by
  have hlt : w.toNat < 16 ^ 8 := Nat.lt_of_lt_of_eq w.toNat_lt rfl
  rw [toList_word, value?_digits, Nat.mod_eq_of_lt hlt]

end RiscvSoc.Hex
