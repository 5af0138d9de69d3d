import Mathlib.Algebra.Ring.Int.Defs
import Mathlib.Algebra.Ring.Nat
import RiscvSoc.Isa.Alu

/-! Words as integers. A word stands for a signed and for an unsigned number; arithmetic on words is
arithmetic on these numbers, brought back by taking the remainder modulo `2 ^ 32`. -/

namespace RiscvSoc

namespace Word

def signed (a : UInt32) : Int :=
  a.toBitVec.toInt

theorem toNat_ofInt (z : Int) : ((UInt32.ofInt z).toNat : Int) = z % 2 ^ 32 := by
  rw [UInt32.ofInt, UInt32.toNat_ofNat']
  omega

theorem eq_ofInt {a : UInt32} {z : Int} (h : (a.toNat : Int) = z % 2 ^ 32) :
    a = UInt32.ofInt z := by
  rw [← UInt32.toNat_inj]
  have hz := toNat_ofInt z
  omega

theorem ofInt_toNat (a : UInt32) : UInt32.ofInt a.toNat = a := by
  have ha := a.toNat_lt
  exact (eq_ofInt (by omega)).symm

theorem ofBitVec_ofInt (z : Int) : UInt32.ofBitVec (.ofInt 32 z) = UInt32.ofInt z := by
  apply eq_ofInt
  rw [UInt32.toNat_ofBitVec, BitVec.toNat_ofInt]
  omega

theorem ofBitVec_eq_ofInt_toInt (x : BitVec 32) : UInt32.ofBitVec x = UInt32.ofInt x.toInt := by
  rw [← ofBitVec_ofInt, BitVec.ofInt_toInt]

theorem ofInt_signed (a : UInt32) : UInt32.ofInt (signed a) = a :=
  (ofBitVec_eq_ofInt_toInt a.toBitVec).symm

theorem toNat_and_mask (a : UInt32) {m : UInt32} {k : Nat} (h : m.toNat = 2 ^ k - 1) :
    (a &&& m).toNat = a.toNat % 2 ^ k := by
  rw [UInt32.toNat_and, h, Nat.and_two_pow_sub_one_eq_mod]

/-- Clearing the low `k` bits rounds down to a multiple of `2 ^ k`. -/
theorem toNat_and_not_mask (a : UInt32) {m : UInt32} {k : Nat} (h : m.toNat = 2 ^ k - 1) :
    (a &&& ~~~m).toNat = a.toNat / 2 ^ k * 2 ^ k := by
  have hdisjoint : a.toBitVec &&& m.toBitVec &&& (a.toBitVec &&& ~~~m.toBitVec) = 0#32 := by
    ext i hi
    cases hm : m.toBitVec[i] <;> simp [hm]
  have hunion : a.toBitVec &&& m.toBitVec ||| a.toBitVec &&& ~~~m.toBitVec = a.toBitVec := by
    ext i hi
    cases hm : m.toBitVec[i] <;> simp [hm]
  have hsum : (a &&& m).toNat + (a &&& ~~~m).toNat = a.toNat := by
    have hadd := BitVec.toNat_add_of_and_eq_zero hdisjoint
    rw [BitVec.add_eq_or_of_and_eq_zero _ _ hdisjoint, hunion] at hadd
    exact hadd.symm
  have hdiv := Nat.div_add_mod' a.toNat (2 ^ k)
  rw [toNat_and_mask a h] at hsum
  omega

theorem toNat_and_not_one (a : UInt32) : (a &&& ~~~1).toNat = a.toNat / 2 * 2 :=
  toNat_and_not_mask a (k := 1) rfl

theorem toNat_and_not_three (a : UInt32) : (a &&& ~~~3).toNat = a.toNat / 4 * 4 :=
  toNat_and_not_mask a (k := 2) rfl

private theorem toNat_amount (a : UInt32) : (a &&& 0x1F).toNat = a.toNat % 32 :=
  toNat_and_mask a (k := 5) rfl

theorem ofInt_ite {p : Prop} [Decidable p] : UInt32.ofInt (if p then 1 else 0) = ofBool p := by
  by_cases h : p
  · simp [h, ofBool]
  · simp only [h, ofBool, decide_false, Bool.false_eq_true, if_false]
    rfl

end Word

namespace AluOp

/-- The result of an operation as a number. Shift amounts are taken modulo 32, and the arithmetic
shift rounds down. -/
def integer (op : AluOp) (a b : UInt32) : Int :=
  let amount := b.toNat % 32
  match op with
  | .add => Word.signed a + Word.signed b
  | .sub => Word.signed a - Word.signed b
  | .sll => Word.signed a * 2 ^ amount
  | .slt => if Word.signed a < Word.signed b then 1 else 0
  | .sltu => if a.toNat < b.toNat then 1 else 0
  | .xor => (a.toNat ^^^ b.toNat : Nat)
  | .srl => (a.toNat / 2 ^ amount : Nat)
  | .sra => (Word.signed a).fdiv (2 ^ amount)
  | .or => (a.toNat ||| b.toNat : Nat)
  | .and => (a.toNat &&& b.toNat : Nat)

private theorem shiftLeft_eq_ofInt (a b : UInt32) :
    a <<< (b &&& 0x1F) = UInt32.ofInt (Word.signed a * 2 ^ (b.toNat % 32)) := by
  have h : a <<< (b &&& 0x1F) = UInt32.ofInt ((a.toNat : Int) * 2 ^ (b.toNat % 32)) := by
    apply Word.eq_ofInt
    rw [UInt32.toNat_shiftLeft, Word.toNat_amount, Nat.mod_mod, Nat.shiftLeft_eq,
      Int.natCast_emod, Int.natCast_mul, Int.natCast_pow, Int.natCast_pow]
    rfl
  rw [h, UInt32.ofInt_mul, UInt32.ofInt_mul, Word.ofInt_toNat, Word.ofInt_signed]

private theorem shiftRight_eq_ofInt (a b : UInt32) :
    a >>> (b &&& 0x1F) = UInt32.ofInt (a.toNat / 2 ^ (b.toNat % 32) : Nat) := by
  have h : (a >>> (b &&& 0x1F)).toNat = a.toNat / 2 ^ (b.toNat % 32) := by
    rw [UInt32.toNat_shiftRight, Word.toNat_amount, Nat.mod_mod, Nat.shiftRight_eq_div_pow]
  rw [← h, Word.ofInt_toNat]

private theorem smod_amount (b : UInt32) :
    ((b &&& 0x1F).toBitVec.smod 32).toNat = b.toNat % 32 := by
  have hall : ∀ k : Fin 32, ((BitVec.ofNat 32 k.val).smod 32).toNat = k.val := by decide
  have hb : (b &&& 0x1F).toBitVec = BitVec.ofNat 32 (b.toNat % 32) := by
    rw [← BitVec.toNat_inj, BitVec.toNat_ofNat, UInt32.toNat_toBitVec, Word.toNat_amount]
    omega
  rw [hb]
  exact hall ⟨b.toNat % 32, Nat.mod_lt _ (by decide)⟩

private theorem shiftRightSigned_eq_ofInt (a b : UInt32) :
    (a.toInt32 >>> (b &&& 0x1F).toInt32).toUInt32 =
      UInt32.ofInt ((Word.signed a).fdiv (2 ^ (b.toNat % 32))) := by
  have h : Word.signed (a.toInt32 >>> (b &&& 0x1F).toInt32).toUInt32 =
      Word.signed a / 2 ^ (b.toNat % 32) := by
    have hs : Word.signed (a.toInt32 >>> (b &&& 0x1F).toInt32).toUInt32 =
        (a.toBitVec.sshiftRight' ((b &&& 0x1F).toBitVec.smod 32)).toInt := rfl
    rw [hs, BitVec.toInt_sshiftRight', smod_amount, Int.shiftRight_eq_div_pow, Word.signed]
    push_cast
    rfl
  rw [Int.fdiv_eq_ediv_of_nonneg _ (Int.pow_nonneg (by decide)), ← h, Word.ofInt_signed]

/-- The operations of the core are those of the integers. -/
theorem apply_eq_integer (op : AluOp) (a b : UInt32) :
    op.apply a b = UInt32.ofInt (op.integer a b) := by
  cases op with
  | add => simp only [apply, integer, UInt32.ofInt_add, Word.ofInt_signed]
  | sub =>
    simp only [apply, integer, Int.sub_eq_add_neg, UInt32.ofInt_add, UInt32.ofInt_neg,
      Word.ofInt_signed, UInt32.sub_eq_add_neg]
  | sll => exact shiftLeft_eq_ofInt a b
  | slt => simp only [apply, integer, Word.ofInt_ite, Int32.lt_iff_toInt_lt]; rfl
  | sltu => simp only [apply, integer, Word.ofInt_ite, UInt32.lt_iff_toNat_lt]
  | xor => simp only [apply, integer, ← UInt32.toNat_xor, Word.ofInt_toNat]
  | srl => exact shiftRight_eq_ofInt a b
  | sra => exact shiftRightSigned_eq_ofInt a b
  | or => simp only [apply, integer, ← UInt32.toNat_or, Word.ofInt_toNat]
  | and => simp only [apply, integer, ← UInt32.toNat_and, Word.ofInt_toNat]

end AluOp

namespace Comparison

/-- The condition on the numbers that two words stand for. -/
def Integer (c : Comparison) (a b : UInt32) : Prop :=
  match c with
  | .eq => Word.signed a = Word.signed b
  | .ne => Word.signed a ≠ Word.signed b
  | .lt => Word.signed a < Word.signed b
  | .ge => Word.signed b ≤ Word.signed a
  | .ltUnsigned => a.toNat < b.toNat
  | .geUnsigned => b.toNat ≤ a.toNat

instance (c : Comparison) (a b : UInt32) : Decidable (c.Integer a b) :=
  match c with
  | .eq => inferInstanceAs (Decidable (_ = _))
  | .ne => inferInstanceAs (Decidable (_ ≠ _))
  | .lt => inferInstanceAs (Decidable (_ < _))
  | .ge => inferInstanceAs (Decidable (_ ≤ _))
  | .ltUnsigned => inferInstanceAs (Decidable (_ < _))
  | .geUnsigned => inferInstanceAs (Decidable (_ ≤ _))

theorem holds_iff_integer (c : Comparison) (a b : UInt32) : c.holds a b = true ↔ c.Integer a b := by
  have heq : a = b ↔ Word.signed a = Word.signed b := by
    rw [Word.signed, Word.signed, BitVec.toInt_inj, UInt32.toBitVec_inj]
  cases c with
  | eq => simpa [holds, Integer] using heq
  | ne => simpa [holds, Integer] using not_congr heq
  | lt => exact decide_eq_true_iff.trans Int32.lt_iff_toInt_lt
  | ge => exact decide_eq_true_iff.trans Int32.le_iff_toInt_le
  | ltUnsigned => simpa [holds, Integer] using UInt32.lt_iff_toNat_lt
  | geUnsigned => simpa [holds, Integer] using UInt32.le_iff_toNat_le

end Comparison

end RiscvSoc
