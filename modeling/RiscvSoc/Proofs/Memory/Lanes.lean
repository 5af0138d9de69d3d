import RiscvSoc.Isa.Transfer
import RiscvSoc.Proofs.Isa.Integer

/-! The bytes of a word and what loads, stores and strobes do to them. An access of `size` bytes
goes to the lanes from its address, aligned down to `size`, onwards. -/

namespace RiscvSoc

namespace Word

/-- Byte `j` of a word, counted from the least significant. -/
def byteAt (w : UInt32) (j : Nat) : Nat :=
  w.toNat / 256 ^ j % 256

private theorem toNat_and_FF (x : UInt32) : (x &&& 0xFF).toNat = x.toNat % 256 :=
  toNat_and_mask x (k := 8) rfl

private theorem toNat_and_FFFF (x : UInt32) : (x &&& 0xFFFF).toNat = x.toNat % 65536 :=
  toNat_and_mask x (k := 16) rfl

theorem byteAt_eq_extract (w : UInt32) (j : Nat) :
    byteAt w j = (w.toBitVec.extractLsb' (8 * j) 8).toNat := by
  rw [byteAt, BitVec.extractLsb'_toNat, Nat.shiftRight_eq_div_pow, Nat.pow_mul]
  rfl

end Word

namespace Strobe

def enables (s : Strobe) (j : Nat) : Bool :=
  s.lanes[j]?.getD false

private theorem extract_mask (s : Strobe) {j : Nat} (hj : j < 4) :
    s.mask.toBitVec.extractLsb' (8 * j) 8 = (if s.enables j then BitVec.allOnes 8 else 0#8) ∧
      (~~~s.mask).toBitVec.extractLsb' (8 * j) 8 =
        if s.enables j then 0#8 else BitVec.allOnes 8 := by
  have hall : ∀ l0 l1 l2 l3 : Bool, ∀ j : Fin 4,
      (Strobe.mk l0 l1 l2 l3).mask.toBitVec.extractLsb' (8 * j.val) 8 =
          (if (Strobe.mk l0 l1 l2 l3).enables j.val then BitVec.allOnes 8 else 0#8) ∧
        (~~~(Strobe.mk l0 l1 l2 l3).mask).toBitVec.extractLsb' (8 * j.val) 8 =
          if (Strobe.mk l0 l1 l2 l3).enables j.val then 0#8 else BitVec.allOnes 8 := by
    decide
  exact hall s.lane0 s.lane1 s.lane2 s.lane3 ⟨j, hj⟩

/-- A merge takes the bytes of the enabled lanes from the new word and the others from the old. -/
theorem byteAt_merge (s : Strobe) (old data : UInt32) {j : Nat} (hj : j < 4) :
    Word.byteAt (s.merge old data) j =
      if s.enables j then Word.byteAt data j else Word.byteAt old j := by
  obtain ⟨hmask, hnot⟩ := s.extract_mask hj
  rw [Word.byteAt_eq_extract, merge, UInt32.toBitVec_or, UInt32.toBitVec_and, UInt32.toBitVec_and,
    BitVec.extractLsb'_or, BitVec.extractLsb'_and, BitVec.extractLsb'_and, hmask, hnot,
    Word.byteAt_eq_extract, Word.byteAt_eq_extract]
  split
  · rw [BitVec.and_allOnes, BitVec.and_zero, BitVec.zero_or]
  · rw [BitVec.and_allOnes, BitVec.and_zero, BitVec.or_zero]

end Strobe

/-- The lane of the first byte of an access: its address aligned down to `size`, in its word. -/
def laneOf (size : Nat) (address : UInt32) : Nat :=
  address.toNat / size * size % 4

theorem laneOf_lt (size : Nat) (address : UInt32) : laneOf size address < 4 :=
  Nat.mod_lt _ (by decide)

private theorem toNat_and_3 (a : UInt32) : (a &&& 3).toNat = laneOf 1 a := by
  rw [Word.toNat_and_mask a (k := 2) rfl, laneOf]
  omega

private theorem toNat_and_2 (a : UInt32) : (a &&& 2).toNat = laneOf 2 a := by
  have hall : ∀ k < 4, k &&& 2 = k / 2 * 2 := by decide
  have h : (a &&& 2).toNat = (a &&& 3).toNat &&& 2 := by
    rw [show (2 : UInt32) = 3 &&& 2 by decide, ← UInt32.and_assoc, UInt32.toNat_and]
    rfl
  rw [h, toNat_and_3, laneOf, hall _ (Nat.mod_lt _ (by decide)), laneOf]
  omega

/-- Moving a number of `size` bytes up into its lanes loses none of it. -/
private theorem toNat_shiftLeft_lane {x lane : UInt32} {size : Nat} (hs : 0 < size)
    (hx : x.toNat < 256 ^ size) (hl : lane.toNat + size ≤ 4) :
    (x <<< (lane * 8)).toNat = x.toNat * 256 ^ lane.toNat := by
  have hshift : (lane * 8).toNat % 32 = 8 * lane.toNat := by
    rw [UInt32.toNat_mul]
    show lane.toNat * 8 % 2 ^ 32 % 32 = 8 * lane.toNat
    omega
  have hpow : 2 ^ (8 * lane.toNat) = 256 ^ lane.toNat := by
    rw [Nat.pow_mul]
  have hlt : x.toNat * 256 ^ lane.toNat < 2 ^ 32 := by
    calc x.toNat * 256 ^ lane.toNat
        < 256 ^ size * 256 ^ lane.toNat := Nat.mul_lt_mul_of_pos_right hx (Nat.pow_pos (by decide))
      _ = 256 ^ (lane.toNat + size) := by rw [← Nat.pow_add, Nat.add_comm]
      _ ≤ 256 ^ 4 := Nat.pow_le_pow_right (by decide) hl
  rw [UInt32.toNat_shiftLeft, hshift, Nat.shiftLeft_eq, hpow, Nat.mod_eq_of_lt hlt]

private theorem toNat_shiftRight_lane {w lane : UInt32} (hl : lane.toNat < 4) :
    (w >>> (lane * 8)).toNat = w.toNat / 256 ^ lane.toNat := by
  have hshift : (lane * 8).toNat % 32 = 8 * lane.toNat := by
    rw [UInt32.toNat_mul]
    show lane.toNat * 8 % 2 ^ 32 % 32 = 8 * lane.toNat
    omega
  rw [UInt32.toNat_shiftRight, hshift, Nat.shiftRight_eq_div_pow, Nat.pow_mul]

namespace LoadKind

def size : LoadKind → Nat
  | .byte | .byteUnsigned => 1
  | .half | .halfUnsigned => 2
  | .word => 4

def isSigned : LoadKind → Bool
  | .byte | .half | .word => true
  | .byteUnsigned | .halfUnsigned => false

/-- The number that a load takes out of the word at its address. -/
def integer (kind : LoadKind) (address word : UInt32) : Int :=
  let bytes := word.toNat / 256 ^ laneOf kind.size address % 256 ^ kind.size
  if kind.isSigned then (bytes : Int).bmod (256 ^ kind.size) else bytes

private theorem signExtend8_eq_ofInt (x : UInt32) :
    Word.signExtend8 x.toUInt8 = UInt32.ofInt (((x.toNat % 256 : Nat) : Int).bmod 256) := by
  have h : Word.signed (Word.signExtend8 x.toUInt8) = ((x.toNat % 256 : Nat) : Int).bmod 256 := by
    have hs : Word.signed (Word.signExtend8 x.toUInt8) = x.toUInt8.toInt8.toInt32.toInt := rfl
    rw [hs, Int8.toInt_toInt32]
    exact BitVec.toInt_eq_toNat_bmod _
  rw [← h, Word.ofInt_signed]

private theorem signExtend16_eq_ofInt (x : UInt32) :
    Word.signExtend16 x.toUInt16 = UInt32.ofInt (((x.toNat % 65536 : Nat) : Int).bmod 65536) := by
  have h : Word.signed (Word.signExtend16 x.toUInt16) =
      ((x.toNat % 65536 : Nat) : Int).bmod 65536 := by
    have hs : Word.signed (Word.signExtend16 x.toUInt16) = x.toUInt16.toInt16.toInt32.toInt := rfl
    rw [hs, Int16.toInt_toInt32]
    exact BitVec.toInt_eq_toNat_bmod _
  rw [← h, Word.ofInt_signed]

private theorem and_FF_eq_ofInt (x : UInt32) :
    x &&& 0xFF = UInt32.ofInt (x.toNat % 256 : Nat) := by
  rw [← Word.toNat_and_FF, Word.ofInt_toNat]

private theorem and_FFFF_eq_ofInt (x : UInt32) :
    x &&& 0xFFFF = UInt32.ofInt (x.toNat % 65536 : Nat) := by
  rw [← Word.toNat_and_FFFF, Word.ofInt_toNat]

/-- A load yields the bytes in its lanes as a signed or an unsigned number. -/
theorem extract_eq_integer (kind : LoadKind) (address word : UInt32) :
    kind.extract address word = UInt32.ofInt (kind.integer address word) := by
  have hbyte : (word >>> ((address &&& 3) * 8)).toNat = word.toNat / 256 ^ laneOf 1 address := by
    rw [toNat_shiftRight_lane (toNat_and_3 address ▸ laneOf_lt _ _), toNat_and_3]
  have hhalf : (word >>> ((address &&& 2) * 8)).toNat = word.toNat / 256 ^ laneOf 2 address := by
    rw [toNat_shiftRight_lane (toNat_and_2 address ▸ laneOf_lt _ _), toNat_and_2]
  cases kind with
  | byte =>
    simp only [extract, signExtend8_eq_ofInt, hbyte, integer, isSigned, size, if_true,
      Nat.reducePow]
  | half =>
    simp only [extract, signExtend16_eq_ofInt, hhalf, integer, isSigned, size, if_true,
      Nat.reducePow]
  | word =>
    have hlane : laneOf 4 address = 0 := by rw [laneOf]; omega
    have hw : word.toNat / 256 ^ 0 % 256 ^ 4 = word.toNat := by
      have := word.toNat_lt
      omega
    have hs : ((word.toNat : Int)).bmod (256 ^ 4) = Word.signed word :=
      (BitVec.toInt_eq_toNat_bmod _).symm
    simp only [extract, integer, size, isSigned, hlane, hw, if_true, hs, Word.ofInt_signed]
  | byteUnsigned =>
    simp only [extract, and_FF_eq_ofInt, hbyte, integer, isSigned, size, Bool.false_eq_true,
      if_false, Nat.reducePow]
  | halfUnsigned =>
    simp only [extract, and_FFFF_eq_ofInt, hhalf, integer, isSigned, size, Bool.false_eq_true,
      if_false, Nat.reducePow]

end LoadKind

namespace StoreWidth

def size : StoreWidth → Nat
  | .byte => 1
  | .half => 2
  | .word => 4

/-- A store moves its bytes into their lanes, with zeros around them. -/
theorem toNat_lanes (width : StoreWidth) (address data : UInt32) :
    (width.lanes address data).1.toNat =
      data.toNat % 256 ^ width.size * 256 ^ laneOf width.size address := by
  cases width with
  | byte =>
    have hx : (data &&& 0xFF).toNat < 256 ^ 1 := by rw [Word.toNat_and_FF]; omega
    have hl : (address &&& 3).toNat + 1 ≤ 4 := by rw [toNat_and_3]; exact laneOf_lt _ _
    rw [lanes, toNat_shiftLeft_lane (by decide) hx hl, toNat_and_3, Word.toNat_and_FF]
    rfl
  | half =>
    have hx : (data &&& 0xFFFF).toNat < 256 ^ 2 := by rw [Word.toNat_and_FFFF]; omega
    have hl : (address &&& 2).toNat + 2 ≤ 4 := by rw [toNat_and_2, laneOf]; omega
    rw [lanes, toNat_shiftLeft_lane (by decide) hx hl, toNat_and_2, Word.toNat_and_FFFF]
    rfl
  | word =>
    have hlane : laneOf 4 address = 0 := by rw [laneOf]; omega
    have hd := data.toNat_lt
    simp only [lanes, size, hlane]
    omega

theorem enables_lanes (width : StoreWidth) (address data : UInt32) {j : Nat} (hj : j < 4) :
    (width.lanes address data).2.enables j =
      decide (laneOf width.size address ≤ j ∧ j < laneOf width.size address + width.size) := by
  cases width with
  | byte =>
    have hall : ∀ l < 4, ∀ j < 4,
        (Strobe.ofBits (1 <<< UInt8.ofNat l)).enables j = decide (l ≤ j ∧ j < l + 1) := by decide
    have hl : (address &&& 3).toUInt8 = UInt8.ofNat (laneOf 1 address) := by
      rw [← UInt8.toNat_inj, UInt32.toNat_toUInt8, toNat_and_3, UInt8.toNat_ofNat']
    rw [lanes, hl]
    exact hall _ (laneOf_lt _ _) j hj
  | half =>
    have hall : ∀ l < 4, l % 2 = 0 → ∀ j < 4,
        (Strobe.ofBits (3 <<< UInt8.ofNat l)).enables j = decide (l ≤ j ∧ j < l + 2) := by decide
    have hl : (address &&& 2).toUInt8 = UInt8.ofNat (laneOf 2 address) := by
      rw [← UInt8.toNat_inj, UInt32.toNat_toUInt8, toNat_and_2, UInt8.toNat_ofNat']
    rw [lanes, hl]
    exact hall _ (laneOf_lt _ _) (by rw [laneOf]; omega) j hj
  | word =>
    have hall : ∀ j < 4, Strobe.all.enables j = decide (0 ≤ j ∧ j < 0 + 4) := by decide
    have hlane : laneOf 4 address = 0 := by rw [laneOf]; omega
    rw [lanes, size, hlane]
    exact hall j hj

private theorem mod_div_mod (n : Nat) {k s : Nat} (hk : k < s) :
    n % 256 ^ s / 256 ^ k % 256 = n / 256 ^ k % 256 := by
  have hs : 256 ^ s = 256 ^ k * 256 ^ (s - k) := by
    rw [← Nat.pow_add, Nat.add_sub_cancel' (Nat.le_of_lt hk)]
  have hdvd : 256 ∣ 256 ^ (s - k) := Nat.pow_dvd_pow 256 (show 1 ≤ s - k by omega)
  rw [hs, Nat.mod_mul_right_div_self, Nat.mod_mod_of_dvd _ hdvd]

/-- A store puts its bytes at its address, aligned down to its size, and leaves the others alone. -/
theorem byteAt_merge_lanes (width : StoreWidth) (address data old : UInt32) {j : Nat} (hj : j < 4) :
    Word.byteAt ((width.lanes address data).2.merge old (width.lanes address data).1) j =
      if laneOf width.size address ≤ j ∧ j < laneOf width.size address + width.size then
        Word.byteAt data (j - laneOf width.size address)
      else Word.byteAt old j := by
  rw [Strobe.byteAt_merge _ _ _ hj, enables_lanes width address data hj]
  simp only [decide_eq_true_eq]
  split
  · rename_i h
    obtain ⟨k, hk⟩ := Nat.exists_eq_add_of_le h.1
    rw [Word.byteAt, toNat_lanes, Word.byteAt]
    generalize laneOf width.size address = l at h hk
    rw [hk, Nat.add_sub_cancel_left, Nat.pow_add,
      Nat.mul_comm, Nat.mul_div_mul_left _ _ (Nat.pow_pos (by decide))]
    exact mod_div_mod _ (by omega)
  · rfl

end StoreWidth

end RiscvSoc
