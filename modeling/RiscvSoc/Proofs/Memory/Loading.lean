import RiscvSoc.Proofs.Memory.Flat

/-! What loading leaves in the bytes of memory. Bytes from an unaligned address are written one at a
time. From a word-aligned address whole words are written, so that bytes that end inside a word bring
zeros to the rest of it. -/

namespace RiscvSoc

namespace Word

/-- Above a number of `k` bits, a byte moved up by `k` is added. -/
private theorem toNat_or_shiftLeft {low shift : UInt32} {b : UInt8} {k : Nat}
    (hlow : low.toNat < 2 ^ k) (hshift : shift.toNat = k) (hk : k ≤ 24) :
    (low ||| (b.toUInt32 <<< shift)).toNat = low.toNat + 2 ^ k * b.toNat := by
  have hb := b.toNat_lt
  have hpow : 2 ^ k ≤ 2 ^ 24 := Nat.pow_le_pow_right (by decide) hk
  have hfits : b.toNat * 2 ^ k < 2 ^ 32 :=
    calc b.toNat * 2 ^ k ≤ b.toNat * 2 ^ 24 := Nat.mul_le_mul_left _ hpow
      _ < 2 ^ 32 := by omega
  have hmoved : (b.toUInt32 <<< shift).toNat = 2 ^ k * b.toNat := by
    rw [UInt32.toNat_shiftLeft, hshift, Nat.mod_eq_of_lt (by omega : k < 32), Nat.shiftLeft_eq,
      UInt8.toNat_toUInt32, Nat.mod_eq_of_lt hfits, Nat.mul_comm]
  rw [UInt32.toNat_or, hmoved, Nat.or_comm, ← Nat.two_pow_add_eq_or_of_lt hlow, Nat.add_comm]

theorem toNat_ofBytes (b0 b1 b2 b3 : UInt8) :
    (ofBytes b0 b1 b2 b3).toNat =
      b0.toNat + 2 ^ 8 * b1.toNat + 2 ^ 16 * b2.toNat + 2 ^ 24 * b3.toNat := by
  have h0 := b0.toNat_lt
  have h1 := b1.toNat_lt
  have h2 := b2.toNat_lt
  have hzero : b0.toUInt32.toNat = b0.toNat := UInt8.toNat_toUInt32 b0
  have hone : (b0.toUInt32 ||| (b1.toUInt32 <<< 8)).toNat = b0.toNat + 2 ^ 8 * b1.toNat := by
    rw [toNat_or_shiftLeft (k := 8) (by omega) rfl (by decide), hzero]
  have htwo : (b0.toUInt32 ||| (b1.toUInt32 <<< 8) ||| (b2.toUInt32 <<< 16)).toNat =
      b0.toNat + 2 ^ 8 * b1.toNat + 2 ^ 16 * b2.toNat := by
    rw [toNat_or_shiftLeft (k := 16) (by omega) rfl (by decide), hone]
  rw [ofBytes, toNat_or_shiftLeft (k := 24) (by omega) rfl (by decide), htwo]

theorem byteAt_ofBytes (b0 b1 b2 b3 : UInt8) (j : Nat) :
    UInt8.ofNat (byteAt (ofBytes b0 b1 b2 b3) j) = [b0, b1, b2, b3][j]?.getD 0 := by
  have h0 := b0.toNat_lt
  have h1 := b1.toNat_lt
  have h2 := b2.toNat_lt
  have h3 := b3.toNat_lt
  have hbyte : ∀ (b : UInt8) (n : Nat), n = b.toNat → UInt8.ofNat n = b := by
    rintro b n rfl
    exact UInt8.ofNat_toNat
  rw [byteAt, toNat_ofBytes]
  obtain _ | _ | _ | _ | j := j
  · exact hbyte b0 _ (by omega)
  · exact hbyte b1 _ (by omega)
  · exact hbyte b2 _ (by omega)
  · exact hbyte b3 _ (by omega)
  · have hbeyond : 256 ^ 4 ≤ 256 ^ (j + 1 + 1 + 1 + 1) :=
      Nat.pow_le_pow_right (by decide) (by omega)
    rw [Nat.div_eq_of_lt (by omega)]
    rfl

end Word

/-- The byte that `bytes`, laid out from address `first` on, put at address `x`, if they reach it. -/
def byteFrom (first : Nat) (bytes : List UInt8) (x : Nat) : Option UInt8 :=
  if first ≤ x then bytes[x - first]? else none

theorem byteFrom_nil (first x : Nat) : byteFrom first [] x = none := by
  simp [byteFrom]

theorem byteFrom_eq_none_iff {first x : Nat} {bytes : List UInt8} :
    byteFrom first bytes x = none ↔ x < first ∨ first + bytes.length ≤ x := by
  rw [byteFrom]
  split
  · rw [List.getElem?_eq_none_iff]
    omega
  · exact iff_of_true rfl (by omega)

theorem byteFrom_append (first : Nat) (bytes rest : List UInt8) (x : Nat) :
    byteFrom first (bytes ++ rest) x =
      (byteFrom (first + bytes.length) rest x).or (byteFrom first bytes x) := by
  by_cases hrest : first + bytes.length ≤ x
  · have hnone : byteFrom first bytes x = none := byteFrom_eq_none_iff.mpr (.inr hrest)
    rw [hnone, Option.or_none, byteFrom, byteFrom, if_pos hrest, if_pos (by omega),
      List.getElem?_append_right (by omega), Nat.sub_sub]
  · have hnone : byteFrom (first + bytes.length) rest x = none :=
      byteFrom_eq_none_iff.mpr (.inl (by omega))
    rw [hnone, Option.none_or, byteFrom, byteFrom]
    split
    · rw [List.getElem?_append_left (by omega)]
    · rfl

def zeroFilled (bytes : List UInt8) : List UInt8 :=
  bytes ++ List.replicate ((4 - bytes.length % 4) % 4) 0

theorem length_zeroFilled (bytes : List UInt8) :
    (zeroFilled bytes).length = (bytes.length + 3) / 4 * 4 := by
  rw [zeroFilled, List.length_append, List.length_replicate]
  omega

theorem zeroFilled_word (b0 b1 b2 b3 : UInt8) (bytes : List UInt8) :
    zeroFilled (b0 :: b1 :: b2 :: b3 :: bytes) = [b0, b1, b2, b3] ++ zeroFilled bytes := by
  have hlength : (b0 :: b1 :: b2 :: b3 :: bytes).length % 4 = bytes.length % 4 :=
    Nat.add_mod_right bytes.length 4
  rw [zeroFilled, zeroFilled, hlength]
  rfl

namespace Memory

/-- From `m` to `m'`, the bytes that `puts` names have come to their places, and no other byte has
changed. -/
structure Overlaid (m m' : Memory) (puts : Nat → Option UInt8) : Prop where
  capacity : m'.capacity = m.capacity
  bytes : ∀ x, m'.flat.get x = (puts x).getD (m.flat.get x)

variable {m m' m'' : Memory}

theorem Overlaid.refl (m : Memory) : Overlaid m m fun _ => none :=
  ⟨rfl, fun _ => rfl⟩

/-- What comes later lies over what was there before. -/
theorem Overlaid.trans {puts puts' : Nat → Option UInt8} (h : Overlaid m m' puts)
    (h' : Overlaid m' m'' puts') : Overlaid m m'' fun x => (puts' x).or (puts x) := by
  refine ⟨h'.capacity.trans h.capacity, fun x => ?_⟩
  rw [h'.bytes, h.bytes]
  cases puts' x <;> rfl

/-- An operation on memory puts its bytes in their places, as far as memory reaches. -/
private theorem overlaid_perform (op : MemoryOp) {puts : Nat → Option UInt8}
    (hin : ∀ x < 4 * m.capacity, op.puts x = puts x)
    (hbeyond : ∀ x, 4 * m.capacity ≤ x → puts x = none) :
    Overlaid m (m.perform op).1 puts := by
  refine ⟨m.capacity_perform op, fun x => ?_⟩
  rw [(m.perform_flat op).1]
  show (m.flat.put op).get x = _
  rw [FlatMemory.get_put, size_flat]
  split
  · rename_i hx
    rw [hin x hx]
  · rename_i hx
    have hzero : m.flat.get x = 0 := by
      have hsize : m.flat.bytes.size ≤ x := by rw [size_flat]; omega
      rw [FlatMemory.get, Array.getElem?_eq_none hsize]
      rfl
    rw [hbeyond x (by omega), hzero]
    rfl

private theorem overlaid_writeByte {address : UInt32} (h : address.toNat < 4 * m.capacity)
    (b : UInt8) : Overlaid m (m.writeByte address b) (byteFrom address.toNat [b]) := by
  refine overlaid_perform (.writeByte address b) (fun x _ => ?_) fun x hx =>
    byteFrom_eq_none_iff.mpr (.inr (Nat.le_trans h hx))
  show (if x = address.toNat then some b else none) = _
  by_cases hx : x = address.toNat
  · rw [if_pos hx, hx, byteFrom, if_pos (Nat.le_refl _), Nat.sub_self]
    rfl
  · rw [if_neg hx, byteFrom_eq_none_iff.mpr]
    show x < address.toNat ∨ address.toNat + 1 ≤ x
    omega

private theorem overlaid_writeWord {address : UInt32} (haligned : address.toNat % 4 = 0)
    (h : address.toNat + 4 ≤ 4 * m.capacity) (b0 b1 b2 b3 : UInt8) :
    Overlaid m (m.write address (Word.ofBytes b0 b1 b2 b3) .all)
      (byteFrom address.toNat [b0, b1, b2, b3]) := by
  refine overlaid_perform (.write address (Word.ofBytes b0 b1 b2 b3) .all) (fun x _ => ?_)
    fun x hx => byteFrom_eq_none_iff.mpr (.inr (Nat.le_trans h hx))
  have hfirst : alignDown 4 address = address.toNat := by
    rw [alignDown]
    omega
  have hall : ∀ j < 4, Strobe.all.enables j = true := by decide
  simp only [MemoryOp.puts, hfirst, Word.byteAt_ofBytes]
  by_cases hx : address.toNat ≤ x ∧ x < address.toNat + 4
  · have hlt : x - address.toNat < [b0, b1, b2, b3].length := by
      show x - address.toNat < 4
      omega
    rw [if_pos ⟨hx.1, hx.2, hall _ (by omega)⟩, byteFrom, if_pos hx.1,
      List.getElem?_eq_getElem hlt]
    rfl
  · rw [if_neg fun hput => hx ⟨hput.1, hput.2.1⟩, byteFrom_eq_none_iff.mpr]
    show x < address.toNat ∨ address.toNat + 4 ≤ x
    omega

theorem overlaid_storeBytes {n : Nat} {bytes : List UInt8} (h : n + bytes.length ≤ 4 * m.capacity)
    (hcapacity : m.capacity ≤ 2 ^ 30) :
    Overlaid m (m.storeBytes (.ofNat n) bytes) (byteFrom n bytes) := by
  induction bytes generalizing m n with
  | nil =>
    refine ⟨rfl, fun x => ?_⟩
    rw [byteFrom_nil]
    rfl
  | cons b bytes ih =>
    rw [List.length_cons] at h
    have hn : (UInt32.ofNat n).toNat = n := UInt32.toNat_ofNat_of_lt' (by
      show n < 2 ^ 32
      omega)
    have hfirst : Overlaid m (m.writeByte (.ofNat n) b) (byteFrom n [b]) := by
      have hwrite := @overlaid_writeByte m (.ofNat n) (by omega) b
      rwa [hn] at hwrite
    have hrest := ih (m := m.writeByte (.ofNat n) b) (n := n + 1)
      (by rw [hfirst.capacity]; omega) (by rw [hfirst.capacity]; exact hcapacity)
    have hnext : UInt32.ofNat n + 1 = UInt32.ofNat (n + 1) := (UInt32.ofNat_add n 1).symm
    have hbytes : byteFrom n (b :: bytes) =
        fun x => (byteFrom (n + 1) bytes x).or (byteFrom n [b] x) :=
      funext fun x => byteFrom_append n [b] bytes x
    rw [storeBytes, hnext, hbytes]
    exact hfirst.trans hrest

private theorem overlaid_ofNat {n : Nat} (haligned : n % 4 = 0) (h : n < 4 * m.capacity)
    (hcapacity : m.capacity ≤ 2 ^ 30) (b0 b1 b2 b3 : UInt8) :
    Overlaid m (m.write (.ofNat n) (Word.ofBytes b0 b1 b2 b3) .all)
      (byteFrom n [b0, b1, b2, b3]) := by
  have hn : (UInt32.ofNat n).toNat = n := UInt32.toNat_ofNat_of_lt' (by
    show n < 2 ^ 32
    omega)
  have hwrite := @overlaid_writeWord m (.ofNat n) (by omega) (by omega) b0 b1 b2 b3
  rwa [hn] at hwrite

theorem overlaid_storeAligned {m : Memory} {n : Nat} {bytes : List UInt8} (haligned : n % 4 = 0)
    (h : n + bytes.length ≤ 4 * m.capacity) (hcapacity : m.capacity ≤ 2 ^ 30) :
    Overlaid m (m.storeAligned (.ofNat n) bytes) (byteFrom n (zeroFilled bytes)) := by
  match bytes with
  | [] =>
    refine ⟨rfl, fun x => ?_⟩
    show _ = (byteFrom n [] x).getD _
    rw [byteFrom_nil]
    rfl
  | [b0] =>
    have hlt : n + 1 ≤ 4 * m.capacity := h
    exact overlaid_ofNat haligned (by omega) hcapacity b0 0 0 0
  | [b0, b1] =>
    have hlt : n + 2 ≤ 4 * m.capacity := h
    exact overlaid_ofNat haligned (by omega) hcapacity b0 b1 0 0
  | [b0, b1, b2] =>
    have hlt : n + 3 ≤ 4 * m.capacity := h
    exact overlaid_ofNat haligned (by omega) hcapacity b0 b1 b2 0
  | b0 :: b1 :: b2 :: b3 :: bytes =>
    simp only [List.length_cons] at h
    have hfirst := overlaid_ofNat (m := m) haligned (by omega) hcapacity b0 b1 b2 b3
    have hrest := @overlaid_storeAligned (m.write (.ofNat n) (Word.ofBytes b0 b1 b2 b3) .all) (n + 4)
      bytes (by omega) (by rw [hfirst.capacity]; omega) (by rw [hfirst.capacity]; exact hcapacity)
    have hnext : UInt32.ofNat n + 4 = UInt32.ofNat (n + 4) := (UInt32.ofNat_add n 4).symm
    have hbytes : byteFrom n (zeroFilled (b0 :: b1 :: b2 :: b3 :: bytes)) =
        fun x => (byteFrom (n + 4) (zeroFilled bytes) x).or (byteFrom n [b0, b1, b2, b3] x) := by
      funext x
      rw [zeroFilled_word]
      exact byteFrom_append n [b0, b1, b2, b3] (zeroFilled bytes) x
    rw [storeAligned, hnext, hbytes]
    exact hfirst.trans hrest

def laidDown (base : UInt32) (bytes : List UInt8) : List UInt8 :=
  if base.toNat % 4 = 0 then zeroFilled bytes else bytes

/-- Only bytes for which there is no room are refused. -/
theorem load_eq_error_iff {base : UInt32} {bytes : List UInt8} {overflow : Overflow} :
    m.load base bytes = .error overflow ↔
      m.available base < bytes.length ∧ overflow = ⟨bytes.length, m.available base⟩ := by
  rw [load]
  split
  · rename_i hroom
    rw [Except.error.injEq, eq_comm, and_iff_right hroom]
  · rename_i hroom
    split <;> exact iff_of_false nofun fun h => hroom h.1

theorem and_three_eq_zero_iff (base : UInt32) : base &&& 3 = 0 ↔ base.toNat % 4 = 0 := by
  rw [← UInt32.toNat_inj, Word.toNat_and_mask base (k := 2) rfl]
  rfl

theorem load_of_fits {base : UInt32} {bytes : List UInt8} (hfits : bytes.length ≤ m.available base)
    (hcapacity : m.capacity ≤ 2 ^ 30) :
    ∃ m', m.load base bytes = .ok m' ∧
      Overlaid m m' (byteFrom base.toNat (laidDown base bytes)) := by
  cases bytes with
  | nil =>
    refine ⟨m, ?_, rfl, fun x => ?_⟩
    · rw [load, if_neg (Nat.not_lt.mpr hfits)]
      split <;> rfl
    · have hnothing : laidDown base [] = [] := by
        rw [laidDown]
        split <;> rfl
      rw [hnothing, byteFrom_nil]
      rfl
  | cons b bytes =>
    have hend : base.toNat + (b :: bytes).length ≤ 4 * m.capacity := by
      rw [available, sizeBytes, List.length_cons] at hfits
      rw [List.length_cons]
      omega
    rw [load, if_neg (Nat.not_lt.mpr hfits), laidDown]
    have hbase : UInt32.ofNat base.toNat = base := UInt32.ofNat_toNat
    by_cases h : base.toNat % 4 = 0
    · have hstored := overlaid_storeAligned h hend hcapacity
      rw [hbase] at hstored
      rw [if_pos ((and_three_eq_zero_iff base).mpr h), if_pos h]
      exact ⟨_, rfl, hstored⟩
    · have hstored := overlaid_storeBytes hend hcapacity
      rw [hbase] at hstored
      rw [if_neg (mt (and_three_eq_zero_iff base).mp h), if_neg h]
      exact ⟨_, rfl, hstored⟩

end Memory

end RiscvSoc
