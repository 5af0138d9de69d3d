import RiscvSoc.Signature

namespace RiscvSoc.SignatureRange

variable (r : SignatureRange)

def HasByte (b : Nat) : Prop :=
  r.start.toNat ≤ b ∧ b < r.stop.toNat

/-- The aligned word at `a` contains a byte of the range. -/
def Touches (a : UInt32) : Prop :=
  a.toNat % 4 = 0 ∧ ∃ b, r.HasByte b ∧ a.toNat ≤ b ∧ b < a.toNat + 4

/-- The range is empty, but its end lies behind the start of the word that the walk begins with,
which is the word at `a`. -/
def Overhangs (a : UInt32) : Prop :=
  r.stop ≤ r.start ∧ r.firstWord < r.stop.toNat ∧ a.toNat = r.firstWord

theorem firstWord_spec : r.firstWord % 4 = 0 ∧ r.firstWord ≤ r.start.toNat ∧
    r.start.toNat < r.firstWord + 4 := by
  rw [firstWord]
  omega

/-- The walk goes on as long as it has not reached the end. -/
theorem lt_words_iff (k : Nat) : k < r.words ↔ r.firstWord + 4 * k < r.stop.toNat := by
  rw [words]
  omega

/-- The addresses of the walk do not wrap. -/
theorem toNat_address {k : Nat} (hk : k < r.words) :
    (r.firstWord + 4 * k).toUInt32.toNat = r.firstWord + 4 * k := by
  have hstop : r.stop.toNat < UInt32.size := r.stop.toNat_lt
  exact UInt32.toNat_ofNat_of_lt' (Nat.lt_trans ((r.lt_words_iff k).mp hk) hstop)

theorem length_addresses : r.addresses.length = r.words := by
  rw [addresses, List.length_map, List.length_range]

theorem getElem?_addresses {k : Nat} (hk : k < r.words) :
    ∃ a, r.addresses[k]? = some a ∧ a.toNat = r.firstWord + 4 * k := by
  refine ⟨(r.firstWord + 4 * k).toUInt32, ?_, r.toNat_address hk⟩
  rw [addresses, List.getElem?_map, List.getElem?_range hk, Option.map_some]

theorem pairwise_addresses : r.addresses.Pairwise (· < ·) := by
  rw [addresses, List.pairwise_map]
  refine List.pairwise_lt_range.imp_of_mem fun {j k} hj hk hlt => ?_
  rw [UInt32.lt_iff_toNat_lt, r.toNat_address (List.mem_range.mp hj),
    r.toNat_address (List.mem_range.mp hk)]
  omega

theorem mem_addresses_iff (a : UInt32) :
    a ∈ r.addresses ↔ a.toNat % 4 = 0 ∧ r.firstWord ≤ a.toNat ∧ a.toNat < r.stop.toNat := by
  obtain ⟨haligned, -, -⟩ := r.firstWord_spec
  rw [addresses, List.mem_map]
  constructor
  · rintro ⟨k, hk, rfl⟩
    rw [List.mem_range] at hk
    have hlt := (r.lt_words_iff k).mp hk
    rw [r.toNat_address hk]
    omega
  · rintro ⟨ha, hfirst, hstop⟩
    have hplace : r.firstWord + 4 * ((a.toNat - r.firstWord) / 4) = a.toNat := by omega
    refine ⟨(a.toNat - r.firstWord) / 4, ?_, ?_⟩
    · rw [List.mem_range, lt_words_iff, hplace]
      exact hstop
    · rw [hplace]
      exact UInt32.ofNat_toNat

/-- The words with bytes of a range that is not empty are those from the first one to its end. -/
theorem touches_iff (a : UInt32) :
    r.Touches a ↔ r.start < r.stop ∧ a.toNat % 4 = 0 ∧ r.firstWord ≤ a.toNat ∧
      a.toNat < r.stop.toNat := by
  obtain ⟨haligned, hbelow, habove⟩ := r.firstWord_spec
  rw [UInt32.lt_iff_toNat_lt]
  constructor
  · rintro ⟨ha, b, ⟨hstart, hstop⟩, hword, hlast⟩
    omega
  · rintro ⟨hlt, ha, hfirst, hstop⟩
    refine ⟨ha, max r.start.toNat a.toNat, ⟨Nat.le_max_left _ _, ?_⟩, Nat.le_max_right _ _, ?_⟩
    · exact Nat.max_lt.mpr ⟨hlt, hstop⟩
    · exact Nat.max_lt.mpr ⟨by omega, by omega⟩

theorem mem_addresses_iff_touches_or (a : UInt32) :
    a ∈ r.addresses ↔ r.Touches a ∨ r.Overhangs a := by
  obtain ⟨haligned, hbelow, habove⟩ := r.firstWord_spec
  rw [mem_addresses_iff, touches_iff, Overhangs, UInt32.le_iff_toNat_le, UInt32.lt_iff_toNat_lt]
  omega

theorem not_touches_of_overhangs {a : UInt32} (h : r.Overhangs a) : ¬ r.Touches a := by
  intro htouches
  have hlt := ((r.touches_iff a).mp htouches).1
  exact UInt32.not_lt.mpr h.1 hlt

/-- Some word overhangs exactly if the range is empty and does not end at or before the word that it
starts in. -/
theorem exists_overhangs_iff :
    (∃ a, r.Overhangs a) ↔ r.stop ≤ r.start ∧ r.firstWord < r.stop.toNat := by
  constructor
  · rintro ⟨a, hempty, hinside, -⟩
    exact ⟨hempty, hinside⟩
  · rintro ⟨hempty, hinside⟩
    have hsize : r.firstWord < UInt32.size := Nat.lt_trans hinside r.stop.toNat_lt
    exact ⟨.ofNat r.firstWord, hempty, hinside, UInt32.toNat_ofNat_of_lt' hsize⟩

/-- The walk visits every word with a byte of the range in it, in increasing order and without
wrapping. It visits no other word, exactly unless the range is empty and starts and ends inside one
word; then it visits that word alone. -/
theorem addresses_cover_iff :
    r.addresses.Pairwise (· < ·) ∧ r.addresses.length = r.words ∧
      (∀ k < r.words, ∃ a, r.addresses[k]? = some a ∧ a.toNat = r.firstWord + 4 * k) ∧
      (∀ a, a ∈ r.addresses ↔ r.Touches a ∨ r.Overhangs a) ∧
      ((∀ a, a ∈ r.addresses ↔ r.Touches a) ↔
        (r.start < r.stop ∨ r.stop.toNat ≤ r.firstWord)) := by
  refine ⟨r.pairwise_addresses, r.length_addresses, fun k hk => r.getElem?_addresses hk,
    r.mem_addresses_iff_touches_or, ?_⟩
  have hnone : (∀ a, a ∈ r.addresses ↔ r.Touches a) ↔ ¬ ∃ a, r.Overhangs a := by
    constructor
    · rintro hall ⟨a, ha⟩
      have hmem := (r.mem_addresses_iff_touches_or a).mpr (.inr ha)
      exact r.not_touches_of_overhangs ha ((hall a).mp hmem)
    · intro hnot a
      rw [mem_addresses_iff_touches_or]
      exact or_iff_left fun ha => hnot ⟨a, ha⟩
  rw [hnone, exists_overhangs_iff, Decidable.not_and_iff_not_or_not, UInt32.not_le, Nat.not_lt]

/-- The last bytes below the end of the address space, the very last one excepted. -/
def topmost : SignatureRange :=
  ⟨0xFFFFFFFA, 0xFFFFFFFF⟩

/-- The walk stops at the last word. -/
theorem addresses_topmost :
    topmost.start < topmost.stop ∧ topmost.addresses = [0xFFFFFFF8, 0xFFFFFFFC] ∧
      ∀ a, a ∈ topmost.addresses ↔ topmost.Touches a := by
  obtain ⟨-, -, -, -, hcover⟩ := topmost.addresses_cover_iff
  have hlt : topmost.start < topmost.stop := by decide
  exact ⟨hlt, by decide, hcover.mpr (.inl hlt)⟩

/-- An empty range inside the first word. -/
def emptyInside : SignatureRange :=
  resolve 2 2

/-- The range has no byte, and yet one word is visited. -/
theorem addresses_emptyInside :
    emptyInside.start = emptyInside.stop ∧ emptyInside.addresses = [0] ∧ emptyInside.words = 1 ∧
      ¬ ∀ a, a ∈ emptyInside.addresses ↔ emptyInside.Touches a := by
  have hwords : emptyInside.addresses = [0] := by decide
  refine ⟨by decide, hwords, by decide, fun hall => ?_⟩
  obtain ⟨-, b, ⟨hstart, hstop⟩, -⟩ := (hall 0).mp (hwords ▸ List.mem_singleton_self 0)
  exact Nat.not_lt.mpr hstart hstop

end RiscvSoc.SignatureRange
