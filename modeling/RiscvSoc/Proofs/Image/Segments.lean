import RiscvSoc.Image
import RiscvSoc.Proofs.Memory.Loading

namespace RiscvSoc

namespace Segment

variable {s t : Segment} {x : Nat}

def stop (s : Segment) : Nat :=
  s.address.toNat + s.bytes.length

def Covers (s : Segment) (x : Nat) : Prop :=
  s.address.toNat ≤ x ∧ x < s.stop

def Disjoint (s t : Segment) : Prop :=
  ∀ x, s.Covers x → ¬ t.Covers x

theorem lt_of_covers {n : Nat} (hstop : s.stop ≤ n) (h : s.Covers x) : x < n :=
  Nat.lt_of_lt_of_le h.2 hstop

theorem disjoint_of_stop_le (h : s.stop ≤ t.address.toNat ∨ t.stop ≤ s.address.toNat) :
    s.Disjoint t := by
  rintro x ⟨hs, hs'⟩ ⟨ht, ht'⟩
  omega

/-- The segment starts a word, and address `x` lies after its end in its last word. -/
def Pads (s : Segment) (x : Nat) : Prop :=
  s.address.toNat % 4 = 0 ∧ s.stop ≤ x ∧ x < (s.stop + 3) / 4 * 4

instance (s : Segment) (x : Nat) : Decidable (s.Pads x) :=
  inferInstanceAs (Decidable (_ ∧ _))

theorem not_covers_iff : ¬ s.Covers x ↔ x < s.address.toNat ∨ s.stop ≤ x := by
  rw [Covers]
  omega

/-- Only a segment that ends inside a word pads, and only the rest of that word. -/
theorem pads_iff : s.Pads x ↔ s.address.toNat % 4 = 0 ∧ s.bytes.length % 4 ≠ 0 ∧ s.stop ≤ x ∧
    x / 4 = s.stop / 4 := by
  rw [Pads, stop]
  omega

/-- The byte that loading the segment puts at address `x`, if it puts one there. -/
def puts (s : Segment) (x : Nat) : Option UInt8 :=
  byteFrom s.address.toNat (Memory.laidDown s.address s.bytes) x

theorem puts_of_covers (h : s.Covers x) : s.puts x = s.bytes[x - s.address.toNat]? := by
  have hlt : x - s.address.toNat < s.bytes.length := by
    have hstop := h.2
    rw [stop] at hstop
    have hstart := h.1
    omega
  rw [puts, byteFrom, if_pos h.1, Memory.laidDown]
  split
  · rw [zeroFilled, List.getElem?_append_left hlt]
  · rfl

theorem puts_of_pads (h : s.Pads x) : s.puts x = some 0 := by
  obtain ⟨haligned, hstop, hlast⟩ := h
  rw [stop] at hstop hlast
  rw [puts, byteFrom, if_pos (by omega), Memory.laidDown, if_pos haligned, zeroFilled,
    List.getElem?_append_right (by omega), List.getElem?_replicate, if_pos (by omega)]

theorem puts_eq_none (hcovers : ¬ s.Covers x) (hpads : ¬ s.Pads x) : s.puts x = none := by
  rw [Covers, stop] at hcovers
  rw [Pads, stop] at hpads
  rw [puts, byteFrom_eq_none_iff, Memory.laidDown]
  split
  · rw [length_zeroFilled]
    omega
  · omega

theorem puts_of_not_covers (h : ¬ s.Covers x) : s.puts x = if s.Pads x then some 0 else none := by
  split
  · rename_i hpads
    exact puts_of_pads hpads
  · rename_i hpads
    exact puts_eq_none h hpads

theorem length_le_available {m : Memory} (h : ∀ x, s.Covers x → x < 4 * m.capacity) :
    s.bytes.length ≤ m.available s.address := by
  rw [Memory.available, Memory.sizeBytes]
  cases hlength : s.bytes.length with
  | zero => exact Nat.zero_le _
  | succ n =>
    have hlast := h (s.address.toNat + n) ⟨by omega, by rw [stop]; omega⟩
    omega

end Segment

namespace Image

theorem loadAll_of_fits {m : Memory} {segments : List Segment} (hcapacity : m.capacity ≤ 2 ^ 30)
    (hfits : ∀ s ∈ segments, s.bytes.length ≤ m.available s.address) :
    ∃ m', loadAll m segments = (m', none) ∧
      m.Overlaid m' fun x => segments.reverse.findSome? (·.puts x) := by
  induction segments generalizing m with
  | nil => exact ⟨m, rfl, .refl m⟩
  | cons s segments ih =>
    rw [List.forall_mem_cons] at hfits
    obtain ⟨m₁, hload, hone⟩ := Memory.load_of_fits hfits.1 hcapacity
    have hroom : ∀ t ∈ segments, t.bytes.length ≤ m₁.available t.address := by
      intro t ht
      rw [Memory.available, Memory.sizeBytes, hone.capacity]
      exact hfits.2 t ht
    obtain ⟨m', hloads, hall⟩ := ih (by rw [hone.capacity]; exact hcapacity) hroom
    refine ⟨m', ?_, ?_⟩
    · rw [loadAll, hload]
      exact hloads
    · have hputs : (fun x => (s :: segments).reverse.findSome? (·.puts x)) =
          fun x => (segments.reverse.findSome? (·.puts x)).or (s.puts x) := by
        funext x
        rw [List.reverse_cons, List.findSome?_append, List.findSome?_singleton]
      rw [hputs]
      exact hone.trans hall

/-- Segments that miss an address put a zero there if one of them pads it. -/
private theorem findSome?_puts {segments : List Segment} {x : Nat}
    (hmiss : ∀ s ∈ segments, ¬ s.Covers x) :
    segments.findSome? (·.puts x) = if ∃ s ∈ segments, s.Pads x then some 0 else none := by
  induction segments with
  | nil => simp
  | cons s segments ih =>
    rw [List.forall_mem_cons] at hmiss
    rw [List.findSome?_cons, Segment.puts_of_not_covers hmiss.1, ih hmiss.2]
    by_cases hpads : s.Pads x
    · simp [hpads]
    · simp [hpads]

/-- Segments that lie in memory and do not overlap are all installed. Afterwards each of their
addresses holds the byte of its segment, unless a segment further down the table has cleared it with
the rest of its own last word. -/
theorem install_disjoint (image : Image) (capacity : Nat) (hcapacity : capacity ≤ 2 ^ 30)
    (hwithin : ∀ s ∈ image.segments, ∀ x, s.Covers x → x < 4 * capacity)
    (hdisjoint : image.segments.Pairwise Segment.Disjoint) :
    ∃ m, image.install (.zeroed capacity) = (m, none) ∧
      ∀ (before : List Segment) (s : Segment) (after : List Segment),
        image.segments = before ++ s :: after →
        ∀ i (hi : i < s.bytes.length),
          m.flat.get (s.address.toNat + i) =
            if ∃ t ∈ after, t.Pads (s.address.toNat + i) then (0 : UInt8) else s.bytes[i] := by
  have hfits : ∀ s ∈ image.segments,
      s.bytes.length ≤ (Memory.zeroed capacity).available s.address := by
    intro s hs
    refine Segment.length_le_available fun x hx => ?_
    rw [Memory.capacity_zeroed]
    exact hwithin s hs x hx
  obtain ⟨m, hinstall, hbytes⟩ := loadAll_of_fits (by rwa [Memory.capacity_zeroed]) hfits
  refine ⟨m, hinstall, fun before s after hsegments i hi => ?_⟩
  have hcovers : s.Covers (s.address.toNat + i) :=
    ⟨Nat.le_add_right _ _, Nat.add_lt_add_left hi _⟩
  rw [hsegments, List.pairwise_append, List.pairwise_cons] at hdisjoint
  have hmiss : ∀ t ∈ after.reverse, ¬ t.Covers (s.address.toNat + i) := by
    intro t ht
    exact hdisjoint.2.1.1 t (List.mem_reverse.mp ht) _ hcovers
  -- Only the segments after `s` can come over its byte.
  have hown : s.puts (s.address.toNat + i) = some s.bytes[i] := by
    rw [Segment.puts_of_covers hcovers, Nat.add_sub_cancel_left, List.getElem?_eq_getElem hi]
  rw [hbytes.bytes, hsegments, List.reverse_append, List.reverse_cons, List.findSome?_append,
    List.findSome?_append, findSome?_puts hmiss, List.findSome?_singleton, hown]
  simp only [List.mem_reverse]
  split <;> rfl

/-- Segments that meet inside words, in the order of their addresses but for the last. -/
def interleaved : Image :=
  { segments := [⟨0, [0x11]⟩, ⟨2, [0x22, 0x33, 0x44]⟩, ⟨8, [0x55]⟩, ⟨5, [0x66]⟩]
    entry := none
    file := #[] }

theorem install_interleaved :
    (∀ s ∈ interleaved.segments, ∀ x, s.Covers x → x < 4 * 3) ∧
      interleaved.segments.Pairwise Segment.Disjoint ∧
      ∃ m, interleaved.install (.zeroed 3) = (m, none) ∧ m.flat.get 4 = 0x44 := by
  have hstops : ∀ s ∈ interleaved.segments, s.stop ≤ 12 := by decide
  have hranges : interleaved.segments.Pairwise fun s t =>
      s.stop ≤ t.address.toNat ∨ t.stop ≤ s.address.toNat := by decide
  have hwithin : ∀ s ∈ interleaved.segments, ∀ x, s.Covers x → x < 4 * 3 :=
    fun s hs _ => Segment.lt_of_covers (hstops s hs)
  have hdisjoint := hranges.imp Segment.disjoint_of_stop_le
  obtain ⟨m, hinstall, hbytes⟩ := install_disjoint interleaved 3 (by decide) hwithin hdisjoint
  refine ⟨hwithin, hdisjoint, m, hinstall, ?_⟩
  have hbyte := hbytes [⟨0, [0x11]⟩] ⟨2, [0x22, 0x33, 0x44]⟩ [⟨8, [0x55]⟩, ⟨5, [0x66]⟩] rfl 2
    (by decide)
  rw [if_neg (by decide)] at hbyte
  exact hbyte

/-- A segment that ends inside the word in which the one before it in the table lies. -/
def cleared : Image :=
  { segments := [⟨2, [0x11, 0x22]⟩, ⟨0, [0x33]⟩], entry := none, file := #[] }

/-- Segments that do not overlap may still lose bytes to one another. -/
theorem install_cleared :
    ¬ ∀ (image : Image) (capacity : Nat), capacity ≤ 2 ^ 30 →
      (∀ s ∈ image.segments, ∀ x, s.Covers x → x < 4 * capacity) →
      image.segments.Pairwise Segment.Disjoint →
      ∃ m, image.install (.zeroed capacity) = (m, none) ∧
        ∀ s ∈ image.segments, ∀ i (hi : i < s.bytes.length),
          m.flat.get (s.address.toNat + i) = s.bytes[i] := by
  intro hall
  have hstops : ∀ s ∈ cleared.segments, s.stop ≤ 4 := by decide
  have hranges : cleared.segments.Pairwise fun s t =>
      s.stop ≤ t.address.toNat ∨ t.stop ≤ s.address.toNat := by decide
  have hwithin : ∀ s ∈ cleared.segments, ∀ x, s.Covers x → x < 4 * 1 :=
    fun s hs _ => Segment.lt_of_covers (hstops s hs)
  have hdisjoint := hranges.imp Segment.disjoint_of_stop_le
  obtain ⟨m, hinstall, hbytes⟩ := hall cleared 1 (by decide) hwithin hdisjoint
  have hm : (cleared.install (.zeroed 1)).1 = m := congrArg Prod.fst hinstall
  have hlost : (cleared.install (.zeroed 1)).1.flat.get 2 = 0 := by decide
  have hbyte : m.flat.get 2 = 0x11 := hbytes ⟨2, [0x11, 0x22]⟩ List.mem_cons_self 0 (by decide)
  rw [← hm, hlost] at hbyte
  exact absurd hbyte (by decide)

end Image

end RiscvSoc
