import RiscvSoc.Machine
import RiscvSoc.Proofs.Bus.Store
import RiscvSoc.Proofs.Signature.Lines

/-! The views of memory: the data wire of the core, which goes over the bus, and beside the bus the
fetch, the debug port, the walk over a signature region and the poll for the halt value. Each of
them strips the select field for itself. A store to an address that no device owns shows on all of
them as the same word, and a store to a device shows on none of those beside the bus. -/

namespace RiscvSoc

namespace SignatureRange

def single (a : UInt32) : SignatureRange :=
  ⟨a &&& ~~~3, (a &&& ~~~3) + 1⟩

theorem addresses_single (a : UInt32) : (single a).addresses = [a &&& ~~~3] := by
  have ha := a.toNat_lt
  have hstart := Word.toNat_and_not_three a
  have hstop : ((a &&& ~~~3) + 1).toNat = a.toNat / 4 * 4 + 1 := by
    rw [UInt32.toNat_add, hstart]
    show (a.toNat / 4 * 4 + 1) % 2 ^ 32 = a.toNat / 4 * 4 + 1
    exact Nat.mod_eq_of_lt (by omega)
  have hfirst : (single a).firstWord = (a &&& ~~~3).toNat := by
    rw [single, firstWord, hstart]
    omega
  have hwords : (single a).words = 1 := by
    rw [words, hfirst, hstart, single, hstop]
    omega
  rw [addresses, hwords, hfirst]
  exact congrArg ([·]) UInt32.ofNat_toNat

end SignatureRange

namespace Memory

/-- The word at an address without its select field. -/
def shown (m : Memory) (a : UInt32) : UInt32 :=
  m.wordAt (a.toNat % 2 ^ 29 / 4)

theorem readWord_eq_shown (m : Memory) (a : UInt32) : DebugPort.readWord m a = m.shown a :=
  DebugPort.readWord_eq m a

theorem read_masked (m : Memory) (a : UInt32) : m.read (a &&& deviceMask) = m.shown a :=
  DebugPort.readWord_eq m a

theorem readWord_aligned (m : Memory) (a : UInt32) :
    DebugPort.readWord m (a &&& ~~~3) = m.shown a := by
  have hword : a.toNat / 4 * 4 % 2 ^ 29 / 4 = a.toNat % 2 ^ 29 / 4 := by omega
  rw [readWord_eq_shown, shown, Word.toNat_and_not_three, hword, shown]

theorem wordIndex_masked (a : UInt32) : wordIndex (a &&& deviceMask) = a.toNat % 2 ^ 29 / 4 := by
  rw [wordIndex_eq, Word.toNat_and_mask a (k := 29) rfl]

/-- A write shows at its own address, unless that lies beyond the capacity. -/
theorem shown_write (m : Memory) (a data : UInt32) (strobe : Strobe) :
    (m.write (a &&& deviceMask) data strobe).shown a =
      if a.toNat % 2 ^ 29 / 4 < m.capacity then strobe.merge (m.shown a) data else 0 := by
  rw [← read_masked, read_write, wordIndex_masked]
  split
  · rename_i hin
    rw [if_pos hin.2, read_masked]
  · rename_i hout
    have hbeyond : m.capacity ≤ a.toNat % 2 ^ 29 / 4 :=
      Nat.not_lt.mp fun hin => hout ⟨rfl, hin⟩
    rw [if_neg (Nat.not_lt.mpr hbeyond), read_masked, shown, wordAt,
      Array.getElem?_eq_none hbeyond]
    rfl

end Memory

namespace Bus

variable {b b' : Bus} {a : UInt32}

/-- Whoever looks at memory beside the bus finds `word` at the address `a`. -/
structure Exposes (b : Bus) (a word : UInt32) : Prop where
  fetched : ∀ (s : Soc) (w : Wires), s.bus = b → s.core.pc = a → (s.settle w).instruction = word
  debugged : DebugPort.readWord b.memory a = word
  single : readSignature b.memory (.single a) = [word]
  signed : ∀ (r : SignatureRange) (k : Nat), r.addresses[k]? = some (a &&& ~~~3) →
    (readSignature b.memory r)[k]? = some word
  polled : a ≠ 0 → ∀ m : Machine, m.soc.bus = b → m.settings.haltAddress = a →
    (m.isHalted = true ↔ m.settings.haltValue = word)

/-- A core that drives the address `a` for its data finds `word` on the data wire. -/
structure Answers (b : Bus) (a word : UInt32) : Prop where
  read : b.read (.combine (.ofAddress a) a) = word
  wire : ∀ (s : Soc) (w : Wires), s.bus = b → (s.settle w).outputs.data.address = a →
    (s.settle w).readData = word

theorem exposes_shown (b : Bus) (a : UInt32) : b.Exposes a (b.memory.shown a) := by
  refine ⟨?_, b.memory.readWord_eq_shown a, ?_, ?_, ?_⟩
  · rintro s w rfl rfl
    exact s.bus.memory.read_masked s.core.pc
  · rw [readSignature, SignatureRange.addresses_single, List.map_singleton,
      Memory.readWord_aligned]
  · intro r k hk
    rw [readSignature, List.getElem?_map, hk, Option.map_some, Memory.readWord_aligned]
  · rintro hne m rfl rfl
    rw [Machine.isHalted, Memory.read_masked, Bool.and_eq_true, bne_iff_ne, beq_iff_eq]
    exact ⟨fun h => h.2.symm, fun h => ⟨hne, h.symm⟩⟩

/-- Memory alone decides what is seen beside the bus. -/
theorem exposes_of_memory_eq (h : b'.memory = b.memory) (a : UInt32) :
    ∃ word, b.Exposes a word ∧ b'.Exposes a word := by
  refine ⟨b.memory.shown a, b.exposes_shown a, ?_⟩
  rw [← h]
  exact b'.exposes_shown a

/-- At an address that no device owns, the bus answers with the word that memory shows there. -/
theorem answers_shown (h : b.owner? (.ofAddress a) = none) : b.Answers a (b.memory.shown a) := by
  have hread : b.read (.combine (.ofAddress a) a) = b.memory.shown a := by
    rw [read, route_of_unowned h]
    exact b.memory.read_masked a
  refine ⟨hread, ?_⟩
  rintro s w rfl rfl
  rw [EffectiveAddress.combine_ofAddress] at hread
  rw [← hread]
  exact congrArg s.bus.read (s.core.effectiveAddress_outputs _)

/-- After any history of a bus, a store to an address that no device owns shows to everyone as one
word, which is zero beyond the capacity and otherwise has the bytes of the store in its lanes and
the old ones elsewhere. A store to a device leaves every word as all but the bus see it. -/
theorem store_seen_alike (m : Memory) (history : List Action) (width : StoreWidth)
    (a data : UInt32) :
    let b := history.foldl act (ofMemory m)
    let b' := b.store width a data
    let k := a.toNat % 2 ^ 29 / 4
    ((∀ d ∈ b.devices, d.select.index ≠ (DeviceSelect.ofAddress a).index) →
      ∃ word, b'.Answers a word ∧ b'.Exposes a word ∧
        (b.memory.capacity ≤ k → word = 0) ∧
        (k < b.memory.capacity → ∀ j < 4, Word.byteAt word j =
          if laneOf width.size a ≤ j ∧ j < laneOf width.size a + width.size then
            Word.byteAt data (j - laneOf width.size a)
          else Word.byteAt (b.memory.wordAt k) j)) ∧
    ((∃ d ∈ b.devices, d.select.index = (DeviceSelect.ofAddress a).index) →
      ∀ x, ∃ word, b.Exposes x word ∧ b'.Exposes x word) := by
  intro b b' k
  have hregistered : b.Registered := registered_foldl (registered_ofMemory m) history
  have hunowned := hregistered.owner_eq_none_iff (.ofAddress a)
  refine ⟨fun hfree => ?_, ?_⟩
  · have howner : b.owner? (.ofAddress a) = none := hunowned.mpr hfree
    have howner' : b'.owner? (.ofAddress a) = none := by
      rw [owner?, owners_store]
      exact howner
    have hword : b'.memory.shown a = if k < b.memory.capacity then
        (width.lanes a data).2.merge (b.memory.shown a) (width.lanes a data).1 else 0 := by
      rw [memory_store_of_unowned howner, Memory.shown_write]
    refine ⟨b'.memory.shown a, answers_shown howner', b'.exposes_shown a, fun hbeyond => ?_,
      fun hin j hj => ?_⟩
    · rw [hword, if_neg (Nat.not_lt.mpr hbeyond)]
    · rw [hword, if_pos hin, width.byteAt_merge_lanes _ _ _ hj]
      rfl
  · rintro ⟨d, hd, hcode⟩ x
    obtain ⟨i, howner⟩ : ∃ i, b.owner? (.ofAddress a) = some i := by
      rw [← Option.ne_none_iff_exists', ne_eq, hunowned]
      exact fun hfree => hfree d hd hcode
    exact exposes_of_memory_eq (memory_store_of_owned howner width data) x

/-- With a serial port on the bus, a halfword stored high in the address space shows on all views in
the upper half of the word below it, and a byte for the serial port shows on none. -/
theorem store_seen_alike_highLinked :
    let b := [Action.attach (.uart .initial)].foldl act (ofMemory ⟨#[1, 0x11223344, 3]⟩)
    (∃ word, (b.store .half 0x80000007 0xBEEF).Answers 0x80000007 word ∧
        (b.store .half 0x80000007 0xBEEF).Exposes 0x80000007 word ∧
        Word.byteAt word 3 = 0xBE ∧ Word.byteAt word 2 = 0xEF ∧
        Word.byteAt word 1 = 0x33 ∧ Word.byteAt word 0 = 0x44) ∧
      ∃ word, b.Exposes 0x80000004 word ∧
        (b.store .byte 0x40000010 65).Exposes 0x80000004 word := by
  intro b
  have hfree : ∀ d ∈ b.devices, d.select.index ≠ (DeviceSelect.ofAddress 0x80000007).index := by
    decide
  have howned : ∃ d ∈ b.devices, d.select.index = (DeviceSelect.ofAddress 0x40000010).index :=
    ⟨.uart .initial, .head _, by decide⟩
  have hseen := store_seen_alike ⟨#[1, 0x11223344, 3]⟩ [.attach (.uart .initial)]
  obtain ⟨word, hanswers, hexposes, -, hbytes⟩ := (hseen .half 0x80000007 0xBEEF).1 hfree
  have hbytes := hbytes (by decide)
  refine ⟨⟨word, hanswers, hexposes, ?_, ?_, ?_, ?_⟩,
    (hseen .byte 0x40000010 65).2 howned 0x80000004⟩
  · rw [hbytes 3 (by decide)]
    decide
  · rw [hbytes 2 (by decide)]
    decide
  · rw [hbytes 1 (by decide)]
    decide
  · rw [hbytes 0 (by decide)]
    decide

end Bus

end RiscvSoc
