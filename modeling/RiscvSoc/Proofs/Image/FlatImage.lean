import Mathlib.Data.List.Induction
import Mathlib.Data.Nat.Find
import RiscvSoc.Machine.Build
import RiscvSoc.Proofs.Image.Segments
import RiscvSoc.Proofs.Machine.MemoryViews

/-! A flat image is one run of bytes at its load address. Loading a run either changes nothing or puts
each byte in its place. Read back as words through the select-free view that fetches and the debug
port share, the image is found as long as it lies below the select field; a word of it further up is
looked for at its address without that field, where another word may lie, or none. -/

namespace RiscvSoc

namespace Word

/-- The little-endian word in bytes `4 * k` to `4 * k + 3`, with zeros beyond the end. -/
def littleEndian (bytes : List UInt8) (k : Nat) : UInt32 :=
  ofBytes (bytes.getD (4 * k) 0) (bytes.getD (4 * k + 1) 0) (bytes.getD (4 * k + 2) 0)
    (bytes.getD (4 * k + 3) 0)

def littleEndians (bytes : List UInt8) : List UInt32 :=
  (List.range ((bytes.length + 3) / 4)).map (littleEndian bytes)

theorem length_littleEndians (bytes : List UInt8) :
    (littleEndians bytes).length = (bytes.length + 3) / 4 := by
  rw [littleEndians, List.length_map, List.length_range]

theorem getElem_littleEndians (bytes : List UInt8) {k : Nat} (h : k < (littleEndians bytes).length) :
    (littleEndians bytes)[k] = littleEndian bytes k := by
  simp only [littleEndians, List.getElem_map, List.getElem_range]

theorem littleEndians_short {bytes : List UInt8} (h : 0 < bytes.length ∧ bytes.length ≤ 4) :
    littleEndians bytes = [littleEndian bytes 0] := by
  have hcount : (bytes.length + 3) / 4 = 1 := by omega
  rw [littleEndians, hcount, List.range_one, List.map_singleton]

theorem littleEndians_cons (b0 b1 b2 b3 : UInt8) (bytes : List UInt8) :
    littleEndians (b0 :: b1 :: b2 :: b3 :: bytes) = ofBytes b0 b1 b2 b3 :: littleEndians bytes := by
  have hcount : ((b0 :: b1 :: b2 :: b3 :: bytes).length + 3) / 4 = (bytes.length + 3) / 4 + 1 := by
    simp only [List.length_cons]
    omega
  have hrest : ∀ k, littleEndian (b0 :: b1 :: b2 :: b3 :: bytes) (k + 1) = littleEndian bytes k := by
    intro k
    rw [littleEndian, littleEndian, Nat.mul_succ]
    rfl
  rw [littleEndians, hcount, List.range_succ_eq_map, List.map_cons, List.map_map, littleEndians]
  exact congrArg (ofBytes b0 b1 b2 b3 :: ·) (List.map_congr_left fun k _ => hrest k)

end Word

namespace Memory

/-- Loading fails exactly if there are more bytes than from the address to the end of memory. It then
tells both numbers, and memory stays as it was. Otherwise each byte comes to its place and all others
stay, except that words from a word-aligned address on clear the rest of the last of them. -/
theorem load_places_bytes (m : Memory) (base : UInt32) (bytes : List UInt8)
    (hcapacity : m.capacity ≤ 2 ^ 30) :
    let room := 4 * m.capacity - base.toNat
    (∀ overflow, m.load base bytes = .error overflow ↔
      room < bytes.length ∧ overflow = ⟨bytes.length, room⟩) ∧
    (∀ overflow, m.load base bytes = .error overflow →
      ∀ rest, Image.loadAll m (⟨base, bytes⟩ :: rest) = (m, some overflow)) ∧
    (bytes.length ≤ room → ∃ m', m.load base bytes = .ok m' ∧ m'.capacity = m.capacity ∧
      (∀ i (hi : i < bytes.length), m'.flat.get (base.toNat + i) = bytes[i]) ∧
      ∀ x, x < base.toNat ∨ base.toNat + bytes.length ≤ x →
        m'.flat.get x =
          if base.toNat % 4 = 0 ∧ bytes.length % 4 ≠ 0 ∧ base.toNat + bytes.length ≤ x ∧
            x / 4 = (base.toNat + bytes.length) / 4 then 0
          else m.flat.get x) := by
  intro room
  refine ⟨fun overflow => load_eq_error_iff, fun overflow hfailed rest => ?_, fun hfits => ?_⟩
  · rw [Image.loadAll, hfailed]
  · obtain ⟨m', hload, hbytes⟩ := load_of_fits hfits hcapacity
    have hover : Overlaid m m' (Segment.puts ⟨base, bytes⟩) := hbytes
    refine ⟨m', hload, hover.capacity, fun i hi => ?_, fun x hx => ?_⟩
    · have hcovers : Segment.Covers ⟨base, bytes⟩ (base.toNat + i) :=
        ⟨Nat.le_add_right _ _, Nat.add_lt_add_left hi _⟩
      rw [hover.bytes, Segment.puts_of_covers hcovers, Nat.add_sub_cancel_left,
        List.getElem?_eq_getElem hi]
      rfl
    · have hmiss : ¬ Segment.Covers ⟨base, bytes⟩ x := Segment.not_covers_iff.mpr hx
      rw [hover.bytes, Segment.puts_of_not_covers hmiss]
      simp only [Segment.pads_iff, Segment.stop]
      split <;> rfl

/-- Five bytes from the second word on, so that three bytes of the third one are cleared. -/
theorem load_places_bytes_padded :
    let m : Memory := ⟨#[0x11111111, 0x22222222, 0x33333333]⟩
    m.capacity ≤ 2 ^ 30 ∧ ∃ m', m.load 4 [1, 2, 3, 4, 5] = .ok m' ∧
      m'.flat.get 3 = 0x11 ∧ m'.flat.get 8 = 5 ∧ m'.flat.get 9 = 0 := by
  intro m
  have hcapacity : m.capacity ≤ 2 ^ 30 := by decide
  obtain ⟨-, -, hfits⟩ := load_places_bytes m 4 [1, 2, 3, 4, 5] hcapacity
  obtain ⟨m', hload, -, hplaced, hothers⟩ := hfits (by decide)
  refine ⟨hcapacity, m', hload, ?_, hplaced 4 (by decide), ?_⟩
  · rw [hothers 3 (by decide)]
    decide
  · rw [hothers 9 (by decide)]
    decide

/-- Storing bytes from a word-aligned address on is storing their words. -/
theorem storeAligned_eq (m : Memory) (address : UInt32) (bytes : List UInt8) :
    m.storeAligned address bytes = m.writeWords address (Word.littleEndians bytes) := by
  match bytes with
  | [] => rw [storeAligned]; rfl
  | [b0] =>
    rw [storeAligned, Word.littleEndians_short (by simp)]
    rfl
  | [b0, b1] =>
    rw [storeAligned, Word.littleEndians_short (by simp)]
    rfl
  | [b0, b1, b2] =>
    rw [storeAligned, Word.littleEndians_short (by simp)]
    rfl
  | b0 :: b1 :: b2 :: b3 :: bytes =>
    rw [storeAligned, Word.littleEndians_cons, writeWords, storeAligned_eq]

theorem writeWords_concat (m : Memory) (address w : UInt32) (ws : List UInt32) :
    m.writeWords address (ws ++ [w]) =
      (m.writeWords address ws).write (address + 4 * .ofNat ws.length) w .all := by
  induction ws generalizing m address with
  | nil =>
    show m.write address w .all = m.write (address + 4 * 0) w .all
    rw [UInt32.mul_zero, UInt32.add_zero]
  | cons v ws ih =>
    have hnext : address + 4 + 4 * UInt32.ofNat ws.length =
        address + 4 * UInt32.ofNat (v :: ws).length := by
      rw [List.length_cons, UInt32.ofNat_add, UInt32.mul_add, UInt32.add_comm (4 * _),
        UInt32.add_assoc]
      rfl
    rw [List.cons_append, writeWords, ih, hnext, writeWords]

/-- The address at which word `k` of a run from `address` on comes to lie. Addresses wrap. -/
def placeOf (address : UInt32) (k : Nat) : Nat :=
  (address.toNat + 4 * k) % 2 ^ 32

theorem wordIndex_place (address : UInt32) (k : Nat) :
    wordIndex (address + 4 * .ofNat k) = placeOf address k / 4 := by
  have hk : (4 * UInt32.ofNat k).toNat = 4 * k % 2 ^ 32 := by
    rw [UInt32.toNat_mul, UInt32.toNat_ofNat']
    show 4 * (k % 2 ^ 32) % 2 ^ 32 = 4 * k % 2 ^ 32
    omega
  rw [wordIndex_eq, UInt32.toNat_add, hk, placeOf, Nat.add_mod_mod]

theorem wordAt_write_all (m : Memory) (address w : UInt32) {q : Nat} (hq : q < m.capacity) :
    (m.write address w .all).wordAt q = if wordIndex address = q then w else m.wordAt q := by
  have hin : q < m.words.size := hq
  simp only [write, wordAt, Array.getElem?_modify, Strobe.merge_all]
  split
  · rw [Array.getElem?_eq_getElem hin]
    rfl
  · rfl

theorem wordAt_zeroed (n q : Nat) : (zeroed n).wordAt q = 0 := by
  simp only [zeroed, wordAt, Array.getElem?_replicate]
  split <;> rfl

theorem capacity_writeWords (m : Memory) (address : UInt32) (ws : List UInt32) :
    (m.writeWords address ws).capacity = m.capacity := by
  induction ws generalizing m address with
  | nil => rfl
  | cons w ws ih => rw [writeWords, ih, capacity_write]

/-- A word that no other one of the run comes over is found in its place. -/
theorem wordAt_writeWords_last (m : Memory) (address : UInt32) (ws : List UInt32) {j q : Nat}
    (hq : q < m.capacity) (hj : j < ws.length) (hplace : placeOf address j / 4 = q)
    (hlast : ∀ i, j < i → i < ws.length → placeOf address i / 4 ≠ q) :
    (m.writeWords address ws).wordAt q = ws[j] := by
  induction ws using List.reverseRecOn with
  | nil => exact absurd hj (Nat.not_lt_zero j)
  | append_singleton ws w ih =>
    rw [List.length_append, List.length_singleton] at hj hlast
    rw [writeWords_concat, wordAt_write_all _ _ _ (by rwa [capacity_writeWords]), wordIndex_place]
    rcases Nat.lt_succ_iff_lt_or_eq.mp hj with hj | rfl
    · rw [if_neg (hlast _ hj (Nat.lt_succ_self _)), List.getElem_append_left hj]
      exact ih hj fun i hij hi => hlast i hij (Nat.lt_succ_of_lt hi)
    · rw [if_pos hplace, List.getElem_concat_length rfl]

/-- Where no word of the run comes to lie, the old one stays. -/
theorem wordAt_writeWords_none (m : Memory) (address : UInt32) (ws : List UInt32) {q : Nat}
    (hq : q < m.capacity) (hmiss : ∀ i < ws.length, placeOf address i / 4 ≠ q) :
    (m.writeWords address ws).wordAt q = m.wordAt q := by
  induction ws using List.reverseRecOn with
  | nil => rfl
  | append_singleton ws w ih =>
    rw [List.length_append, List.length_singleton] at hmiss
    rw [writeWords_concat, wordAt_write_all _ _ _ (by rwa [capacity_writeWords]), wordIndex_place,
      if_neg (hmiss _ (Nat.lt_succ_self _))]
    exact ih fun i hi => hmiss i (Nat.lt_succ_of_lt hi)

/-- Of the words of `bytes`, laid down in a cleared memory from `address` on, `word` is the last that
comes to lie at `x`, and it is zero if none of them does. -/
def LastLaid (address : UInt32) (bytes : List UInt8) (x : Nat) (word : UInt32) : Prop :=
  (∃ j, 4 * j < bytes.length ∧ placeOf address j = x ∧ word = Word.littleEndian bytes j ∧
    ∀ i, j < i → 4 * i < bytes.length → placeOf address i ≠ x) ∨
  (∀ i, 4 * i < bytes.length → placeOf address i ≠ x) ∧ word = 0

theorem lastLaid_storeAligned {address : UInt32} (haligned : address.toNat % 4 = 0)
    (bytes : List UInt8) {n x : Nat} (hx : x % 4 = 0) (hin : x < 4 * n) :
    LastLaid address bytes x (((zeroed n).storeAligned address bytes).wordAt (x / 4)) := by
  have hq : x / 4 < (zeroed n).capacity := by
    rw [capacity_zeroed]
    omega
  have hcount := Word.length_littleEndians bytes
  have hword : ∀ i, placeOf address i / 4 = x / 4 ↔ placeOf address i = x := by
    intro i
    rw [placeOf]
    omega
  rw [storeAligned_eq]
  by_cases hsome : ∃ i, 4 * i < bytes.length ∧ placeOf address i = x
  · obtain ⟨i, hi, hplace⟩ := hsome
    let j := Nat.findGreatest (placeOf address · = x) ((bytes.length - 1) / 4)
    have hj : placeOf address j = x :=
      Nat.findGreatest_spec (P := (placeOf address · = x)) (by omega : i ≤ _) hplace
    have hle : j ≤ (bytes.length - 1) / 4 := Nat.findGreatest_le _
    have hlast : ∀ k, j < k → 4 * k < bytes.length → placeOf address k ≠ x :=
      fun k hjk hk => Nat.findGreatest_is_greatest (P := (placeOf address · = x)) hjk (by omega)
    have hlt : j < (Word.littleEndians bytes).length := by omega
    refine .inl ⟨j, by omega, hj, ?_, hlast⟩
    rw [wordAt_writeWords_last _ _ _ hq hlt ((hword j).mpr hj), Word.getElem_littleEndians]
    exact fun k hjk hk => mt (hword k).mp (hlast k hjk (by omega))
  · have hmiss : ∀ i, 4 * i < bytes.length → placeOf address i ≠ x :=
      fun i hi hplace => hsome ⟨i, hi, hplace⟩
    refine .inr ⟨hmiss, ?_⟩
    rw [wordAt_writeWords_none _ _ _ hq fun i hi => mt (hword i).mp (hmiss i (by omega)),
      wordAt_zeroed]

/-- Below the end of the address space no two words of a run lie in one place. -/
theorem LastLaid.eq_of_place {address word : UInt32} {bytes : List UInt8} {x k : Nat}
    (h : LastLaid address bytes x word) (hspace : address.toNat + bytes.length ≤ 2 ^ 32)
    (hk : 4 * k < bytes.length) (hplace : address.toNat + 4 * k = x) :
    word = Word.littleEndian bytes k := by
  have hplaces : ∀ i, 4 * i < bytes.length → placeOf address i = address.toNat + 4 * i :=
    fun i hi => Nat.mod_eq_of_lt (by omega)
  obtain ⟨j, hj, hjx, hword, -⟩ | ⟨hmiss, -⟩ := h
  · have hjk : j = k := by
      rw [hplaces j hj] at hjx
      omega
    rw [hword, hjk]
  · exact absurd ((hplaces k hk).trans hplace) (hmiss k hk)

end Memory

namespace Image

open Memory (LastLaid)

variable {file : Elf.Bytes} {load : UInt32} {m m' : Memory}

theorem installed_flat_iff (haligned : load.toNat % 4 = 0) :
    Machine.installed (flat file load) m = .ok m' ↔
      file.size ≤ m.available load ∧ m' = m.storeAligned load file.toList := by
  have hload : m.load load file.toList = if m.available load < file.size then
      .error ⟨file.size, m.available load⟩ else .ok (m.storeAligned load file.toList) := by
    rw [Memory.load, if_pos ((Memory.and_three_eq_zero_iff load).mpr haligned),
      Array.length_toList]
  rw [Machine.installed, install, flat, loadAll, hload]
  by_cases hroom : m.available load < file.size
  · rw [if_pos hroom]
    refine iff_of_false ?_ fun h => Nat.not_lt.mpr h.1 hroom
    intro h
    cases h
  · rw [if_neg hroom, and_iff_right (Nat.not_lt.mp hroom)]
    exact ⟨fun h => (Except.ok.inj h).symm, fun h => congrArg Except.ok h.symm⟩

theorem ofFile_flat (path : String) (hflat : Elf.hasMagic file = false) :
    ofFile path file load = .ok (flat file load) := by
  rw [ofFile, hflat, if_neg Bool.false_ne_true]

theorem lastLaid_shown {n : Nat} (haligned : load.toNat % 4 = 0)
    (hinstalled : Machine.installed (flat file load) (.zeroed n) = .ok m) (pc : UInt32)
    (hpc : pc.toNat % 4 = 0) (hin : pc.toNat < 4 * n) :
    LastLaid load file.toList (pc.toNat % 2 ^ 29) (m.shown pc) := by
  obtain ⟨-, rfl⟩ := (installed_flat_iff haligned).mp hinstalled
  exact Memory.lastLaid_storeAligned haligned _ (by omega) (by omega)

theorem load_lt_of_validate {c : Config} (h : c.validate = .ok ()) :
    c.general.loadAddress.toNat < 4 * c.memory.words.toNat := by
  have hfault : c.fault? = none := by
    rw [Config.validate] at h
    cases hf : c.fault? with
    | none => rfl
    | some fault => rw [hf] at h; cases h
  rw [Config.fault?] at hfault
  split at hfault
  · cases hfault
  · split at hfault
    · cases hfault
    · split at hfault
      · cases hfault
      · rename_i hsize
        rw [Config.sizeBytes] at hsize
        omega

/-- A flat image that a valid configuration installs starts in memory, where the core starts too. The
fetch and the debug port find the same word at the address of its word `k`, namely the last word of
the image that lies at this address without its select field. That is word `k` itself if the address
has no select field and the image does not run past the last address. -/
theorem flat_words_shown (c : Config) (path : String) (file : Elf.Bytes) (image : Image)
    (memory : Memory) (hvalid : c.validate = .ok ()) (hflat : Elf.hasMagic file = false)
    (hfile : ofFile path file c.general.loadAddress = .ok image)
    (hinstalled : Machine.installed image (.zeroed c.memory.words.toNat) = .ok memory)
    (haligned : c.general.loadAddress.toNat % 4 = 0)
    (hentry : c.general.entryPoint = c.general.loadAddress) :
    let load := c.general.loadAddress
    load.toNat < memory.sizeBytes ∧ (Core.powerOn (image.entry.getD c.general.entryPoint)).pc = load ∧
      ∀ k, 4 * k + 4 ≤ file.size → ∀ pc : UInt32, pc.toNat = load.toNat + 4 * k →
        ∃ word, (∀ s : Soc, s.bus.memory = memory → s.core.pc = pc → s.fetch = word) ∧
          DebugPort.readWord memory pc = word ∧
          LastLaid load file.toList (pc.toNat % 2 ^ 29) word ∧
          (pc.toNat < 2 ^ 29 → load.toNat + file.size ≤ 2 ^ 32 →
            word = Word.littleEndian file.toList k) := by
  intro load
  rw [ofFile_flat path hflat, Except.ok.injEq] at hfile
  subst hfile
  have hstored := (installed_flat_iff haligned).mp hinstalled
  have hcapacity : memory.capacity = c.memory.words.toNat := by
    rw [hstored.2, Memory.storeAligned_eq, Memory.capacity_writeWords, Memory.capacity_zeroed]
  refine ⟨?_, hentry, fun k hk pc hpc => ⟨memory.shown pc, ?_, ?_, ?_⟩⟩
  · rw [Memory.sizeBytes, hcapacity]
    exact load_lt_of_validate hvalid
  · rintro s rfl rfl
    exact s.bus.memory.read_masked s.core.pc
  · exact memory.readWord_eq_shown pc
  · have hroom := hstored.1
    rw [Memory.available, Memory.sizeBytes, Memory.capacity_zeroed] at hroom
    have haddress : pc.toNat = c.general.loadAddress.toNat + 4 * k := hpc
    have hlaid := lastLaid_shown haligned hinstalled pc (by omega) (by omega)
    refine ⟨hlaid, fun hlow hspace => ?_⟩
    rw [Nat.mod_eq_of_lt hlow] at hlaid
    exact hlaid.eq_of_place hspace (by rw [Array.length_toList]; omega) hpc.symm

/-- A configuration that loads an image at `address`, where it also enters it. -/
def loadingAt (address : UInt32) (words : UInt64) : Config :=
  let general := Config.standard.general
  { Config.standard with
    general := { general with entryPoint := address, loadAddress := address }
    memory := { words } }

def oneInstruction : Elf.Bytes :=
  #[0x93, 0x00, 0xA0, 0x02]

/-- At address 8 the instruction is found. -/
theorem flat_words_shown_low :
    (loadingAt 8 4).validate = .ok () ∧ Elf.hasMagic oneInstruction = false ∧
      ofFile "image" oneInstruction 8 = .ok (flat oneInstruction 8) ∧
      ∃ memory, Machine.installed (flat oneInstruction 8) (.zeroed 4) = .ok memory ∧
        DebugPort.readWord memory 8 = 0x02A00093 ∧
        ∀ s : Soc, s.bus.memory = memory → s.core.pc = 8 → s.fetch = 0x02A00093 := by
  have hvalid : (loadingAt 8 4).validate = .ok () := rfl
  have hflat : Elf.hasMagic oneInstruction = false := by decide
  have hfile : ofFile "image" oneInstruction 8 = .ok (flat oneInstruction 8) :=
    ofFile_flat "image" hflat
  have hinstalled := (@installed_flat_iff oneInstruction 8 (.zeroed 4) _ (by decide)).mpr
    ⟨by decide, rfl⟩
  refine ⟨hvalid, hflat, hfile, _, hinstalled, ?_⟩
  obtain ⟨-, -, hwords⟩ := flat_words_shown (loadingAt 8 4) "image" oneInstruction _ _ hvalid hflat
    hfile hinstalled (by decide) rfl
  obtain ⟨word, hfetch, hport, -, hword⟩ := hwords 0 (by decide) 8 (by decide)
  have hvalue : word = 0x02A00093 := (hword (by decide) (by decide)).trans (by decide)
  subst hvalue
  exact ⟨hport, hfetch⟩

/-- Where the select field begins, in a memory that reaches one word further, it is not found. -/
theorem flat_words_hidden :
    ¬ ∀ (c : Config) (path : String) (file : Elf.Bytes) (image : Image) (memory : Memory),
      c.validate = .ok () → Elf.hasMagic file = false →
      ofFile path file c.general.loadAddress = .ok image →
      Machine.installed image (.zeroed c.memory.words.toNat) = .ok memory →
      c.general.loadAddress.toNat % 4 = 0 → c.general.entryPoint = c.general.loadAddress →
      ∀ k, 4 * k + 4 ≤ file.size → ∀ pc : UInt32, pc.toNat = c.general.loadAddress.toNat + 4 * k →
        (∀ s : Soc, s.bus.memory = memory → s.core.pc = pc →
          s.fetch = Word.littleEndian file.toList k) ∧
        DebugPort.readWord memory pc = Word.littleEndian file.toList k := by
  intro hall
  have hvalid : (loadingAt 0x20000000 0x8000001).validate = .ok () := rfl
  have hflat : Elf.hasMagic oneInstruction = false := by decide
  have haligned : (0x20000000 : UInt32).toNat % 4 = 0 := by decide
  have hroom : oneInstruction.size ≤ (Memory.zeroed 0x8000001).available 0x20000000 := by
    rw [Memory.available, Memory.sizeBytes, Memory.capacity_zeroed]
    decide
  obtain ⟨memory, hinstalled⟩ : ∃ memory,
      Machine.installed (flat oneInstruction 0x20000000) (.zeroed 0x8000001) = .ok memory :=
    ⟨_, (installed_flat_iff haligned).mpr ⟨hroom, rfl⟩⟩
  have hclaimed := (hall (loadingAt 0x20000000 0x8000001) "image" oneInstruction _ memory hvalid
    hflat (ofFile_flat "image" hflat) hinstalled haligned rfl 0 (by decide) 0x20000000
    (by decide)).2
  rw [Memory.readWord_eq_shown] at hclaimed
  -- Without its select field the address is 0, where the image has no word.
  obtain ⟨j, hj, hplace, -⟩ | ⟨-, hzero⟩ :=
    lastLaid_shown haligned hinstalled 0x20000000 (by decide) (by decide)
  · have hlength : oneInstruction.toList.length = 4 := by decide
    have hfirst : j = 0 := by omega
    subst hfirst
    exact absurd hplace (by decide)
  · rw [hzero] at hclaimed
    exact absurd hclaimed (by decide)

end Image

end RiscvSoc
