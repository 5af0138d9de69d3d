import RiscvSoc.Memory
import RiscvSoc.Proofs.Memory.Lanes

/-! Word memory seen as a flat array of bytes. What stores, strobed writes, byte writes and loads do
to the words is what they would do to the bytes, one at a time, with every access aligned down to
its size. -/

namespace RiscvSoc

/-- What can be asked of memory: a store or a load of the core, or a write from elsewhere. -/
inductive MemoryOp where
  | store (width : StoreWidth) (address data : UInt32)
  | write (address data : UInt32) (strobe : Strobe)
  | writeByte (address : UInt32) (value : UInt8)
  | load (kind : LoadKind) (address : UInt32)

def alignDown (size : Nat) (address : UInt32) : Nat :=
  address.toNat / size * size

/-- The byte that an operation puts at address `x`, if it puts one there. -/
def MemoryOp.puts (x : Nat) : MemoryOp → Option UInt8
  | .store width address data =>
    let first := alignDown width.size address
    if first ≤ x ∧ x < first + width.size then some (.ofNat (Word.byteAt data (x - first)))
    else none
  | .write address data strobe =>
    let first := alignDown 4 address
    if first ≤ x ∧ x < first + 4 ∧ strobe.enables (x - first) = true then
      some (.ofNat (Word.byteAt data (x - first)))
    else none
  | .writeByte address value => if x = address.toNat then some value else none
  | .load _ _ => none

/-- The register value that the little-endian number of a load's bytes stands for. -/
def LoadKind.extend (kind : LoadKind) (bytes : Nat) : UInt32 :=
  .ofInt (if kind.isSigned then (bytes : Int).bmod (256 ^ kind.size) else bytes)

/-- A memory of bytes. Reading beyond its end yields zero. -/
structure FlatMemory where
  bytes : Array UInt8

namespace FlatMemory

def get (f : FlatMemory) (x : Nat) : UInt8 :=
  f.bytes[x]?.getD 0

/-- Each byte becomes what an operation puts there, or stays. -/
def put (f : FlatMemory) (op : MemoryOp) : FlatMemory :=
  ⟨f.bytes.mapIdx fun x old => (op.puts x).getD old⟩

/-- The number that `size` bytes from `first` on stand for, the least significant in front. -/
def number (f : FlatMemory) (first : Nat) : Nat → Nat
  | 0 => 0
  | size + 1 => (f.get first).toNat + 256 * f.number (first + 1) size

def perform (f : FlatMemory) (op : MemoryOp) : FlatMemory × Option UInt32 :=
  (f.put op,
    match op with
    | .load kind address => some (kind.extend (f.number (alignDown kind.size address) kind.size))
    | _ => none)

variable {f g : FlatMemory}

theorem ext_get (hsize : f.bytes.size = g.bytes.size)
    (hget : ∀ x < f.bytes.size, f.get x = g.get x) : f = g := by
  obtain ⟨bytes⟩ := f
  obtain ⟨bytes'⟩ := g
  congr 1
  apply Array.ext hsize
  intro x hx hx'
  simpa [get, hx, hx'] using hget x hx

@[simp] theorem size_put (f : FlatMemory) (op : MemoryOp) :
    (f.put op).bytes.size = f.bytes.size := by
  simp [put]

theorem get_put (f : FlatMemory) (op : MemoryOp) (x : Nat) :
    (f.put op).get x = if x < f.bytes.size then (op.puts x).getD (f.get x) else 0 := by
  by_cases hx : x < f.bytes.size <;> simp [put, get, hx]

end FlatMemory

/-- A memory under a sequence of operations, and what the loads among them yield. -/
def runOps {σ : Type} (perform : σ → MemoryOp → σ × Option UInt32) (s : σ) :
    List MemoryOp → σ × List UInt32
  | [] => (s, [])
  | op :: ops =>
    let (s, loaded) := perform s op
    let (s, rest) := runOps perform s ops
    (s, loaded.toList ++ rest)

namespace Memory

variable (m : Memory)

/-- The core's accesses go through their lanes, the others to memory itself. -/
def perform (m : Memory) : MemoryOp → Memory × Option UInt32
  | .store width address data =>
    let (lanes, strobe) := width.lanes address data
    (m.write address lanes strobe, none)
  | .write address data strobe => (m.write address data strobe, none)
  | .writeByte address value => (m.writeByte address value, none)
  | .load kind address => (m, some (kind.extract address (m.read address)))

def wordAt (k : Nat) : UInt32 :=
  m.words[k]?.getD 0

def flat : FlatMemory :=
  ⟨Array.ofFn fun x : Fin (4 * m.capacity) => .ofNat (Word.byteAt (m.wordAt (x / 4)) (x % 4))⟩

@[simp] theorem size_flat : m.flat.bytes.size = 4 * m.capacity := by
  simp [flat]

theorem get_flat (x : Nat) :
    m.flat.get x = .ofNat (Word.byteAt (m.wordAt (x / 4)) (x % 4)) := by
  by_cases hx : x < 4 * m.capacity
  · simp [flat, FlatMemory.get, hx]
  · have hbeyond : m.wordAt (x / 4) = 0 := by
      have hk : m.capacity ≤ x / 4 := by omega
      rw [wordAt, Array.getElem?_eq_none hk]
      rfl
    have hzero : Word.byteAt 0 (x % 4) = 0 := by
      simp [Word.byteAt]
    rw [hbeyond, hzero]
    simp [flat, FlatMemory.get, hx]

theorem toNat_get_flat (x : Nat) :
    (m.flat.get x).toNat = Word.byteAt (m.wordAt (x / 4)) (x % 4) := by
  rw [get_flat, UInt8.toNat_ofNat']
  exact Nat.mod_mod _ _

theorem wordIndex_eq (address : UInt32) : wordIndex address = address.toNat / 4 := by
  rw [wordIndex, UInt32.toNat_shiftRight, Nat.shiftRight_eq_div_pow]
  rfl

/-- An access of 1, 2 or 4 bytes stays inside one word. -/
private theorem alignDown_spec {size : Nat} (hsize : size ∣ 4) (address : UInt32) :
    alignDown size address = 4 * wordIndex address + laneOf size address ∧
      laneOf size address + size ≤ 4 := by
  have hcases : ∀ s ≤ 4, s ∣ 4 → s = 1 ∨ s = 2 ∨ s = 4 := by decide
  rw [wordIndex_eq, alignDown, laneOf]
  rcases hcases size (Nat.le_of_dvd (by decide) hsize) hsize with rfl | rfl | rfl <;> omega

private theorem size_dvd_of_width (width : StoreWidth) : width.size ∣ 4 := by
  cases width <;> decide

private theorem size_dvd_of_kind (kind : LoadKind) : kind.size ∣ 4 := by
  cases kind <;> decide

/-- The bytes of one word, taken one at a time, make up a slice of it. -/
private theorem number_flat (k lane size : Nat) (h : lane + size ≤ 4) :
    m.flat.number (4 * k + lane) size = (m.wordAt k).toNat / 256 ^ lane % 256 ^ size := by
  induction size generalizing lane with
  | zero => rw [FlatMemory.number, Nat.pow_zero, Nat.mod_one]
  | succ size ih =>
    have hword : (4 * k + lane) / 4 = k := by omega
    have hlane : (4 * k + lane) % 4 = lane := by omega
    have hnext : (m.wordAt k).toNat / 256 ^ lane / 256 = (m.wordAt k).toNat / 256 ^ (lane + 1) := by
      rw [Nat.div_div_eq_div_mul, Nat.pow_succ]
    rw [FlatMemory.number, toNat_get_flat, hword, hlane, Nat.add_assoc, ih (lane + 1) (by omega),
      Nat.pow_succ 256 size, Nat.mul_comm (256 ^ size), Nat.mod_mul, hnext, Word.byteAt]

private theorem extract_read (kind : LoadKind) (address : UInt32) :
    kind.extract address (m.read address) =
      kind.extend (m.flat.number (alignDown kind.size address) kind.size) := by
  obtain ⟨hfirst, hfits⟩ := alignDown_spec (size_dvd_of_kind kind) address
  rw [LoadKind.extract_eq_integer, hfirst, m.number_flat _ _ _ hfits]
  rfl

theorem get_flat_write (address data : UInt32) (strobe : Strobe) {x : Nat}
    (hx : x < 4 * m.capacity) :
    (m.write address data strobe).flat.get x =
      if x / 4 = wordIndex address then
        .ofNat (Word.byteAt (strobe.merge (m.wordAt (x / 4)) data) (x % 4))
      else m.flat.get x := by
  have hk : x / 4 < m.words.size := by
    have hcapacity : m.words.size = m.capacity := rfl
    omega
  have hword : (m.write address data strobe).wordAt (x / 4) =
      if x / 4 = wordIndex address then strobe.merge (m.wordAt (x / 4)) data
      else m.wordAt (x / 4) := by
    simp only [wordAt, write, Array.getElem?_modify, Array.getElem?_eq_getElem hk]
    by_cases h : x / 4 = wordIndex address
    · simp [h]
    · simp [h, Ne.symm h]
  rw [get_flat, get_flat, hword]
  split <;> rfl

/-- To follow an operation byte by byte it is enough to follow it inside the memory. -/
private theorem flat_eq_put {m m' : Memory} {op : MemoryOp} (hcapacity : m'.capacity = m.capacity)
    (h : ∀ x < 4 * m.capacity, m'.flat.get x = (op.puts x).getD (m.flat.get x)) :
    m'.flat = m.flat.put op := by
  apply FlatMemory.ext_get
  · rw [FlatMemory.size_put, size_flat, size_flat, hcapacity]
  · intro x hx
    rw [size_flat, hcapacity] at hx
    rw [h x hx, FlatMemory.get_put, size_flat, if_pos hx]

private theorem flat_store (width : StoreWidth) (address data : UInt32) :
    (m.perform (.store width address data)).1.flat = m.flat.put (.store width address data) := by
  obtain ⟨hfirst, hfits⟩ := alignDown_spec (size_dvd_of_width width) address
  apply flat_eq_put (m.capacity_write _ _ _)
  intro x hx
  have hlane : x % 4 < 4 := Nat.mod_lt _ (by decide)
  show (m.write address (width.lanes address data).1 (width.lanes address data).2).flat.get x = _
  rw [m.get_flat_write _ _ _ hx, width.byteAt_merge_lanes _ _ _ hlane, m.get_flat x]
  simp only [MemoryOp.puts, hfirst]
  generalize laneOf width.size address = lane at hfits
  by_cases hword : x / 4 = wordIndex address
  · rw [if_pos hword, ← hword]
    by_cases hin : lane ≤ x % 4 ∧ x % 4 < lane + width.size
    · have hsub : x - (4 * (x / 4) + lane) = x % 4 - lane := by omega
      rw [if_pos hin, if_pos (by omega), hsub]
      rfl
    · rw [if_neg hin, if_neg (by omega)]
      rfl
  · rw [if_neg hword, if_neg (by omega)]
    rfl

private theorem flat_write (address data : UInt32) (strobe : Strobe) :
    (m.write address data strobe).flat = m.flat.put (.write address data strobe) := by
  obtain ⟨hfirst, -⟩ := alignDown_spec (Nat.dvd_refl 4) address
  have hzero : laneOf 4 address = 0 := by rw [laneOf]; omega
  apply flat_eq_put (m.capacity_write _ _ _)
  intro x hx
  have hlane : x % 4 < 4 := Nat.mod_lt _ (by decide)
  simp only [m.get_flat_write _ _ _ hx, strobe.byteAt_merge _ _ hlane, MemoryOp.puts, hfirst, hzero,
    m.get_flat x]
  by_cases hword : x / 4 = wordIndex address
  · have hsub : x - (4 * wordIndex address + 0) = x % 4 := by omega
    rw [if_pos hword, hsub]
    by_cases hon : strobe.enables (x % 4) = true
    · rw [if_pos hon, if_pos ⟨by omega, by omega, hon⟩]
      rfl
    · rw [if_neg hon, if_neg fun h => hon h.2.2]
      rfl
  · rw [if_neg hword, if_neg (by omega)]
    rfl

theorem writeByte_eq_store (address : UInt32) (value : UInt8) :
    m.writeByte address value = (m.perform (.store .byte address value.toUInt32)).1 := by
  have hindex : wordIndex (address &&& ~~~3) = wordIndex address := by
    rw [wordIndex_eq, wordIndex_eq, Word.toNat_and_not_three, Nat.mul_div_cancel _ (by decide)]
  have hbyte : value.toUInt32 &&& 0xFF = value.toUInt32 := by
    rw [← UInt32.toNat_inj, Word.toNat_and_mask _ (k := 8) rfl, UInt8.toNat_toUInt32]
    exact Nat.mod_eq_of_lt value.toNat_lt
  simp only [writeByte, perform, StoreWidth.lanes, write, hindex, hbyte]

private theorem flat_writeByte (address : UInt32) (value : UInt8) :
    (m.writeByte address value).flat = m.flat.put (.writeByte address value) := by
  have hvalue : UInt8.ofNat (Word.byteAt value.toUInt32 0) = value := by
    rw [← UInt8.toNat_inj, UInt8.toNat_ofNat', Word.byteAt, UInt8.toNat_toUInt32]
    have := value.toNat_lt
    omega
  rw [writeByte_eq_store, flat_store]
  simp only [FlatMemory.put, MemoryOp.puts, alignDown, StoreWidth.size, Nat.div_one, Nat.mul_one]
  congr 2
  funext x old
  by_cases hx : x = address.toNat
  · subst hx
    simp [hvalue]
  · rw [if_neg hx, if_neg (by omega)]

/-- One operation on the words is the same operation on the bytes. -/
theorem perform_flat (op : MemoryOp) :
    (m.perform op).1.flat = (m.flat.perform op).1 ∧
      (m.perform op).2 = (m.flat.perform op).2 := by
  cases op with
  | store width address data => exact ⟨m.flat_store width address data, rfl⟩
  | write address data strobe => exact ⟨m.flat_write address data strobe, rfl⟩
  | writeByte address value => exact ⟨m.flat_writeByte address value, rfl⟩
  | load kind address =>
    refine ⟨flat_eq_put rfl fun x _ => rfl, ?_⟩
    exact congrArg some (m.extract_read kind address)

theorem capacity_perform (op : MemoryOp) : (m.perform op).1.capacity = m.capacity := by
  cases op with
  | load kind address => rfl
  | _ => exact capacity_write _ _ _ _

private theorem runOps_perform (ops : List MemoryOp) :
    (runOps perform m ops).1.flat = (runOps FlatMemory.perform m.flat ops).1 ∧
      (runOps perform m ops).2 = (runOps FlatMemory.perform m.flat ops).2 ∧
      (runOps perform m ops).1.capacity = m.capacity := by
  induction ops generalizing m with
  | nil => exact ⟨rfl, rfl, rfl⟩
  | cons op ops ih =>
    obtain ⟨hflat, hloaded⟩ := m.perform_flat op
    obtain ⟨hflats, hrest, hcapacity⟩ := ih (m.perform op).1
    rw [hflat] at hflats hrest
    refine ⟨hflats, ?_, hcapacity.trans (m.capacity_perform op)⟩
    show (m.perform op).2.toList ++ (runOps perform (m.perform op).1 ops).2 = _
    rw [hloaded, hrest]
    rfl

end Memory

/-- Each byte holds what the last operation that touched it put there. -/
theorem FlatMemory.get_runOps (f : FlatMemory) (ops : List MemoryOp) (x : Nat) :
    (runOps FlatMemory.perform f ops).1.get x =
      if x < f.bytes.size then (ops.reverse.findSome? (MemoryOp.puts x)).getD (f.get x) else 0 := by
  induction ops generalizing f with
  | nil => by_cases hx : x < f.bytes.size <;> simp [runOps, get, hx]
  | cons op ops ih =>
    have hstep : (runOps FlatMemory.perform f (op :: ops)).1 =
        (runOps FlatMemory.perform (f.put op) ops).1 := rfl
    rw [hstep, ih, size_put, get_put, List.reverse_cons, List.findSome?_append]
    by_cases hx : x < f.bytes.size
    · simp only [if_pos hx]
      cases ops.reverse.findSome? (MemoryOp.puts x) with
      | some value => rfl
      | none => cases hput : op.puts x <;> simp [hput]
    · simp only [if_neg hx]

/-- Any sequence of operations leaves in the words what it leaves in the bytes, and its loads yield
the same values. A byte of the result is the one that the last operation on it put there. -/
theorem Memory.runOps_flat (m : Memory) (ops : List MemoryOp) :
    (runOps Memory.perform m ops).1.flat = (runOps FlatMemory.perform m.flat ops).1 ∧
      (runOps Memory.perform m ops).2 = (runOps FlatMemory.perform m.flat ops).2 ∧
      (runOps Memory.perform m ops).1.capacity = m.capacity ∧
      ∀ x, (runOps Memory.perform m ops).1.flat.get x =
        if x < 4 * m.capacity then (ops.reverse.findSome? (MemoryOp.puts x)).getD (m.flat.get x)
        else 0 := by
  obtain ⟨hflat, hloaded, hcapacity⟩ := m.runOps_perform ops
  refine ⟨hflat, hloaded, hcapacity, fun x => ?_⟩
  rw [hflat, FlatMemory.get_runOps, size_flat]

/-- A byte stored into the middle of a word shows in a halfword load above it. -/
example : (runOps Memory.perform (.zeroed 2) [.store .word 1 0x11223344, .store .byte 2 0xAA,
    .load .half 3, .load .byte 2, .load .word 8]).2 = [0x11AA, 0xFFFFFFAA, 0] := by
  decide

end RiscvSoc
