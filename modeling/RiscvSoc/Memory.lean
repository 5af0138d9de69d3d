import RiscvSoc.Address
import RiscvSoc.Memory.Strobe
import RiscvSoc.Word

/-! Word-organised memory. Addresses are byte addresses; an access beyond the capacity reads zero or
changes nothing. -/

namespace RiscvSoc

structure Memory where
  words : Array UInt32
  deriving DecidableEq

namespace Memory

def zeroed (capacity : Nat) : Memory :=
  ⟨Array.replicate capacity 0⟩

def capacity (m : Memory) : Nat :=
  m.words.size

def sizeBytes (m : Memory) : Nat :=
  4 * m.capacity

def wordIndex (address : UInt32) : Nat :=
  (address >>> 2).toNat

def read (m : Memory) (address : UInt32) : UInt32 :=
  m.words[wordIndex address]?.getD 0

/-- Replaces the strobed lanes of the word that holds `address`. -/
def write (m : Memory) (address data : UInt32) (strobe : Strobe) : Memory :=
  ⟨m.words.modify (wordIndex address) (strobe.merge · data)⟩

@[simp] theorem capacity_zeroed (n : Nat) : (zeroed n).capacity = n := by
  simp [zeroed, capacity]

@[simp] theorem capacity_write (m : Memory) (a d : UInt32) (s : Strobe) :
    (m.write a d s).capacity = m.capacity := by
  simp [write, capacity]

@[simp] theorem read_zeroed (n : Nat) (a : UInt32) : (zeroed n).read a = 0 := by
  simp only [zeroed, read, Array.getElem?_replicate]
  split <;> rfl

theorem read_write (m : Memory) (a b d : UInt32) (s : Strobe) :
    (m.write a d s).read b =
      if wordIndex a = wordIndex b ∧ wordIndex a < m.capacity then s.merge (m.read b) d
      else m.read b := by
  simp only [write, read, capacity, Array.getElem?_modify]
  by_cases h : wordIndex a = wordIndex b
  · by_cases hb : wordIndex b < m.words.size <;> simp [h, hb]
  · simp [h]

def writeByte (m : Memory) (address : UInt32) (value : UInt8) : Memory :=
  let lane := address &&& 3
  m.write (address &&& ~~~3) (value.toUInt32 <<< (lane * 8)) (.ofBits (1 <<< lane.toUInt8))

def writeWords (m : Memory) (address : UInt32) : List UInt32 → Memory
  | [] => m
  | w :: ws => (m.write address w .all).writeWords (address + 4) ws

def storeBytes (m : Memory) (address : UInt32) : List UInt8 → Memory
  | [] => m
  | b :: bs => (m.writeByte address b).storeBytes (address + 1) bs

/-- Stores whole words from a word-aligned `address` on; a partial last word is filled with zeros. -/
def storeAligned (m : Memory) (address : UInt32) : List UInt8 → Memory
  | [] => m
  | [b0] => m.write address (Word.ofBytes b0 0 0 0) .all
  | [b0, b1] => m.write address (Word.ofBytes b0 b1 0 0) .all
  | [b0, b1, b2] => m.write address (Word.ofBytes b0 b1 b2 0) .all
  | b0 :: b1 :: b2 :: b3 :: bs =>
    (m.write address (Word.ofBytes b0 b1 b2 b3) .all).storeAligned (address + 4) bs

/-- An image of `size` bytes found only `available` bytes from its load address to the end. -/
structure Overflow where
  size : Nat
  available : Nat
  deriving DecidableEq

def available (m : Memory) (base : UInt32) : Nat :=
  m.sizeBytes - base.toNat

/-- Copies bytes into memory from `base` on, whole words at a time when `base` is word-aligned. -/
def load (m : Memory) (base : UInt32) (bytes : List UInt8) : Except Overflow Memory :=
  if m.available base < bytes.length then .error ⟨bytes.length, m.available base⟩
  else if base &&& 3 = 0 then .ok (m.storeAligned base bytes)
  else .ok (m.storeBytes base bytes)

end Memory

end RiscvSoc
