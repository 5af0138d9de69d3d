/-! Byte-lane write enables of one 32-bit word; lane 0 is the least significant byte. -/

namespace RiscvSoc

structure Strobe where
  lane0 : Bool
  lane1 : Bool
  lane2 : Bool
  lane3 : Bool
  deriving DecidableEq

namespace Strobe

def all : Strobe := ⟨true, true, true, true⟩

def none : Strobe := ⟨false, false, false, false⟩

/-- Lane `i` is bit `i`; higher bits are dropped. -/
def ofBits (bits : UInt8) : Strobe :=
  ⟨bits &&& 1 != 0, bits &&& 2 != 0, bits &&& 4 != 0, bits &&& 8 != 0⟩

def lanes (s : Strobe) : List Bool :=
  [s.lane0, s.lane1, s.lane2, s.lane3]

def bits (s : Strobe) : UInt8 :=
  (if s.lane0 then 1 else 0) ||| (if s.lane1 then 2 else 0) |||
  (if s.lane2 then 4 else 0) ||| (if s.lane3 then 8 else 0)

/-- The word with all bits of the enabled lanes set. -/
def mask (s : Strobe) : UInt32 :=
  (if s.lane0 then 0xFF else 0) ||| (if s.lane1 then 0xFF00 else 0) |||
  (if s.lane2 then 0xFF0000 else 0) ||| (if s.lane3 then 0xFF000000 else 0)

def any (s : Strobe) : Bool :=
  s.lane0 || s.lane1 || s.lane2 || s.lane3

/-- Takes the enabled lanes from `data` and the others from `old`. -/
def merge (s : Strobe) (old data : UInt32) : UInt32 :=
  (old &&& ~~~s.mask) ||| (data &&& s.mask)

@[simp] theorem ofBits_bits (s : Strobe) : ofBits s.bits = s := by
  obtain ⟨l0, l1, l2, l3⟩ := s
  cases l0 <;> cases l1 <;> cases l2 <;> cases l3 <;> rfl

@[simp] theorem mask_all : all.mask = 0xFFFFFFFF := by decide

@[simp] theorem mask_none : none.mask = 0 := by decide

@[simp] theorem merge_all (old data : UInt32) : all.merge old data = data := by
  have h : ~~~(0xFFFFFFFF : UInt32) = 0 := by decide
  rw [merge, mask_all, h, UInt32.and_zero, UInt32.zero_or]
  exact UInt32.and_neg_one

@[simp] theorem merge_none (old data : UInt32) : none.merge old data = old := by
  have h : ~~~(0 : UInt32) = -1 := by decide
  rw [merge, mask_none, h, UInt32.and_zero, UInt32.or_zero, UInt32.and_neg_one]

end Strobe

end RiscvSoc
