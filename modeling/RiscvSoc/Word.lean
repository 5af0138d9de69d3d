namespace RiscvSoc.Word

/-- The word whose bytes, least significant first, are `b0` to `b3`. -/
def ofBytes (b0 b1 b2 b3 : UInt8) : UInt32 :=
  b0.toUInt32 ||| (b1.toUInt32 <<< 8) ||| (b2.toUInt32 <<< 16) ||| (b3.toUInt32 <<< 24)

/-- Byte `lane` of a word, counted from the least significant; lanes are taken modulo four. -/
def byte (word lane : UInt32) : UInt8 :=
  (word >>> ((lane &&& 3) * 8)).toUInt8

def signExtend8 (b : UInt8) : UInt32 :=
  b.toInt8.toInt32.toUInt32

def signExtend16 (h : UInt16) : UInt32 :=
  h.toInt16.toInt32.toUInt32

def ofBool (b : Bool) : UInt32 :=
  if b then 1 else 0

end RiscvSoc.Word
