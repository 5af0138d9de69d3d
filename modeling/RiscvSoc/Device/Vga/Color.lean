namespace RiscvSoc

def argbBlack : UInt32 := 0xFF000000

/-- Two bits spread over the range of eight. -/
def expandChannel (value : UInt8) : UInt8 :=
  (value &&& 3) * 85

/-- The opaque 32-bit colour of a six-bit one: alpha, red, green, blue from the top byte down. -/
def argbOfColor (color : UInt8) : UInt32 :=
  argbBlack ||| ((expandChannel (color >>> 4)).toUInt32 <<< 16) |||
    ((expandChannel (color >>> 2)).toUInt32 <<< 8) ||| (expandChannel color).toUInt32

end RiscvSoc
