import RiscvSoc.Text.Hex

/-! The address map: the top three bits of an address select a device, the rest is what memory
sees, and the low twelve bits are the register offset inside a device's window. -/

namespace RiscvSoc

def deviceShift : UInt32 := 29

def deviceMask : UInt32 := 0x1FFFFFFF

def offsetMask : UInt32 := 0xFFF

/-- Tag naming the owner of an access; only its low three bits take part in routing. -/
structure DeviceSelect where
  code : UInt8
  deriving DecidableEq

namespace DeviceSelect

def memory : DeviceSelect := ⟨0⟩
def vga : DeviceSelect := ⟨1⟩
def uart : DeviceSelect := ⟨2⟩
def timer : DeviceSelect := ⟨3⟩

def ofAddress (address : UInt32) : DeviceSelect :=
  ⟨(address >>> deviceShift).toUInt8⟩

/-- The tag cut to the width of the select field. -/
def index (s : DeviceSelect) : UInt8 :=
  s.code &&& 7

abbrev count : Nat := 8

theorem index_lt (s : DeviceSelect) : s.index.toNat < count := by
  have hseven : (7 : UInt8).toNat = 2 ^ 3 - 1 := rfl
  rw [index, UInt8.toNat_and, hseven, Nat.and_two_pow_sub_one_eq_mod]
  exact Nat.mod_lt _ (by decide)

def slot (s : DeviceSelect) : Fin count :=
  ⟨s.index.toNat, s.index_lt⟩

def isMemory (s : DeviceSelect) : Bool :=
  s.index == 0

def text (s : DeviceSelect) : String :=
  "sel" ++ toString s.code.toNat

end DeviceSelect

/-- An address whose select field has been set by a device-select tag. -/
structure EffectiveAddress where
  val : UInt32
  deriving DecidableEq

namespace EffectiveAddress

/-- Puts a tag in front of the low bits of an address. -/
def combine (select : DeviceSelect) (address : UInt32) : EffectiveAddress :=
  ⟨(select.index.toUInt32 <<< deviceShift) ||| (address &&& deviceMask)⟩

def select (a : EffectiveAddress) : DeviceSelect :=
  .ofAddress a.val

def offset (a : EffectiveAddress) : UInt32 :=
  a.val &&& offsetMask

def wordOffset (a : EffectiveAddress) : UInt32 :=
  a.offset &&& ~~~3

/-- The address as memory sees it, without the select field. -/
def raw (a : EffectiveAddress) : UInt32 :=
  a.val &&& deviceMask

def text (a : EffectiveAddress) : String :=
  "0x" ++ Hex.word a.val

end EffectiveAddress

end RiscvSoc
