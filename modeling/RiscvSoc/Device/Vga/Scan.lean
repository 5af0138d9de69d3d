import RiscvSoc.Device.Vga.Timing

namespace RiscvSoc

/-- Column and line of the next pixel. They stay below the totals, which are words. -/
structure ScanPosition where
  x : Nat
  y : Nat
  deriving DecidableEq

namespace ScanPosition

def origin : ScanPosition := ⟨0, 0⟩

/-- The position one pixel clock later; a line of no clocks still takes one, and so does a frame of
no lines. -/
def next (t : VgaTiming) (p : ScanPosition) : ScanPosition :=
  if p.x + 1 < t.hTotal.toNat then ⟨p.x + 1, p.y⟩
  else if p.y + 1 < t.vTotal.toNat then ⟨0, p.y + 1⟩
  else origin

def active (t : VgaTiming) (p : ScanPosition) : Bool :=
  p.x < t.hActive.toNat && p.y < t.vActive.toNat

/-- Horizontal sync, low during the pulse. -/
def hsync (t : VgaTiming) (p : ScanPosition) : Bool :=
  !(t.hSyncStart.toNat ≤ p.x && p.x < t.hSyncEnd.toNat)

/-- Vertical sync, low during the pulse. -/
def vsync (t : VgaTiming) (p : ScanPosition) : Bool :=
  !(t.vSyncStart.toNat ≤ p.y && p.y < t.vSyncEnd.toNat)

def vblank (t : VgaTiming) (p : ScanPosition) : Bool :=
  t.vActive.toNat ≤ p.y

end ScanPosition

/-- What the controller drives in one pixel clock. -/
structure Pixel where
  x : Nat
  y : Nat
  active : Bool
  hsync : Bool
  vsync : Bool
  color : UInt8
  deriving DecidableEq

def Pixel.low : Pixel :=
  { x := 0, y := 0, active := false, hsync := false, vsync := false, color := 0 }

end RiscvSoc
