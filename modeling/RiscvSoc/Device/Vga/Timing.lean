/-! Scan timing of a display, in pixel clocks and lines. Like its parts, the sums are words. -/

namespace RiscvSoc

structure VgaTiming where
  hActive : UInt32
  hFrontPorch : UInt32
  hSync : UInt32
  hBackPorch : UInt32
  vActive : UInt32
  vFrontPorch : UInt32
  vSync : UInt32
  vBackPorch : UInt32
  deriving DecidableEq

def pictureWidth : Nat := 320

def pictureHeight : Nat := 200

namespace VgaTiming

/-- 640 by 480 at 60 frames per second. -/
def standard : VgaTiming :=
  { hActive := 640, hFrontPorch := 16, hSync := 96, hBackPorch := 48
    vActive := 480, vFrontPorch := 10, vSync := 2, vBackPorch := 33 }

def hSyncStart (t : VgaTiming) : UInt32 :=
  t.hActive + t.hFrontPorch

def vSyncStart (t : VgaTiming) : UInt32 :=
  t.vActive + t.vFrontPorch

def hSyncEnd (t : VgaTiming) : UInt32 :=
  t.hSyncStart + t.hSync

def vSyncEnd (t : VgaTiming) : UInt32 :=
  t.vSyncStart + t.vSync

/-- Pixel clocks per line. -/
def hTotal (t : VgaTiming) : UInt32 :=
  t.hSyncEnd + t.hBackPorch

/-- Lines per frame. -/
def vTotal (t : VgaTiming) : UInt32 :=
  t.vSyncEnd + t.vBackPorch

/-- How many visible pixels one stored pixel covers in each direction, at least one. -/
def scale (t : VgaTiming) : Nat :=
  max 1 (min (t.hActive.toNat / pictureWidth) (t.vActive.toNat / pictureHeight))

end VgaTiming

end RiscvSoc
