import RiscvSoc.Device.Vga.Color
import RiscvSoc.Device.Vga.Scan

/-! A display that keeps the scanned frame in memory and can give it as a binary portable pixmap. -/

namespace RiscvSoc

/-- `frame` holds opaque colours, row by row; `frames` counts the presented ones. -/
structure Display where
  width : Nat
  height : Nat
  frame : Array UInt32
  frames : Nat
  quitAfter : Option Nat
  deriving DecidableEq

namespace Display

def blank (width height : Nat) (quitAfter : Option Nat) : Display :=
  { width, height, frame := Array.replicate (width * height) argbBlack, frames := 0, quitAfter }

def pixel? (d : Display) (x y : Nat) : Option UInt32 :=
  if x < d.width ∧ y < d.height then d.frame[y * d.width + x]? else none

/-- Whether a scanned pixel lands in the frame. -/
def shows (d : Display) (p : Pixel) : Bool :=
  p.active && p.x < d.width && p.y < d.height

def update (d : Display) (p : Pixel) : Display :=
  if d.shows p then
    { d with frame := d.frame.setIfInBounds (p.y * d.width + p.x) (argbOfColor p.color) }
  else d

/-- Completes the current frame. -/
def present (d : Display) : Display :=
  { d with frames := d.frames + 1 }

def quitRequested (d : Display) : Bool :=
  match d.quitAfter with
  | some n => n ≤ d.frames
  | none => false

def rgbBytes (argb : UInt32) : List UInt8 :=
  [(argb >>> 16).toUInt8, (argb >>> 8).toUInt8, argb.toUInt8]

def ppmHeader (d : Display) : String :=
  "P6\n" ++ toString d.width ++ " " ++ toString d.height ++ "\n255\n"

def ppm (d : Display) : List UInt8 :=
  d.ppmHeader.toUTF8.toList ++ d.frame.toList.flatMap rgbBytes

end Display

end RiscvSoc
