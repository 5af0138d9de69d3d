import RiscvSoc.Clock.Synchronizer
import RiscvSoc.Device.Vga.Scan
import RiscvSoc.Word

/-! The display controller. Software fills a picture of palette indices, four to a word, and the
palette; the pixel clock scans them out. The vertical-blank flag is made in the pixel domain and
reaches the status register through a synchronizer clocked with the core. Registers: `0x0` status,
`0x4` control, `0x10` upload address, `0x14` stream data, `0x400` to `0x7FC` palette. -/

namespace RiscvSoc

def pictureWords : Nat := 16000

structure Vga where
  timing : VgaTiming
  control : UInt32
  upload : UInt32
  picture : Array UInt32
  palette : Vector UInt8 256
  position : ScanPosition
  vblankRaw : Bool
  vblank : Synchronizer Bool

namespace Vga

def initial (timing : VgaTiming) (stages : Nat) : Vga :=
  { timing
    control := 0
    upload := 0
    picture := Array.replicate pictureWords 0
    palette := Vector.replicate 256 0
    position := .origin
    vblankRaw := false
    vblank := .ofDepth stages false }

def enabled (g : Vga) : Bool :=
  g.control &&& 1 != 0

def vblankSynchronized (g : Vga) : Bool :=
  g.vblank.output

def pixelIndex? (g : Vga) (x y : Nat) : Option UInt8 :=
  if x < pictureWidth ∧ y < pictureHeight then
    let linear := y * pictureWidth + x
    g.picture[linear / 4]?.map fun w => Word.byte w (linear % 4).toUInt32
  else none

def paletteColor (g : Vga) (index : UInt8) : UInt8 :=
  g.palette.get ⟨index.toNat, UInt8.toNat_lt index⟩

def colorAt (g : Vga) (x y : Nat) : UInt8 :=
  if g.enabled then
    match g.pixelIndex? (x / g.timing.scale) (y / g.timing.scale) with
    | some index => g.paletteColor index
    | none => 0
  else 0

def pixel (g : Vga) : Pixel :=
  let p := g.position
  let active := p.active g.timing
  { x := p.x
    y := p.y
    active
    hsync := p.hsync g.timing
    vsync := p.vsync g.timing
    color := if active then g.colorAt p.x p.y else 0 }

/-- One pixel clock: the raw blanking flag follows the pixel just scanned, and the position moves
on. -/
def scan (g : Vga) : Vga :=
  { g with vblankRaw := g.position.vblank g.timing, position := g.position.next g.timing }

/-- Stores four pixels at the upload address, which then advances, even past the picture's end. -/
def stream (g : Vga) (value : UInt32) : Vga :=
  { g with
    picture := g.picture.setIfInBounds g.upload.toNat value
    upload := g.upload + 1 }

def paletteIndex? (offset : UInt32) : Option (Fin 256) :=
  if offset < 0x400 then none
  else
    let index := (offset.toNat - 0x400) / 4
    if h : index < 256 then some ⟨index, h⟩ else none

def read (g : Vga) (offset : UInt32) : UInt32 :=
  if offset = 0x0 then Word.ofBool g.vblankSynchronized
  else if offset = 0x4 then g.control
  else if offset = 0x10 then g.upload
  else
    match paletteIndex? offset with
    | some i => g.palette[i].toUInt32
    | none => 0

/-- A palette entry keeps six bits. -/
def setPalette (g : Vga) (i : Fin 256) (value : UInt32) : Vga :=
  { g with palette := g.palette.set i.val (value &&& 0x3F).toUInt8 i.isLt }

def write (g : Vga) (offset value : UInt32) : Vga :=
  if offset = 0x4 then { g with control := value }
  else if offset = 0x10 then { g with upload := value }
  else if offset = 0x14 then g.stream value
  else
    match paletteIndex? offset with
    | some i => g.setPalette i value
    | none => g

def tick (g : Vga) : Vga :=
  { g with vblank := g.vblank.clock g.vblankRaw }

end Vga

end RiscvSoc
