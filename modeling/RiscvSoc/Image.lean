import RiscvSoc.Error
import RiscvSoc.Image.Elf

/-! A program image: segments of bytes with their addresses, taken from an executable file or, for
any other file, from its whole contents. -/

namespace RiscvSoc

structure Segment where
  address : UInt32
  bytes : List UInt8
  deriving DecidableEq

/-- `entry` is the entry point that an executable states; `file` is the file as it was read. -/
structure Image where
  segments : List Segment
  entry : Option UInt32
  file : Elf.Bytes
  deriving DecidableEq

namespace Image

def isElf (i : Image) : Bool :=
  Elf.hasMagic i.file

def sizeBytes (i : Image) : Nat :=
  i.segments.foldl (fun total s => total + s.bytes.length) 0

/-- A plain binary is one segment at its load address. -/
def flat (file : Elf.Bytes) (loadAddress : UInt32) : Image :=
  { segments := [{ address := loadAddress, bytes := file.toList }], entry := none, file }

/-- The loadable segments of an executable, at their addresses without the device-select bits. -/
def ofElf? (file : Elf.Bytes) : Option Image := do
  let f ← Elf.parse? file
  let segments ← f.segments? file
  return {
    segments := segments.map fun s =>
      { address := s.1.toUInt32 &&& deviceMask, bytes := s.2 }
    entry := some f.header.entry.toUInt32
    file }

def ofFile (path : String) (file : Elf.Bytes) (loadAddress : UInt32) : Except Error Image :=
  if Elf.hasMagic file then
    match ofElf? file with
    | some image => .ok image
    | none => .error (.elf path "malformed file")
  else .ok (flat file loadAddress)

/-- Loads segments one after another until one does not fit; those before it stay loaded. -/
def loadAll (m : Memory) : List Segment → Memory × Option Memory.Overflow
  | [] => (m, none)
  | s :: ss =>
    match m.load s.address s.bytes with
    | .ok m => loadAll m ss
    | .error overflow => (m, some overflow)

def install (i : Image) (m : Memory) : Memory × Option Memory.Overflow :=
  loadAll m i.segments

end Image

end RiscvSoc
