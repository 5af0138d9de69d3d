/-! The parts of the executable and linkable format that loading a program needs: header, program
headers, section headers and the symbol table, for both word sizes and both byte orders. Each table
is bounded by the file before any entry of it is read. -/

namespace RiscvSoc.Elf

structure Shape where
  wide : Bool
  bigEndian : Bool
  deriving DecidableEq

abbrev Bytes := Array UInt8

def magic : List UInt8 := [0x7F, 0x45, 0x4C, 0x46]

def hasMagic (b : Bytes) : Bool :=
  (b.extract 0 4).toList == magic

/-- The number stored in `size` bytes at `offset`; bytes past the end count as zero. -/
def number (b : Bytes) (bigEndian : Bool) (offset size : Nat) : Nat :=
  let bytes := (List.range size).map fun i => (b.getD (offset + i) 0).toNat
  (if bigEndian then bytes else bytes.reverse).foldl (fun acc x => acc * 256 + x) 0

def inFile (b : Bytes) (offset size : Nat) : Bool :=
  offset + size ≤ b.size

namespace Shape

/-- Size of an address or file offset. -/
def wordBytes (s : Shape) : Nat :=
  if s.wide then 8 else 4

def headerBytes (s : Shape) : Nat :=
  if s.wide then 64 else 52

def programHeaderBytes (s : Shape) : Nat :=
  if s.wide then 56 else 32

def sectionHeaderBytes (s : Shape) : Nat :=
  if s.wide then 64 else 40

def symbolBytes (s : Shape) : Nat :=
  if s.wide then 24 else 16

def half (s : Shape) (b : Bytes) (offset : Nat) : Nat :=
  number b s.bigEndian offset 2

def word (s : Shape) (b : Bytes) (offset : Nat) : Nat :=
  number b s.bigEndian offset 4

def address (s : Shape) (b : Bytes) (offset : Nat) : Nat :=
  number b s.bigEndian offset s.wordBytes

/-- A table of `count` entries lies in the file and starts at a multiple of the word size. -/
def tableFits (s : Shape) (b : Bytes) (offset count entryBytes : Nat) : Bool :=
  offset % s.wordBytes == 0 && inFile b offset (count * entryBytes)

end Shape

/-- The shape that the identification bytes give, for a file that holds a whole header. -/
def shape? (b : Bytes) : Option Shape := do
  let shape : Shape := { wide := b.getD 4 0 == 2, bigEndian := b.getD 5 0 == 2 }
  guard (hasMagic b)
  guard (b.getD 4 0 == 1 || b.getD 4 0 == 2)
  guard (b.getD 5 0 == 1 || b.getD 5 0 == 2)
  guard (b.getD 6 0 == 1)
  guard (inFile b 0 shape.headerBytes)
  return shape

structure Header where
  shape : Shape
  entry : Nat
  programOffset : Nat
  sectionOffset : Nat
  programEntryBytes : Nat
  programCount : Nat
  sectionEntryBytes : Nat
  sectionCount : Nat
  namesIndex : Nat

def header? (b : Bytes) : Option Header := do
  let s ← shape? b
  let tail := if s.wide then 54 else 42
  return {
    shape := s
    entry := s.address b 24
    programOffset := s.address b (24 + s.wordBytes)
    sectionOffset := s.address b (24 + 2 * s.wordBytes)
    programEntryBytes := s.half b tail
    programCount := s.half b (tail + 2)
    sectionEntryBytes := s.half b (tail + 4)
    sectionCount := s.half b (tail + 6)
    namesIndex := s.half b (tail + 8) }

structure Section where
  kind : Nat
  offset : Nat
  size : Nat
  link : Nat
  info : Nat

namespace Section

def symbolTable : Nat := 2
def stringTable : Nat := 3
def explicitAddends : Nat := 4
def noBits : Nat := 8
def implicitAddends : Nat := 9
def dynamicSymbols : Nat := 11
def extendedIndices : Nat := 18

def read (s : Shape) (b : Bytes) (at_ : Nat) : Section :=
  let w := s.wordBytes
  { kind := s.word b (at_ + 4)
    offset := s.address b (at_ + 8 + 2 * w)
    size := s.address b (at_ + 8 + 3 * w)
    link := s.word b (at_ + 8 + 4 * w)
    info := s.word b (at_ + 12 + 4 * w) }

def isRelocation (t : Section) : Bool :=
  t.kind == implicitAddends || t.kind == explicitAddends

def end? (t : Section) : Option Nat :=
  if t.offset + t.size < UInt64.size then some (t.offset + t.size) else none

/-- The section is an array of entries inside the file, aligned to `alignment`. -/
def holdsArray (t : Section) (b : Bytes) (entryBytes alignment : Nat) : Bool :=
  inFile b t.offset t.size && t.size % entryBytes == 0 && t.offset % alignment == 0

end Section

namespace Header

/-- Section 0, which holds counts that do not fit the header; it is absent without a section table
and an error when the header states another entry size. -/
def section0 (h : Header) (b : Bytes) : Option (Option Section) := do
  if h.sectionOffset = 0 then return none
  guard (h.sectionEntryBytes == h.shape.sectionHeaderBytes)
  guard (h.shape.tableFits b h.sectionOffset 1 h.shape.sectionHeaderBytes)
  return some (.read h.shape b h.sectionOffset)

/-- The number of program headers; the largest count stands for one kept in section 0. -/
def programHeaders (h : Header) (b : Bytes) : Option Nat := do
  if h.programCount < 0xFFFF then return h.programCount
  let t ← (← h.section0 b)
  return t.info

def programOffsets (h : Header) (b : Bytes) : Option (List Nat) := do
  if h.programOffset = 0 then return []
  let count ← h.programHeaders b
  if count = 0 then return []
  guard (h.programEntryBytes == h.shape.programHeaderBytes)
  guard (h.shape.tableFits b h.programOffset count h.shape.programHeaderBytes)
  return (List.range count).map fun i => h.programOffset + i * h.shape.programHeaderBytes

/-- The number of sections; zero stands for a count kept in section 0. -/
def sections (h : Header) (b : Bytes) : Option Nat := do
  if h.sectionCount ≠ 0 then return h.sectionCount
  match ← h.section0 b with
  | some t => return t.size
  | none => return 0

def sectionTable (h : Header) (b : Bytes) : Option (List Section) := do
  if h.sectionOffset = 0 then return []
  let count ← h.sections b
  if count = 0 then return []
  guard (h.sectionEntryBytes == h.shape.sectionHeaderBytes)
  guard (h.shape.tableFits b h.sectionOffset count h.shape.sectionHeaderBytes)
  return (List.range count).map fun i =>
    .read h.shape b (h.sectionOffset + i * h.shape.sectionHeaderBytes)

/-- Index of the section that holds the section names; the largest stands for one kept in
section 0. -/
def sectionNames (h : Header) (b : Bytes) : Option Nat := do
  if h.namesIndex ≠ 0xFFFF then return h.namesIndex
  let t ← (← h.section0 b)
  return t.link

end Header

structure SymbolTable where
  index : Nat
  offset : Nat
  count : Nat
  names : Option (Nat × Nat)

namespace SymbolTable

/-- The names that a table links to: none for link zero, else a string table. -/
def names? (ts : List Section) (link : Nat) : Option (Option (Nat × Nat)) := do
  if link = 0 then return none
  let t ← ts[link]?
  guard (t.kind == Section.stringTable)
  return some (t.offset, ← t.end?)

/-- Every extension of a symbol table is an array of words in the file. -/
def extensionsFit (b : Bytes) (ts : List Section) (index : Nat) : Bool :=
  ts.all fun t => t.kind != Section.extendedIndices || t.link != index || t.holdsArray b 4 4

/-- The first symbol table of a kind. A file without one has an empty table. -/
def find (s : Shape) (b : Bytes) (ts : List Section) (kind : Nat) : Option SymbolTable := do
  match ts.zipIdx.find? (·.1.kind == kind) with
  | none => return { index := 0, offset := 0, count := 0, names := none }
  | some (t, index) =>
    guard (t.holdsArray b s.symbolBytes s.wordBytes)
    let names ← names? ts t.link
    guard (extensionsFit b ts index)
    return { index, offset := t.offset, count := t.size / s.symbolBytes, names }

end SymbolTable

/-- A relocation section of the symbol table with index `symbols` applies to an existing section
that holds no relocations itself; a zero target stands for relocations of the whole file. -/
def relocationFits (ts : List Section) (symbols : Nat) (t : Section) : Bool :=
  !t.isRelocation || t.link != symbols || t.info == 0 ||
    match ts[t.info]? with
    | some target => !target.isRelocation
    | none => false

/-- A file whose tables have been checked. -/
structure File where
  header : Header
  programOffsets : List Nat
  symbols : SymbolTable

/-- Checks the header and all tables that are looked at. -/
def parse? (b : Bytes) : Option File := do
  let h ← header? b
  let programOffsets ← h.programOffsets b
  let ts ← h.sectionTable b
  if !ts.isEmpty then
    let namesIndex ← h.sectionNames b
    guard (namesIndex != 0)
    let names ← ts[namesIndex]?
    guard (names.kind == Section.noBits || names.end?.isSome)
  let symbols ← SymbolTable.find h.shape b ts Section.symbolTable
  let _ ← SymbolTable.find h.shape b ts Section.dynamicSymbols
  guard (ts.all (relocationFits ts symbols.index))
  return { header := h, programOffsets, symbols }

def loadable : Nat := 1

/-- Address and data of the loadable program header at an offset, if it is one. Data outside the
file is an error. -/
def segment? (s : Shape) (b : Bytes) (at_ : Nat) : Option (Option (Nat × List UInt8)) := do
  if s.word b at_ ≠ loadable then return none
  let fields := if s.wide then at_ + 8 else at_ + 4
  let offset := s.address b fields
  let size := s.address b (fields + 3 * s.wordBytes)
  guard (inFile b offset size)
  return some (s.address b (fields + s.wordBytes), (b.extract offset (offset + size)).toList)

def File.segments? (f : File) (b : Bytes) : Option (List (Nat × List UInt8)) := do
  let all ← f.programOffsets.mapM (segment? f.header.shape b)
  return (all.filterMap id).filter (!·.2.isEmpty)

/-- The bytes of the name at an offset into the string table: those before the first zero byte,
which must lie inside the table. -/
def nameAt? (b : Bytes) (names : Nat × Nat) (offset : Nat) : Option (List UInt8) := do
  let (start, stop) := names
  guard (start + offset ≤ stop && stop ≤ b.size)
  let rest := (b.extract (start + offset) stop).toList
  guard (rest.contains 0)
  return rest.takeWhile (· != 0)

/-- The value of the first symbol with a given name; the null symbol at index 0 has none. -/
def File.symbolValue? (f : File) (b : Bytes) (name : String) : Option Nat := do
  let s := f.header.shape
  let names ← f.symbols.names
  let offsets := (List.range f.symbols.count).map fun i => f.symbols.offset + i * s.symbolBytes
  let found ← (offsets.drop 1).find? fun o =>
    nameAt? b names (s.word b o) == some name.toUTF8.toList
  return s.address b (if s.wide then found + 8 else found + 4)

end RiscvSoc.Elf
