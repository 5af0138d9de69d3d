/-! Files by path, as a run sees them: whatever gives access to them, and the plain tree of named
files and directories in which everything is pure data. -/

namespace RiscvSoc

/-- Access to files by path. A refused access gives its cause. -/
class FileStore (m : Type → Type) where
  contains : String → m Bool
  read : String → m (Except String ByteArray)
  /-- Makes the file hold exactly these bytes, creating it if need be. -/
  write : String → ByteArray → m (Except String Unit)
  /-- Replaces the beginning of an existing file and keeps what lies beyond. -/
  overlay : String → ByteArray → m (Except String Unit)

inductive FileNode where
  | file (contents : ByteArray)
  | directory

structure FileTree where
  nodes : List (List String × FileNode)

namespace FileTree

def empty : FileTree := ⟨[]⟩

/-- Directories around the tree: its root, those above it, and the root of all absolute paths. -/
def isAmbient (place : List String) : Bool :=
  place == ["/"] || place.all (· == "..")

def node? (t : FileTree) (place : List String) : Option FileNode :=
  if isAmbient place then some .directory else t.nodes.lookup place

def isDirectory (t : FileTree) (place : List String) : Bool :=
  match t.node? place with
  | some .directory => true
  | _ => false

def put (t : FileTree) (place : List String) (node : FileNode) : FileTree :=
  ⟨(place, node) :: t.nodes.filter (·.1 != place)⟩

def parent (place : List String) : List String :=
  if place == ["/"] then place
  else if place.all (· == "..") then place ++ [".."]
  else place.dropLast

/-- Follows path components from a place; every place that is left must be a directory. -/
def follow (t : FileTree) : List String → List String → Option (List String)
  | place, [] => some place
  | place, c :: cs =>
    if !t.isDirectory place then none
    else if c = "" ∨ c = "." then follow t place cs
    else if c = ".." then follow t (parent place) cs
    else follow t (place ++ [c]) cs

/-- The place that a path names, which need not hold anything yet. -/
def place? (t : FileTree) (path : String) : Option (List String) :=
  if path.isEmpty || path.contains '\x00' then none
  else t.follow (if path.startsWith "/" then ["/"] else []) (path.splitOn "/")

def contains (t : FileTree) (path : String) : Bool :=
  ((t.place? path).bind t.node?).isSome

def read (t : FileTree) (path : String) : Except String ByteArray :=
  match (t.place? path).bind t.node? with
  | some (.file contents) => .ok contents
  | some .directory => .error "is a directory"
  | none => .error "no such file"

def writable? (t : FileTree) (path : String) : Option (List String) := do
  let place ← t.place? path
  guard (!t.isDirectory place)
  return place

def write (t : FileTree) (path : String) (contents : ByteArray) : Except String FileTree :=
  match t.writable? path with
  | some place => .ok (t.put place (.file contents))
  | none => .error "cannot be written"

/-- The bytes of `front`, and behind them those of `back` beyond the same length. -/
def overlaid (front back : ByteArray) : ByteArray :=
  front ++ back.extract front.size back.size

def overlay (t : FileTree) (path : String) (contents : ByteArray) : Except String FileTree :=
  match t.read path with
  | .ok old => t.write path (overlaid contents old)
  | .error cause => .error cause

def commit : Except String FileTree → StateM FileTree (Except String Unit)
  | .ok t => do
    set t
    return .ok ()
  | .error cause => return .error cause

instance : FileStore (StateM FileTree) where
  contains path := return (← get).contains path
  read path := return (← get).read path
  write path contents := do commit ((← get).write path contents)
  overlay path contents := do commit ((← get).overlay path contents)

end FileTree

end RiscvSoc
