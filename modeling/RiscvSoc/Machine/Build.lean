import RiscvSoc.FileStore
import RiscvSoc.Image.Symbols
import RiscvSoc.Machine.Run
import RiscvSoc.Signature

namespace RiscvSoc

variable {m : Type → Type} [Monad m] [FileStore m]

def readImageFile (path : String) : ExceptT Error m ByteArray := do
  if !(← (FileStore.contains path : m Bool)) then throw (.missingImage path)
  match ← (FileStore.read path : m (Except String ByteArray)) with
  | .ok contents => return contents
  | .error cause => throw (.file path cause)

def writeFile (path : String) (contents : ByteArray) : ExceptT Error m PUnit := do
  match ← (FileStore.write path contents : m (Except String Unit)) with
  | .ok _ => return
  | .error cause => throw (.file path cause)

def loadImage (path : String) (loadAddress : UInt32) : ExceptT Error m Image := do
  let contents ← readImageFile path
  match Image.ofFile path contents.data loadAddress with
  | .ok image => return image
  | .error e => throw e

def openTrace (path : Option String) : ExceptT Error m (Option Waveform.Tracer) := do
  match path with
  | none => return none
  | some path =>
    writeFile path .empty
    return Waveform.Tracer.start? path (.empty none) portSignals

namespace Machine

def standardDevices (c : Config) : List Device :=
  let vga := c.devices.vga
  (if vga.enabled then [.vga (.initial vga.timing vga.synchronizerStages.toNat)] else []) ++
    [.uart .initial, .timer .initial]

def standardBus (c : Config) (memory : Memory) : Bus :=
  (standardDevices c).foldl Bus.attach (.ofMemory memory)

def around (core : Core) (bus : Bus) (c : Config) : ExceptT Error m Machine := do
  let tracer ← openTrace c.general.tracePath
  return ofParts core bus c tracer none

def installed (image : Image) (memory : Memory) : Except Error Memory :=
  match image.install memory with
  | (memory, none) => .ok memory
  | (_, some overflow) => .error (.imageTooLarge overflow)

/-- The machine that a configuration describes. -/
def build (c : Config) : ExceptT Error m Machine := do
  c.validate
  let memory := Memory.zeroed c.memory.words.toNat
  match c.general.imagePath with
  | none => around (.powerOn c.general.entryPoint) (standardBus c memory) c
  | some path =>
    let image ← loadImage path c.general.loadAddress
    let memory ← installed image memory
    let core := Core.powerOn (image.entry.getD c.general.entryPoint)
    let machine ← around core (standardBus c memory) c
    return { machine with image := some image }

/-- Puts what the trace has handed over at the beginning of its file. -/
def saveTrace (path : String) (sink : Waveform.Sink) : m PUnit := do
  let _ ← FileStore.overlay path sink.contents.toUTF8

/-- A complete run; the trace file is written when the trace is finished. -/
def runAndSave (machine : Machine) : m (Machine × Except Error Report) := do
  let open_ := machine.tracer.any (·.isActive)
  let (machine, result) := machine.run
  match machine.tracer with
  | some t => if open_ then saveTrace t.path t.release
  | none => pure ()
  return (machine, result)

/-- Gives the machine up; a trace that was never finished is written now. -/
def discard (machine : Machine) : m PUnit := do
  match machine.tracer with
  | some t => if t.isActive then saveTrace t.path t.release
  | none => pure ()

/-- The region of the signature: explicit bounds, else the symbols of the configured file, else those
of the loaded image. -/
def signatureRange (machine : Machine) (c : Config) : ExceptT Error m SignatureRange := do
  match c.signature.start, c.signature.stop with
  | some start, some stop => return .resolve start stop
  | _, _ =>
    let (start, stop) ← match c.signature.elf, machine.image with
      | some path, _ => do
        let contents ← readImageFile path
        pure (lookupSignature contents.data)
      | none, some image => pure (lookupSignature image.file)
      | none, none => pure (0, 0)
    return .resolve start stop

def writeArtifacts (machine : Machine) (c : Config) : ExceptT Error m PUnit := do
  match c.signature.output with
  | some path => do
    let range ← machine.signatureRange c
    writeFile path (signatureText machine.soc.bus.memory range).toUTF8
  | none => pure ()
  match c.devices.vga.frameDump, machine.display with
  | some path, some display => writeFile path ⟨display.ppm.toArray⟩
  | _, _ => pure ()

end Machine

end RiscvSoc
