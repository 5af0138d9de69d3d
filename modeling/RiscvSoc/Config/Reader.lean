import RiscvSoc.Config
import RiscvSoc.Json

/-! Settings as JSON text. A record is an object whose unknown members are ignored, or an array of
its fields in order; what is left out keeps its default, and a known field is given at most once. -/

namespace RiscvSoc

namespace Json

abbrev Given := String → Option Json

/-- An array gives the fields in order and may stop early. -/
def givenByPosition (names : List String) (items : List Json) : Option Given :=
  if items.length ≤ names.length then some fun name => (names.zip items).lookup name else none

def namedMembers (members : List (Option String × Json)) : Option (List (String × Json)) :=
  members.mapM fun (key, value) => key.map (·, value)

/-- An object gives each field by name, none of them twice. -/
def givenByName (names : List String) (members : List (Option String × Json)) : Option Given := do
  let named ← namedMembers members
  guard (names.all fun name => (named.filter (·.1 == name)).length ≤ 1)
  return fun name => named.lookup name

def given? (names : List String) : Json → Option Given
  | .array items => givenByPosition names items
  | .object members => givenByName names members
  | _ => none

/-- A field read by `read`, or its default when it is not given. -/
def field {α : Type} (given : Given) (name : String) (read : Json → Option α) (default : α) :
    Option α :=
  match given name with
  | some value => read value
  | none => some default

def natBelow? (bound : Nat) : Json → Option Nat
  | .natural n => if n < bound then some n else none
  | _ => none

def word32? (j : Json) : Option UInt32 :=
  (j.natBelow? UInt32.size).map Nat.toUInt32

def word64? (j : Json) : Option UInt64 :=
  (j.natBelow? UInt64.size).map Nat.toUInt64

def bool? : Json → Option Bool
  | .bool b => some b
  | _ => none

def text? : Json → Option String
  | .string text => text
  | _ => none

/-- `null` stands for the absent value. -/
def optional? {α : Type} (read : Json → Option α) : Json → Option (Option α)
  | .null => some none
  | j => (read j).map some

end Json

open Json (field)

def VgaTiming.fieldNames : List String :=
  ["h_active", "h_front_porch", "h_sync", "h_back_porch", "v_active", "v_front_porch", "v_sync",
    "v_back_porch"]

def VgaTiming.ofJson? (j : Json) : Option VgaTiming := do
  let g ← j.given? VgaTiming.fieldNames
  let d := VgaTiming.standard
  return {
    hActive := ← field g "h_active" Json.word32? d.hActive
    hFrontPorch := ← field g "h_front_porch" Json.word32? d.hFrontPorch
    hSync := ← field g "h_sync" Json.word32? d.hSync
    hBackPorch := ← field g "h_back_porch" Json.word32? d.hBackPorch
    vActive := ← field g "v_active" Json.word32? d.vActive
    vFrontPorch := ← field g "v_front_porch" Json.word32? d.vFrontPorch
    vSync := ← field g "v_sync" Json.word32? d.vSync
    vBackPorch := ← field g "v_back_porch" Json.word32? d.vBackPorch }

def GeneralConfig.fieldNames : List String :=
  ["cycle_budget", "clock_divider", "reset_steps", "entry_point", "load_address", "halt_address",
    "halt_value", "image_path", "trace_path"]

def GeneralConfig.ofJson? (j : Json) : Option GeneralConfig := do
  let g ← j.given? GeneralConfig.fieldNames
  let d := GeneralConfig.standard
  return {
    cycleBudget := ← field g "cycle_budget" Json.word64? d.cycleBudget
    clockDivider := ← field g "clock_divider" Json.word32? d.clockDivider
    resetSteps := ← field g "reset_steps" Json.word64? d.resetSteps
    entryPoint := ← field g "entry_point" Json.word32? d.entryPoint
    loadAddress := ← field g "load_address" Json.word32? d.loadAddress
    haltAddress := ← field g "halt_address" Json.word32? d.haltAddress
    haltValue := ← field g "halt_value" Json.word32? d.haltValue
    imagePath := ← field g "image_path" (Json.optional? Json.text?) d.imagePath
    tracePath := ← field g "trace_path" (Json.optional? Json.text?) d.tracePath }

def MemoryConfig.ofJson? (j : Json) : Option MemoryConfig := do
  let g ← j.given? ["words"]
  return { words := ← field g "words" Json.word64? MemoryConfig.standard.words }

def VgaConfig.fieldNames : List String :=
  ["enabled", "pixel_clock_divider", "timing", "quit_after_frames", "synchronizer_stages",
    "frame_dump"]

def VgaConfig.ofJson? (j : Json) : Option VgaConfig := do
  let g ← j.given? VgaConfig.fieldNames
  let d := VgaConfig.standard
  return {
    enabled := ← field g "enabled" Json.bool? d.enabled
    pixelClockDivider := ← field g "pixel_clock_divider" Json.word32? d.pixelClockDivider
    timing := ← field g "timing" VgaTiming.ofJson? d.timing
    quitAfterFrames := ← field g "quit_after_frames" (Json.optional? Json.word64?) d.quitAfterFrames
    synchronizerStages := ← field g "synchronizer_stages" Json.word64? d.synchronizerStages
    frameDump := ← field g "frame_dump" (Json.optional? Json.text?) d.frameDump }

def DeviceConfig.ofJson? (j : Json) : Option DeviceConfig := do
  let g ← j.given? ["uart_echo", "uart_stdin", "vga"]
  let d := DeviceConfig.standard
  return {
    uartEcho := ← field g "uart_echo" Json.bool? d.uartEcho
    uartStdin := ← field g "uart_stdin" Json.bool? d.uartStdin
    vga := ← field g "vga" VgaConfig.ofJson? d.vga }

def SignatureConfig.ofJson? (j : Json) : Option SignatureConfig := do
  let g ← j.given? ["output", "begin", "end", "elf"]
  let d := SignatureConfig.standard
  return {
    output := ← field g "output" (Json.optional? Json.text?) d.output
    start := ← field g "begin" (Json.optional? Json.word32?) d.start
    stop := ← field g "end" (Json.optional? Json.word32?) d.stop
    elf := ← field g "elf" (Json.optional? Json.text?) d.elf }

namespace Config

def ofJson? (j : Json) : Option Config := do
  let g ← j.given? ["general", "memory", "devices", "signature"]
  let d := Config.standard
  return {
    general := ← field g "general" GeneralConfig.ofJson? d.general
    memory := ← field g "memory" MemoryConfig.ofJson? d.memory
    devices := ← field g "devices" DeviceConfig.ofJson? d.devices
    signature := ← field g "signature" SignatureConfig.ofJson? d.signature }

def ofText (text : String) : Except Error Config :=
  match (Json.parse? text).bind ofJson? with
  | some config => .ok config
  | none => .error (.config (.malformed "the text is no JSON configuration"))

end Config

end RiscvSoc
