import Mathlib.Data.List.Nodup
import RiscvSoc.Config.Reader

/-! Configurations as trees of named settings, apart from their reader. A selection of the settings
says what an object gives of a configuration; all that it leaves out is standard. -/

namespace RiscvSoc

inductive Setting where
  | cycleBudget
  | clockDivider
  | resetSteps
  | entryPoint
  | loadAddress
  | haltAddress
  | haltValue
  | imagePath
  | tracePath
  | words
  | uartEcho
  | uartStdin
  | enabled
  | pixelClockDivider
  | hActive
  | hFrontPorch
  | hSync
  | hBackPorch
  | vActive
  | vFrontPorch
  | vSync
  | vBackPorch
  | quitAfterFrames
  | synchronizerStages
  | frameDump
  | output
  | start
  | stop
  | elf
  deriving DecidableEq

abbrev Selection := Setting → Bool

namespace Selection

def all : Selection := fun _ => true

/-- The first value for a selected setting, the second for any other. -/
def pick {α : Type} (S : Selection) (s : Setting) (given default : α) : α :=
  if S s then given else default

end Selection

section

variable (S : Selection)

/-- The timing `t`, but with the settings outside of the selection from `d`; the other records
likewise. -/
def VgaTiming.overriding (t d : VgaTiming) : VgaTiming :=
  { hActive := S.pick .hActive t.hActive d.hActive
    hFrontPorch := S.pick .hFrontPorch t.hFrontPorch d.hFrontPorch
    hSync := S.pick .hSync t.hSync d.hSync
    hBackPorch := S.pick .hBackPorch t.hBackPorch d.hBackPorch
    vActive := S.pick .vActive t.vActive d.vActive
    vFrontPorch := S.pick .vFrontPorch t.vFrontPorch d.vFrontPorch
    vSync := S.pick .vSync t.vSync d.vSync
    vBackPorch := S.pick .vBackPorch t.vBackPorch d.vBackPorch }

def GeneralConfig.overriding (g d : GeneralConfig) : GeneralConfig :=
  { cycleBudget := S.pick .cycleBudget g.cycleBudget d.cycleBudget
    clockDivider := S.pick .clockDivider g.clockDivider d.clockDivider
    resetSteps := S.pick .resetSteps g.resetSteps d.resetSteps
    entryPoint := S.pick .entryPoint g.entryPoint d.entryPoint
    loadAddress := S.pick .loadAddress g.loadAddress d.loadAddress
    haltAddress := S.pick .haltAddress g.haltAddress d.haltAddress
    haltValue := S.pick .haltValue g.haltValue d.haltValue
    imagePath := S.pick .imagePath g.imagePath d.imagePath
    tracePath := S.pick .tracePath g.tracePath d.tracePath }

def MemoryConfig.overriding (m d : MemoryConfig) : MemoryConfig :=
  { words := S.pick .words m.words d.words }

def VgaConfig.overriding (v d : VgaConfig) : VgaConfig :=
  { enabled := S.pick .enabled v.enabled d.enabled
    pixelClockDivider := S.pick .pixelClockDivider v.pixelClockDivider d.pixelClockDivider
    timing := v.timing.overriding S d.timing
    quitAfterFrames := S.pick .quitAfterFrames v.quitAfterFrames d.quitAfterFrames
    synchronizerStages := S.pick .synchronizerStages v.synchronizerStages d.synchronizerStages
    frameDump := S.pick .frameDump v.frameDump d.frameDump }

def DeviceConfig.overriding (v d : DeviceConfig) : DeviceConfig :=
  { uartEcho := S.pick .uartEcho v.uartEcho d.uartEcho
    uartStdin := S.pick .uartStdin v.uartStdin d.uartStdin
    vga := v.vga.overriding S d.vga }

def SignatureConfig.overriding (g d : SignatureConfig) : SignatureConfig :=
  { output := S.pick .output g.output d.output
    start := S.pick .start g.start d.start
    stop := S.pick .stop g.stop d.stop
    elf := S.pick .elf g.elf d.elf }

def Config.overriding (c d : Config) : Config :=
  { general := c.general.overriding S d.general
    memory := c.memory.overriding S d.memory
    devices := c.devices.overriding S d.devices
    signature := c.signature.overriding S d.signature }

theorem Config.overriding_all (c d : Config) : c.overriding .all d = c := rfl

end

namespace Json

def word32 (w : UInt32) : Json := .natural w.toNat

def word64 (w : UInt64) : Json := .natural w.toNat

def text (t : String) : Json := .string (some t)

def optional {α : Type} (write : α → Json) : Option α → Json
  | none => .null
  | some a => write a

end Json

/-- A setting with its value, or a record of named parts. -/
inductive Layout where
  | setting (s : Setting) (value : Json)
  | record (fields : List (String × Layout))

def VgaTiming.layout (t : VgaTiming) : Layout :=
  .record
    [("h_active", .setting .hActive (.word32 t.hActive)),
      ("h_front_porch", .setting .hFrontPorch (.word32 t.hFrontPorch)),
      ("h_sync", .setting .hSync (.word32 t.hSync)),
      ("h_back_porch", .setting .hBackPorch (.word32 t.hBackPorch)),
      ("v_active", .setting .vActive (.word32 t.vActive)),
      ("v_front_porch", .setting .vFrontPorch (.word32 t.vFrontPorch)),
      ("v_sync", .setting .vSync (.word32 t.vSync)),
      ("v_back_porch", .setting .vBackPorch (.word32 t.vBackPorch))]

def GeneralConfig.layout (g : GeneralConfig) : Layout :=
  .record
    [("cycle_budget", .setting .cycleBudget (.word64 g.cycleBudget)),
      ("clock_divider", .setting .clockDivider (.word32 g.clockDivider)),
      ("reset_steps", .setting .resetSteps (.word64 g.resetSteps)),
      ("entry_point", .setting .entryPoint (.word32 g.entryPoint)),
      ("load_address", .setting .loadAddress (.word32 g.loadAddress)),
      ("halt_address", .setting .haltAddress (.word32 g.haltAddress)),
      ("halt_value", .setting .haltValue (.word32 g.haltValue)),
      ("image_path", .setting .imagePath (.optional .text g.imagePath)),
      ("trace_path", .setting .tracePath (.optional .text g.tracePath))]

def MemoryConfig.layout (m : MemoryConfig) : Layout :=
  .record [("words", .setting .words (.word64 m.words))]

def VgaConfig.layout (v : VgaConfig) : Layout :=
  .record
    [("enabled", .setting .enabled (.bool v.enabled)),
      ("pixel_clock_divider", .setting .pixelClockDivider (.word32 v.pixelClockDivider)),
      ("timing", v.timing.layout),
      ("quit_after_frames", .setting .quitAfterFrames (.optional .word64 v.quitAfterFrames)),
      ("synchronizer_stages", .setting .synchronizerStages (.word64 v.synchronizerStages)),
      ("frame_dump", .setting .frameDump (.optional .text v.frameDump))]

def DeviceConfig.layout (v : DeviceConfig) : Layout :=
  .record
    [("uart_echo", .setting .uartEcho (.bool v.uartEcho)),
      ("uart_stdin", .setting .uartStdin (.bool v.uartStdin)),
      ("vga", v.vga.layout)]

def SignatureConfig.layout (g : SignatureConfig) : Layout :=
  .record
    [("output", .setting .output (.optional .text g.output)),
      ("begin", .setting .start (.optional .word32 g.start)),
      ("end", .setting .stop (.optional .word32 g.stop)),
      ("elf", .setting .elf (.optional .text g.elf))]

def Config.layout (c : Config) : Layout :=
  .record
    [("general", c.general.layout), ("memory", c.memory.layout), ("devices", c.devices.layout),
      ("signature", c.signature.layout)]

namespace Layout

mutual

def settings : Layout → List Setting
  | .setting s _ => [s]
  | .record fields => fieldSettings fields

def fieldSettings : List (String × Layout) → List Setting
  | [] => []
  | (_, l) :: fields => l.settings ++ fieldSettings fields

end

variable (S : Selection)

def Lacks (l : Layout) : Prop :=
  ∀ s ∈ l.settings, S s = false

instance (l : Layout) : Decidable (l.Lacks S) :=
  inferInstanceAs (Decidable (∀ s ∈ l.settings, S s = false))

/-- A value gives exactly the selected settings of a layout. An object gives each of its fields once
or not at all, in any order and among any others, and leaves out only what nothing is selected
of. -/
inductive Shows : Layout → Json → Prop
  | setting {s : Setting} {value : Json} (h : S s = true) : Shows (.setting s value) value
  | record {fields : List (String × Layout)} {members : List (Option String × Json)}
      (named : ∀ m ∈ members, ∃ name, m.1 = some name)
      (once : ∀ f ∈ fields, members.countP (·.1 = some f.1) ≤ 1)
      (shown : ∀ f ∈ fields, ∀ j, (some f.1, j) ∈ members → Shows f.2 j)
      (absent : ∀ f ∈ fields, (∀ j, (some f.1, j) ∉ members) → f.2.Lacks S) :
      Shows (.record fields) (.object members)

variable {S}

theorem mem_fieldSettings {s : Setting} {f : String × Layout} {fields : List (String × Layout)}
    (hf : f ∈ fields) (hs : s ∈ f.2.settings) : s ∈ fieldSettings fields := by
  induction fields with
  | nil => cases hf
  | cons f' fields ih =>
    rw [fieldSettings, List.mem_append]
    rcases List.mem_cons.mp hf with rfl | hf
    · exact .inl hs
    · exact .inr (ih hf)

theorem Shows.empty {fields : List (String × Layout)} (h : (Layout.record fields).Lacks S) :
    (Layout.record fields).Shows S (.object []) := by
  refine .record nofun ?_ nofun ?_
  · intro f _
    exact Nat.zero_le 1
  · intro f hf _ s hs
    exact h s (mem_fieldSettings hf hs)

end Layout

end RiscvSoc
