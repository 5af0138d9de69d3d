import RiscvSoc.CommandLine.Options
import RiscvSoc.Config

/-! The effective configuration: what the options say wins over what the configuration file says. -/

namespace RiscvSoc.CommandLine

/-- Options of one kind override the setting they are about; flags only ever switch on. -/
def Options.overrideGeneral (o : Options) (g : GeneralConfig) : GeneralConfig :=
  { g with
    imagePath := o.image <|> g.imagePath
    cycleBudget := o.time.getD g.cycleBudget
    haltAddress := o.halt.getD g.haltAddress
    tracePath := o.vcd <|> g.tracePath }

def Options.overrideMemory (o : Options) (m : MemoryConfig) : MemoryConfig :=
  { m with words := o.memory.getD m.words }

def Options.overrideDevices (o : Options) (d : DeviceConfig) : DeviceConfig :=
  { uartEcho := d.uartEcho || o.uartEcho
    uartStdin := d.uartStdin || o.uartStdin
    vga := { d.vga with
      enabled := d.vga.enabled || o.vga
      quitAfterFrames := o.quitAfter <|> d.vga.quitAfterFrames
      frameDump := o.frameDump <|> d.vga.frameDump } }

def signatureBound (text : String) : Except ConfigFault UInt32 :=
  match Numeral.parse32 text with
  | .ok n => .ok n
  | .error refusal => .error (.number refusal)

/-- The bounds and the file of the signature option, and then the options for its symbols and its
file, which win. -/
def Options.overrideSignature (o : Options) (s : SignatureConfig) :
    Except ConfigFault SignatureConfig := do
  let s ← match o.signature with
    | none => pure s
    | some [start, stop, file] =>
      let start ← signatureBound start
      let stop ← signatureBound stop
      pure { s with start := some start, stop := some stop, output := some file }
    | some _ => throw .signatureArity
  return { s with elf := o.signatureElf <|> s.elf, output := o.signatureOut <|> s.output }

/-- The effective configuration, if it makes sense. -/
def Options.configure (o : Options) (base : Config) : Except Error Config := do
  let signature ← (o.overrideSignature base.signature).mapError .config
  let config : Config :=
    { general := o.overrideGeneral base.general
      memory := o.overrideMemory base.memory
      devices := o.overrideDevices base.devices
      signature }
  config.validate
  return config

end RiscvSoc.CommandLine
