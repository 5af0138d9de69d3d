import RiscvSoc.CommandLine.Configure
import RiscvSoc.Config.Reader
import RiscvSoc.Machine.Build
import RiscvSoc.Report

/-! What the program does with a command line: it reads the configuration, runs the machine, writes
the artifacts and the report, and says how the run ended. -/

namespace RiscvSoc.CommandLine

structure Result where
  exitCode : Nat
  stdout : ByteArray
  fatal : Option Error

def usageText : String :=
  "Usage: socsim [OPTIONS]\nTry --help for the list of options.\n"

/-- The text for standard error: the error that ended the run, or how the options are used. -/
def Result.stderr (r : Result) : String :=
  match r.fatal with
  | some e => "\n[!] FATAL: " ++ e.message ++ "\n"
  | none => if r.exitCode = 2 then usageText else ""

def versionText : String := "socsim 0.3.0\n"

def helpText : String :=
  "Run a program on a small RV32I SoC with a timer, UART and VGA controller.\n\n" ++
  "Usage: socsim [OPTIONS]\n\n" ++
  "Options:\n" ++
  "  --config FILE             JSON configuration; options override its values\n" ++
  "  --image FILE              program image, ELF or flat binary\n" ++
  "  --time N                  steps before the run times out\n" ++
  "  --memory N                memory capacity in words\n" ++
  "  --halt N                  address polled for the halt value\n" ++
  "  --vcd FILE                value change dump of the core ports\n" ++
  "  --signature BEGIN END FILE\n" ++
  "  --signature-elf FILE      ELF whose symbols delimit the signature\n" ++
  "  --signature-out FILE      signature file when symbols delimit it\n" ++
  "  --vga                     attach the VGA controller and a display\n" ++
  "  --quit-after N            stop after this many frames\n" ++
  "  --frame-dump FILE         last frame as a PPM image\n" ++
  "  --uart-echo               copy UART output to standard output\n" ++
  "  --uart-stdin              feed standard input to the UART\n" ++
  "  --report FILE             report of the run as JSON\n"

variable {m : Type → Type} [Monad m] [FileStore m]

def readConfig (path : String) : ExceptT Error m Config := do
  match ← (FileStore.read path : m (Except String ByteArray)) with
  | .error cause => throw (.file path cause)
  | .ok contents =>
    match String.fromUTF8? contents with
    | none => throw (.file path "invalid text encoding")
    | some text => Config.ofText text

/-- The settings that the options override. -/
def baseConfig (o : Options) : ExceptT Error m Config :=
  match o.config with
  | some path => readConfig path
  | none => pure .standard

def effectiveConfig (o : Options) : ExceptT Error m Config := do
  let base ← baseConfig o
  o.configure base

/-- The bytes that a run copies to standard output as the serial port sends them. -/
def echoed (c : Config) (machine : Machine) : ByteArray :=
  if c.devices.uartEcho then ⟨(machine.soc.bus.uart?.map (·.log)).getD #[]⟩ else .empty

/-- The machine of a configuration, with the bytes of standard input waiting at its serial port if
it listens to them. -/
def prepare (c : Config) (stdin : m (List UInt8)) : ExceptT Error m Machine := do
  let machine ← Machine.build c
  if c.devices.uartStdin then
    let bytes ← stdin
    return { machine with soc.bus := machine.soc.bus.receive bytes }
  return machine

def writeReport (o : Options) (report : Report) : ExceptT Error m PUnit := do
  match o.report with
  | some path => writeFile path report.text.toUTF8
  | none => pure ()

def closingLine (report : Report) : String :=
  "\n[*] " ++ report.outcome.text ++ "\n"

def failure (stdout : ByteArray) (e : Error) : Result :=
  { exitCode := 1, stdout, fatal := some e }

/-- A run with given options; what was printed before an error stays printed. -/
def run (o : Options) (stdin : m (List UInt8)) : m Result := do
  match ← (effectiveConfig o).run with
  | .error e => return failure .empty e
  | .ok c =>
    match ← (prepare c stdin).run with
    | .error e => return failure .empty e
    | .ok machine =>
      let (machine, result) ← machine.runAndSave
      let echo := echoed c machine
      match result with
      | .error e => return failure echo e
      | .ok report =>
        match ← (machine.writeArtifacts c).run with
        | .error e => return failure echo e
        | .ok _ =>
          let printed := echo ++ (closingLine report).toUTF8
          match ← (writeReport o report).run with
          | .error e => return failure printed e
          | .ok _ => return { exitCode := 0, stdout := printed, fatal := none }

def execute (arguments : List String) (stdin : m (List UInt8)) : m Result :=
  match Request.ofArguments arguments with
  | .run o => run o stdin
  | .showVersion => return { exitCode := 0, stdout := versionText.toUTF8, fatal := none }
  | .showHelp => return { exitCode := 0, stdout := helpText.toUTF8, fatal := none }
  | .badUsage => return { exitCode := 2, stdout := .empty, fatal := none }

end RiscvSoc.CommandLine
