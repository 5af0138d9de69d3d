import RiscvSoc.Text.Numeral

/-! The options of the command line. They are read from left to right, each at most once; only the
signature option may come again, and then its values add up. -/

namespace RiscvSoc.CommandLine

structure Options where
  config : Option String
  image : Option String
  time : Option UInt64
  memory : Option UInt64
  halt : Option UInt32
  vcd : Option String
  signature : Option (List String)
  signatureElf : Option String
  signatureOut : Option String
  vga : Bool
  quitAfter : Option UInt64
  frameDump : Option String
  uartEcho : Bool
  uartStdin : Bool
  report : Option String
  deriving DecidableEq

def Options.empty : Options :=
  { config := none, image := none, time := none, memory := none, halt := none, vcd := none
    signature := none, signatureElf := none, signatureOut := none, vga := false
    quitAfter := none, frameDump := none, uartEcho := false, uartStdin := false
    report := none }

inductive Request where
  | run (options : Options)
  | showVersion
  | showHelp
  | badUsage
  deriving DecidableEq

/-- The value of a path option, which cannot be empty. -/
def path? (value : String) : Option String :=
  if value.isEmpty then none else some value

def number64? (value : String) : Option UInt64 :=
  (Numeral.parse64 value).toOption

def number32? (value : String) : Option UInt32 :=
  (Numeral.parse32 value).toOption

/-- Gives an option its first value; a second one is refused. -/
def once {α : Type} (old : Option α) (new : Option α) : Option (Option α) :=
  match old with
  | some _ => none
  | none => new.map some

namespace Options

/-- Sets a flag by name, if there is one of that name that is not set yet. -/
def setFlag? (o : Options) (name : String) : Option Options :=
  match name with
  | "vga" => if o.vga then none else some { o with vga := true }
  | "uart-echo" => if o.uartEcho then none else some { o with uartEcho := true }
  | "uart-stdin" => if o.uartStdin then none else some { o with uartStdin := true }
  | _ => none

def setValue? (o : Options) (name value : String) : Option Options :=
  match name with
  | "config" => (once o.config (path? value)).map fun config => { o with config }
  | "image" => (once o.image (path? value)).map fun image => { o with image }
  | "time" => (once o.time (number64? value)).map fun time => { o with time }
  | "memory" => (once o.memory (number64? value)).map fun memory => { o with memory }
  | "halt" => (once o.halt (number32? value)).map fun halt => { o with halt }
  | "vcd" => (once o.vcd (path? value)).map fun vcd => { o with vcd }
  | "signature-elf" =>
    (once o.signatureElf (path? value)).map fun signatureElf => { o with signatureElf }
  | "signature-out" =>
    (once o.signatureOut (path? value)).map fun signatureOut => { o with signatureOut }
  | "quit-after" =>
    (once o.quitAfter (Numeral.decimal64? value)).map fun quitAfter => { o with quitAfter }
  | "frame-dump" => (once o.frameDump (path? value)).map fun frameDump => { o with frameDump }
  | "report" => (once o.report (path? value)).map fun report => { o with report }
  | _ => none

def addSignature (o : Options) (values : List String) : Options :=
  { o with signature := some (o.signature.getD [] ++ values) }

end Options

def flagNames : List String :=
  ["vga", "uart-echo", "uart-stdin"]

/-- Whether an argument can be the value of the option before it. -/
def isValue (argument : List Char) : Bool :=
  match argument with
  | '-' :: _ :: _ => false
  | _ => true

/-- The name of a long option and the value attached to it, if there is one. -/
def splitAttached (cs : List Char) : String × Option String :=
  let name := String.ofList (cs.takeWhile (· != '='))
  match cs.dropWhile (· != '=') with
  | [] => (name, none)
  | _ :: value => (name, some (String.ofList value))

/-- Reads arguments onto the options collected so far. -/
def readArguments (o : Options) : List (List Char) → Request
  | [] => .run o
  | ['-', '-'] :: rest => if rest.isEmpty then .run o else .badUsage
  | ('-' :: '-' :: cs) :: rest =>
    match splitAttached cs with
    | ("version", attached) => if attached.isNone then .showVersion else .badUsage
    | ("help", attached) => if attached.isNone then .showHelp else .badUsage
    | ("signature", some _) => .badUsage
    | ("signature", none) =>
      match rest with
      | a :: b :: c :: rest =>
        if isValue a && isValue b && isValue c then
          readArguments (o.addSignature [String.ofList a, String.ofList b, String.ofList c]) rest
        else .badUsage
      | _ => .badUsage
    | (name, attached) =>
      if flagNames.contains name then
        match attached, o.setFlag? name with
        | none, some o => readArguments o rest
        | _, _ => .badUsage
      else
        match attached, rest with
        | some value, rest =>
          match o.setValue? name value with
          | some o => readArguments o rest
          | none => .badUsage
        | none, value :: rest =>
          if isValue value then
            match o.setValue? name (String.ofList value) with
            | some o => readArguments o rest
            | none => .badUsage
          else .badUsage
        | none, [] => .badUsage
  | ('-' :: 'V' :: _) :: _ => .showVersion
  | ('-' :: 'h' :: _) :: _ => .showHelp
  | _ :: _ => .badUsage

def Request.ofArguments (arguments : List String) : Request :=
  readArguments .empty (arguments.map String.toList)

end RiscvSoc.CommandLine
