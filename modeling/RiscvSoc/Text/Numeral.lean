import RiscvSoc.Text.Hex

/-! Numbers as a user types them: decimal, or hexadecimal behind one `0x` or `0X`, with at most one
plus sign before the digits. -/

namespace RiscvSoc.Numeral

inductive Fault where
  | empty
  | invalidDigit
  | tooLarge
  deriving DecidableEq

def Fault.message : Fault → String
  | .empty => "cannot parse integer from empty string"
  | .invalidDigit => "invalid digit found in string"
  | .tooLarge => "number too large to fit in target type"

/-- The value of `c` as a digit of the base `base`, which is at most sixteen. -/
def digit? (base : Nat) (c : Char) : Option Nat :=
  (Hex.digitValue? c).filter (· < base)

/-- Reads digits from the left onto `acc`; the first one that is no digit, or that takes the value
to `bound` or beyond, decides the fault. -/
def accumulate (base bound : Nat) : Nat → List Char → Except Fault Nat
  | acc, [] => .ok acc
  | acc, c :: cs =>
    match digit? base c with
    | none => .error .invalidDigit
    | some d =>
      if acc * base + d < bound then accumulate base bound (acc * base + d) cs
      else .error .tooLarge

/-- Reads an unsigned number below `bound`: an optional plus sign, then one digit or more. -/
def unsigned (base bound : Nat) : List Char → Except Fault Nat
  | [] => .error .empty
  | ['+'] => .error .invalidDigit
  | '+' :: cs => accumulate base bound 0 cs
  | cs => accumulate base bound 0 cs

/-- Splits off one hexadecimal marker and gives the base of what follows it. -/
def radix : List Char → Nat × List Char
  | '0' :: 'x' :: cs => (16, cs)
  | '0' :: 'X' :: cs => (16, cs)
  | cs => (10, cs)

/-- Why an option's number is refused, together with the text that was given. -/
inductive Refusal where
  | malformed (text : String) (fault : Fault)
  | beyond32 (text : String)
  deriving DecidableEq

def Refusal.message : Refusal → String
  | .malformed text fault => "invalid number '" ++ text ++ "': " ++ fault.message
  | .beyond32 text => "'" ++ text ++ "' does not fit in 32 bits"

def parse64 (text : String) : Except Refusal UInt64 :=
  let (base, cs) := radix text.toList
  match unsigned base UInt64.size cs with
  | .ok n => .ok n.toUInt64
  | .error fault => .error (.malformed text fault)

def parse32 (text : String) : Except Refusal UInt32 :=
  match parse64 text with
  | .ok n => if n.toNat < UInt32.size then .ok n.toUInt32 else .error (.beyond32 text)
  | .error refusal => .error refusal

/-- Reads a number below 2^64 in decimal only. -/
def decimal64? (text : String) : Option UInt64 :=
  match unsigned 10 UInt64.size text.toList with
  | .ok n => some n.toUInt64
  | .error _ => none

end RiscvSoc.Numeral
