import RiscvSoc.Text.Hex

/-! Values of the JSON grammar and their reader. A number keeps its value only when it is written as
an unsigned integer, the one kind that settings use; a string keeps its text only when its escapes
leave no surrogate unpaired. -/

namespace RiscvSoc

inductive Json where
  | null
  | bool (b : Bool)
  | natural (n : Nat)
  | otherNumber
  | string (text : Option String)
  | array (items : List Json)
  | object (members : List (Option String × Json))

namespace Json

def isBlank (c : Char) : Bool :=
  c == ' ' || c == '\t' || c == '\n' || c == '\r'

def skipBlanks (cs : List Char) : List Char :=
  cs.dropWhile isBlank

def expect : List Char → List Char → Option (List Char)
  | [], cs => some cs
  | w :: ws, c :: cs => if c = w then expect ws cs else none
  | _ :: _, [] => none

/-- One unit of a string: a character, or a sixteen-bit code written as an escape. -/
inductive TextUnit where
  | char (c : Char)
  | code (n : Nat)

def simpleEscape? : Char → Option Char
  | '"' => some '"'
  | '\\' => some '\\'
  | '/' => some '/'
  | 'b' => some '\x08'
  | 'f' => some '\x0c'
  | 'n' => some '\n'
  | 'r' => some '\r'
  | 't' => some '\t'
  | _ => none

/-- Reads the rest of a string behind its opening quote. Control characters must be escaped. -/
def readUnits : List Char → Option (List TextUnit × List Char)
  | '"' :: cs => some ([], cs)
  | '\\' :: 'u' :: a :: b :: c :: d :: cs => do
    let n ← Hex.value? [a, b, c, d]
    let (units, rest) ← readUnits cs
    return (.code n :: units, rest)
  | '\\' :: e :: cs => do
    let c ← simpleEscape? e
    let (units, rest) ← readUnits cs
    return (.char c :: units, rest)
  | c :: cs =>
    if c.toNat < 0x20 then none
    else (readUnits cs).map fun (units, rest) => (.char c :: units, rest)
  | [] => none

def isHighSurrogate (n : Nat) : Bool :=
  0xD800 ≤ n && n < 0xDC00

def isLowSurrogate (n : Nat) : Bool :=
  0xDC00 ≤ n && n < 0xE000

/-- The text that units spell; a high surrogate counts only together with a low one behind it. -/
def textOfUnits : List TextUnit → Option (List Char)
  | [] => some []
  | .char c :: us => (textOfUnits us).map (c :: ·)
  | .code n :: .code m :: us =>
    if isHighSurrogate n then
      if isLowSurrogate m then
        (textOfUnits us).map (Char.ofNat (0x10000 + (n - 0xD800) * 0x400 + (m - 0xDC00)) :: ·)
      else none
    else if isLowSurrogate n then none
    else (textOfUnits (.code m :: us)).map (Char.ofNat n :: ·)
  | .code n :: us =>
    if isHighSurrogate n || isLowSurrogate n then none
    else (textOfUnits us).map (Char.ofNat n :: ·)

def readString (cs : List Char) : Option (Option String × List Char) :=
  (readUnits cs).map fun (units, rest) => ((textOfUnits units).map String.ofList, rest)

/-- The digits in front of `cs`, and what follows them. -/
def spanDigits (cs : List Char) : List Char × List Char :=
  (cs.takeWhile Char.isDigit, cs.dropWhile Char.isDigit)

def decimal (ds : List Char) : Nat :=
  ds.foldl (fun acc d => acc * 10 + (d.toNat - '0'.toNat)) 0

/-- Reads the digits of an integer, which has no leading zero. -/
def readInteger (cs : List Char) : Option (Nat × List Char) :=
  match spanDigits cs with
  | ([], _) => none
  | (['0'], rest) => some (0, rest)
  | ('0' :: _, _) => none
  | (ds, rest) => some (decimal ds, rest)

/-- Reads a fraction, if there is one: a point and at least one digit. -/
def readFraction : List Char → Option (Bool × List Char)
  | '.' :: cs =>
    match spanDigits cs with
    | ([], _) => none
    | (_, rest) => some (true, rest)
  | cs => some (false, cs)

def readExponentDigits (cs : List Char) : Option (List Char) :=
  match spanDigits cs with
  | ([], _) => none
  | (_, rest) => some rest

def readExponent : List Char → Option (Bool × List Char)
  | 'e' :: cs | 'E' :: cs =>
    let digits := match cs with
      | '+' :: r => r
      | '-' :: r => r
      | r => r
    (readExponentDigits digits).map fun rest => (true, rest)
  | cs => some (false, cs)

def readUnsigned (negative : Bool) (cs : List Char) : Option (Json × List Char) := do
  let (n, rest) ← readInteger cs
  let (fraction, rest) ← readFraction rest
  let (exponent, rest) ← readExponent rest
  return (if negative || fraction || exponent then .otherNumber else .natural n, rest)

def readNumber : List Char → Option (Json × List Char)
  | '-' :: cs => readUnsigned true cs
  | cs => readUnsigned false cs

mutual

/-- Reads one value; `fuel` bounds the nesting and the number of items. -/
def readValue (fuel : Nat) (cs : List Char) : Option (Json × List Char) :=
  match fuel with
  | 0 => none
  | fuel + 1 =>
    match skipBlanks cs with
    | 'n' :: cs => (expect ['u', 'l', 'l'] cs).map (.null, ·)
    | 't' :: cs => (expect ['r', 'u', 'e'] cs).map (.bool true, ·)
    | 'f' :: cs => (expect ['a', 'l', 's', 'e'] cs).map (.bool false, ·)
    | '"' :: cs => (readString cs).map fun (text, rest) => (.string text, rest)
    | '[' :: cs =>
      match skipBlanks cs with
      | ']' :: rest => some (.array [], rest)
      | cs => (readItems fuel cs).map fun (items, rest) => (.array items, rest)
    | '\x7b' :: cs =>
      match skipBlanks cs with
      | '\x7d' :: rest => some (.object [], rest)
      | cs => (readMembers fuel cs).map fun (members, rest) => (.object members, rest)
    | cs => readNumber cs

def readItems (fuel : Nat) (cs : List Char) : Option (List Json × List Char) :=
  match fuel with
  | 0 => none
  | fuel + 1 => do
    let (item, rest) ← readValue fuel cs
    match skipBlanks rest with
    | ',' :: rest =>
      let (items, rest) ← readItems fuel rest
      return (item :: items, rest)
    | ']' :: rest => return ([item], rest)
    | _ => none

def readMembers (fuel : Nat) (cs : List Char) : Option (List (Option String × Json) × List Char) :=
  match fuel with
  | 0 => none
  | fuel + 1 =>
    match skipBlanks cs with
    | '"' :: cs => do
      let (key, rest) ← readString cs
      match skipBlanks rest with
      | ':' :: rest =>
        let (value, rest) ← readValue fuel rest
        match skipBlanks rest with
        | ',' :: rest =>
          let (members, rest) ← readMembers fuel rest
          return ((key, value) :: members, rest)
        | '\x7d' :: rest => return ([(key, value)], rest)
        | _ => none
      | _ => none
    | _ => none

end

/-- Reads a text that holds one value and nothing else. -/
def parse? (text : String) : Option Json :=
  let cs := text.toList
  match readValue (2 * cs.length + 2) cs with
  | some (value, rest) => if (skipBlanks rest).isEmpty then some value else none
  | none => none

end Json

end RiscvSoc
