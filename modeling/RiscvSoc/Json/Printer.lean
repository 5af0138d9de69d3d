import RiscvSoc.Json

namespace RiscvSoc.Json

/-- A character inside a string: quotes, backslashes and control characters are escaped. -/
def escapeChar (c : Char) : List Char :=
  if c = '"' then ['\\', '"']
  else if c = '\\' then ['\\', '\\']
  else if c = '\x08' then ['\\', 'b']
  else if c = '\x0c' then ['\\', 'f']
  else if c = '\n' then ['\\', 'n']
  else if c = '\r' then ['\\', 'r']
  else if c = '\t' then ['\\', 't']
  else if c.toNat < 0x20 then '\\' :: 'u' :: Hex.digits 4 c.toNat
  else [c]

def quote (text : String) : String :=
  "\"" ++ String.ofList (text.toList.flatMap escapeChar) ++ "\""

def indentation (depth : Nat) : String :=
  String.ofList (List.replicate (2 * depth) ' ')

/-- An object with one member to a line, its lines two blanks deeper than `depth`; the values are
already written. -/
def prettyObject (depth : Nat) (members : List (String × String)) : String :=
  let lines := members.map fun (key, value) => indentation (depth + 1) ++ quote key ++ ": " ++ value
  "\x7b\n" ++ String.intercalate ",\n" lines ++ "\n" ++ indentation depth ++ "\x7d"

end RiscvSoc.Json
