/-! Short identifiers of traced signals. They count through all strings of the 94 printable
characters from `!` to `~`, shorter strings first and strings of one length in order. -/

namespace RiscvSoc.Waveform

def alphabetSize : Nat := 94

def identifierChar (digit : Nat) : Char :=
  Char.ofNat ('!'.toNat + digit)

def identifierChars (index : Nat) : List Char :=
  if index < alphabetSize then [identifierChar index]
  else identifierChars (index / alphabetSize - 1) ++ [identifierChar (index % alphabetSize)]
termination_by index
decreasing_by simp only [alphabetSize] at *; omega

def identifier (index : Nat) : String :=
  String.ofList (identifierChars index)

end RiscvSoc.Waveform
