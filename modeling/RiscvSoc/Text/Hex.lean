namespace RiscvSoc.Hex

/-- The lowest `count` hexadecimal digits of `n`, most significant first. -/
def digits : Nat → Nat → List Char
  | 0, _ => []
  | count + 1, n => digits count (n / 16) ++ [Nat.digitChar (n % 16)]

def word (w : UInt32) : String :=
  String.ofList (digits 8 w.toNat)

def byte (b : UInt8) : String :=
  String.ofList (digits 2 b.toNat)

def natural (n : Nat) : String :=
  String.ofList (Nat.toDigits 16 n)

def digitValue? (c : Char) : Option Nat :=
  if '0' ≤ c ∧ c ≤ '9' then some (c.toNat - '0'.toNat)
  else if 'a' ≤ c ∧ c ≤ 'f' then some (c.toNat - 'a'.toNat + 10)
  else if 'A' ≤ c ∧ c ≤ 'F' then some (c.toNat - 'A'.toNat + 10)
  else none

/-- The number that a list of digits denotes, most significant first. -/
def value? (cs : List Char) : Option Nat :=
  cs.foldlM (fun acc c => (digitValue? c).map (acc * 16 + ·)) 0

end RiscvSoc.Hex
