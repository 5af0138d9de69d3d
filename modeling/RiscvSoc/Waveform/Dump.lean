import RiscvSoc.Waveform.Identifier

/-! The text of a value change dump: a header that declares the signals and gives them zero, then
for each sample that changes anything its time and the changed values. -/

namespace RiscvSoc.Waveform

structure Signal where
  name : String
  width : Nat
  deriving DecidableEq

/-- A declared signal together with the value last seen on it. -/
structure Trace where
  id : String
  width : Nat
  value : Nat
  deriving DecidableEq

/-- A value line: one bit in front of the identifier, or a binary number and a blank. -/
def valueLine (width value : Nat) (id : String) : String :=
  if width = 1 then toString (value % 2) ++ id ++ "\n"
  else "b" ++ String.ofList (Nat.toDigits 2 value) ++ " " ++ id ++ "\n"

/-- The signals under their identifiers, all zero. -/
def declare (signals : List Signal) : List Trace :=
  signals.mapIdx fun i s => { id := identifier i, width := s.width, value := 0 }

def declarationLine (index : Nat) (s : Signal) : String :=
  "$var wire " ++ toString s.width ++ " " ++ identifier index ++ " " ++ s.name ++ " $end\n"

def header (signals : List Signal) : String :=
  "$timescale 1ns $end\n$scope module soc $end\n" ++
    String.join (signals.mapIdx declarationLine) ++
    "$upscope $end\n$enddefinitions $end\n#0\n$dumpvars\n" ++
    String.join ((declare signals).map fun t => valueLine t.width t.value t.id) ++ "$end\n"

/-- The value lines of the signals that a sample changes. Signals without a value keep theirs, and
values without a signal are ignored. -/
def changes : List Trace → List Nat → List String
  | t :: ts, v :: vs =>
    if t.value = v then changes ts vs else valueLine t.width v t.id :: changes ts vs
  | _, _ => []

def advance : List Trace → List Nat → List Trace
  | t :: ts, v :: vs => { t with value := v } :: advance ts vs
  | ts, _ => ts

def timeLine (time : Nat) : String :=
  "#" ++ toString time ++ "\n"

def sampleText (traces : List Trace) (time : Nat) (values : List Nat) : String :=
  match changes traces values with
  | [] => ""
  | lines => timeLine time ++ String.join lines

end RiscvSoc.Waveform
