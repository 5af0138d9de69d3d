import RiscvSoc.Interrupt.Source

/-! Interrupt lines between devices and core. A level line follows its signal; an edge line latches
when its signal rises and stays set until the core takes the interrupt; forced bits are always
shown. -/

namespace RiscvSoc

inductive Trigger where
  | level
  | edge
  deriving DecidableEq

structure IrqSignal where
  line : Nat
  trigger : Trigger
  asserted : Bool
  deriving DecidableEq

namespace IrqSignal

/-- The flag bit of an asserted signal; lines outside the flag vector have none. -/
def bit (s : IrqSignal) : UInt32 :=
  if s.asserted && s.line < 32 then 1 <<< s.line.toUInt32 else 0

end IrqSignal

structure InterruptLines where
  level : UInt32
  latched : UInt32
  previous : UInt32
  forced : UInt32
  deriving DecidableEq

namespace InterruptLines

def idle : InterruptLines :=
  { level := 0, latched := 0, previous := 0, forced := 0 }

def asserted (signals : List IrqSignal) : UInt32 :=
  signals.foldl (fun acc s => acc ||| s.bit) 0

/-- The bits of the asserted signals with the given trigger. -/
def assertedBy (trigger : Trigger) (signals : List IrqSignal) : UInt32 :=
  asserted (signals.filter (·.trigger = trigger))

/-- Samples the signals of one cycle; an edge is a signal on a line that was low in the sample
before. -/
def sample (l : InterruptLines) (signals : List IrqSignal) : InterruptLines :=
  { l with
    level := assertedBy .level signals
    latched := l.latched ||| (assertedBy .edge signals &&& ~~~l.previous)
    previous := asserted signals }

/-- The vector presented to the core. -/
def flag (l : InterruptLines) : UInt32 :=
  l.level ||| l.latched ||| l.forced

def acknowledge (l : InterruptLines) (source : InterruptSource) : InterruptLines :=
  { l with latched := l.latched &&& ~~~source.flag }

def acknowledgeTaken (l : InterruptLines) : Option InterruptSource → InterruptLines
  | some source => l.acknowledge source
  | none => l

def force (l : InterruptLines) (mask : UInt32) : InterruptLines :=
  { l with forced := mask }

end InterruptLines

end RiscvSoc
