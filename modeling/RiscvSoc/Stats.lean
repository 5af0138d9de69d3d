import RiscvSoc.Core.Ports

namespace RiscvSoc

inductive Traffic where
  | none
  | memoryWrite
  | deviceWrite
  | deviceRead
  deriving DecidableEq

/-- What has been counted, without a bound. A 64-bit register shows each count modulo `2 ^ 64`. -/
structure Stats where
  steps : Nat
  cycles : Nat
  instructionsRetired : Nat
  exceptions : Nat
  interrupts : Nat
  trapReturns : Nat
  memoryWrites : Nat
  mmioReads : Nat
  mmioWrites : Nat
  framesPresented : Nat
  deriving DecidableEq

namespace Stats

def zero : Stats :=
  { steps := 0, cycles := 0, instructionsRetired := 0, exceptions := 0, interrupts := 0
    trapReturns := 0, memoryWrites := 0, mmioReads := 0, mmioWrites := 0, framesPresented := 0 }

def countTransition (s : Stats) : Transition → Stats
  | .exception _ => { s with exceptions := s.exceptions + 1 }
  | .interrupt _ => { s with interrupts := s.interrupts + 1 }
  | .trapReturn => { s with trapReturns := s.trapReturns + 1 }
  | .sequential => s

/-- Counts one rising edge outside reset. -/
def recordEdge (s : Stats) (r : EdgeReport) : Stats :=
  { s with
    cycles := s.cycles + 1
    instructionsRetired := s.instructionsRetired + (if r.retired then 1 else 0) }.countTransition
      r.transition

def recordTraffic (s : Stats) : Traffic → Stats
  | .none => s
  | .memoryWrite => { s with memoryWrites := s.memoryWrites + 1 }
  | .deviceWrite => { s with mmioWrites := s.mmioWrites + 1 }
  | .deviceRead => { s with mmioReads := s.mmioReads + 1 }

/-- The count of cycles as a 64-bit register shows it. -/
def cycleRegister (s : Stats) : UInt64 :=
  .ofNat s.cycles

def named (s : Stats) : List (String × Nat) :=
  [("steps", s.steps), ("cycles", s.cycles), ("instructions_retired", s.instructionsRetired),
    ("exceptions", s.exceptions), ("interrupts", s.interrupts), ("trap_returns", s.trapReturns),
    ("memory_writes", s.memoryWrites), ("mmio_reads", s.mmioReads),
    ("mmio_writes", s.mmioWrites), ("frames_presented", s.framesPresented)]

end Stats

end RiscvSoc
