import RiscvSoc.Interrupt.Lines
import RiscvSoc.Word

/-! The interval timer: a counter that advances once per cycle while enabled and holds its interrupt
line up while it has reached the limit. Registers: `0x4` limit, `0x8` enabled. -/

namespace RiscvSoc

structure Timer where
  limit : UInt32
  enabled : Bool
  count : UInt32
  deriving DecidableEq

namespace Timer

def initial : Timer :=
  { limit := 0, enabled := false, count := 0 }

def pending (t : Timer) : Bool :=
  t.enabled && decide (t.limit ≤ t.count)

def read (t : Timer) (offset : UInt32) : UInt32 :=
  if offset = 0x4 then t.limit
  else if offset = 0x8 then Word.ofBool t.enabled
  else 0

/-- Writing the limit restarts the count. -/
def write (t : Timer) (offset value : UInt32) : Timer :=
  if offset = 0x4 then { t with limit := value, count := 0 }
  else if offset = 0x8 then { t with enabled := value != 0 }
  else t

def tick (t : Timer) : Timer :=
  if t.enabled then { t with count := t.count + 1 } else t

def after (t : Timer) (n : Nat) : Timer :=
  if t.enabled then { t with count := t.count + n.toUInt32 } else t

theorem after_zero (t : Timer) : t.after 0 = t := by
  simp [after]

theorem tick_after (t : Timer) (n : Nat) : (t.after n).tick = t.after (n + 1) := by
  cases ht : t.enabled <;> simp [after, tick, ht, UInt32.add_assoc]

def irq (t : Timer) : IrqSignal :=
  { line := InterruptSource.timer.line, trigger := .level, asserted := t.pending }

end Timer

end RiscvSoc
