/-! A clock derived from the step counter: its level toggles whenever the counter passes the
divider, so a period is `2 * (divider + 1)` steps. Both are words; past the largest divider there is
nothing to count to, and that clock stands still. -/

namespace RiscvSoc

inductive ClockEdge where
  | none
  | rising
  | falling
  deriving DecidableEq

structure ClockDivider where
  divider : UInt32
  counter : UInt32
  level : Bool
  deriving DecidableEq

namespace ClockDivider

def start (divider : UInt32) : ClockDivider :=
  { divider, counter := 0, level := false }

/-- One step, and the edge it makes. -/
@[irreducible] def step (c : ClockDivider) : ClockDivider × ClockEdge :=
  if c.divider < c.counter + 1 then
    ({ c with counter := 0, level := !c.level }, if c.level then .falling else .rising)
  else ({ c with counter := c.counter + 1 }, .none)

end ClockDivider

end RiscvSoc
