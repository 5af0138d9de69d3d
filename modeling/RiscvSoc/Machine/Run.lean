import RiscvSoc.Machine

/-! Runs of the machine. The step budget bounds each of them, so that every run ends. -/

namespace RiscvSoc

structure Report where
  outcome : Outcome
  stats : Stats
  deriving DecidableEq

namespace Machine

/-- Goes on from a step, unless it stopped the run. -/
@[inline] def unlessStopped (next : Machine → Machine × Option Outcome) :
    Machine × Option Outcome → Machine × Option Outcome
  | (m, some outcome) => (m, some outcome)
  | (m, none) => next m

/-- At most `count` steps, fewer when one of them stops the run. -/
def runSteps : Nat → Machine → Machine × Option Outcome
  | 0, m => (m, none)
  | count + 1, m => unlessStopped (runSteps count) m.step

/-- Steps that the budget leaves, at least one: the step that uses it up always stops the run. -/
def stepsLeft (m : Machine) : Nat :=
  max 1 (m.settings.cycleBudget - m.stats.steps)

def runToStop (m : Machine) : Machine × Outcome :=
  match runSteps m.stepsLeft m with
  | (m, some outcome) => (m, outcome)
  | (m, none) => (m, { reason := .timedOut, steps := m.stats.steps })

/-- Steps while the register of cycles is below `target`, at most `count` of them. -/
def runWhileBelow (target : UInt64) : Nat → Machine → Machine × Option Outcome
  | 0, m => (m, none)
  | count + 1, m =>
    if m.stats.cycleRegister < target then unlessStopped (runWhileBelow target count) m.step
    else (m, none)

/-- Steps until `cycles` more cycles have been counted or the run stops. The target is a sum of 64
bits and wraps; a target that has wrapped is below the register already. -/
def runCycles (cycles : UInt64) (m : Machine) : Machine × Option Outcome :=
  runWhileBelow (m.stats.cycleRegister + cycles) m.stepsLeft m

def finishTrace (m : Machine) : Machine × Except Error Unit :=
  match m.tracer with
  | none => (m, .ok ())
  | some t =>
    let (t, result) := t.finish
    ({ m with tracer := some t }, result)

def run (m : Machine) : Machine × Except Error Report :=
  let (m, outcome) := m.runToStop
  let (m, result) := m.finishTrace
  (m, result.map fun _ => { outcome, stats := m.stats })

end Machine

end RiscvSoc
