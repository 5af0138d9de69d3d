import RiscvSoc.Core.Execute

namespace RiscvSoc.Core

def countCycle (c : Csrs) : Csrs :=
  { c with mcycle := c.mcycle + 1 }

/-- Counts a retired instruction, after its own register write. -/
def countRetired (c : Csrs) : Csrs :=
  { c with minstret := c.minstret + 1 }

def writeback (r : Registers) : Option (RegIndex × UInt32) → Registers
  | some (rd, value) => r.write rd.toNat value
  | none => r

def writeCsr (c : Csrs) : Option (UInt32 × UInt32) → Csrs
  | some (address, value) => c.write address value
  | none => c

def writeTrap (c : Csrs) (t : TrapDecision) : Csrs :=
  if t.writes then
    { c with mstatus := t.csrs.mstatus, mepc := t.csrs.mepc, mcause := t.csrs.mcause }
  else c

/-- Commits a plan. A preempted instruction leaves nothing behind but the trap itself. -/
def commit (c : Core) (p : Plan) : Core :=
  let entering := p.trap.transition.entersHandler
  let csrs := countCycle c.csrs
  { c with
    registers := if entering then c.registers else writeback c.registers p.effect.writeback
    csrs := writeTrap (if entering then csrs else countRetired (writeCsr csrs p.effect.csrWrite))
      p.trap
    pc := if p.trap.redirects then p.trap.target else p.effect.nextPc }

/-- One rising edge: reset, a cycle without a valid instruction, or one instruction. -/
def clockEdge (c : Core) (i : CoreInputs) : Core × EdgeReport :=
  if i.reset then (c.reset, .idle)
  else
    let sampled := { c with pending := i.interruptFlag }
    if i.instructionValid then
      let p := sampled.plan i
      (sampled.commit p,
        { retired := !p.trap.transition.entersHandler, transition := p.trap.transition })
    else (sampled, .idle)

end RiscvSoc.Core
