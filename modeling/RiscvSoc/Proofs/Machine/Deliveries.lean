import RiscvSoc.Proofs.Interrupt.ExternalLine
import RiscvSoc.Proofs.Machine.Pace

/-! No external interrupt is lost and none is invented. A session is a run of the machine with a
host that feeds the serial port, forces interrupt lines and changes memory between steps. The latch
of the external line is set exactly while a delivered byte has not been answered, so the core never
takes more external interrupts than bytes have been delivered. -/

namespace RiscvSoc

/-- A step of the time base, or something that the host does between steps. -/
inductive Happening where
  | step
  | receive (bytes : List UInt8)
  | force (mask : UInt32)
  | memory (change : Memory → Memory)

/-- A machine, and what each edge of its core's clock has brought on the external line. -/
structure Session where
  machine : Machine
  edges : List ExternalEdge

namespace Machine

variable (m : Machine)

/-- What the next step brings on the external line, if it brings an edge of the core's clock. -/
def externalEdge? (m : Machine) : Option ExternalEdge :=
  if m.coreClock.step.2 = .rising then some (m.soc.externalEdge m.beginStep.wires) else none

def mapSoc (m : Machine) (f : Soc → Soc) : Machine :=
  { m with soc := f m.soc }

end Machine

namespace Session

def start (m : Machine) : Session :=
  { machine := m, edges := [] }

def act (s : Session) : Happening → Session
  | .step =>
    { machine := s.machine.step.1, edges := s.edges ++ s.machine.externalEdge?.toList }
  | .receive bytes =>
    { s with machine := s.machine.mapSoc fun soc => { soc with bus := soc.bus.receive bytes } }
  | .force mask =>
    { s with machine := s.machine.mapSoc fun soc => { soc with lines := soc.lines.force mask } }
  | .memory change =>
    { s with machine := s.machine.mapSoc fun soc => { soc with bus := soc.bus.mapMemory change } }

/-- The external latch accounts for the edges of the session. -/
structure Sound (s : Session) : Prop where
  listens : ∃ p, s.machine.soc.Listens p
  accounts : ExternalEdge.Accounts s.edges
    (InterruptLines.externalBit s.machine.soc.lines.latched)

variable {s : Session}

theorem sound_start (core : Core) (memory : Memory) (c : Config)
    (tracer : Option Waveform.Tracer) (image : Option Image) :
    (start (.ofParts core (Machine.standardBus c memory) c tracer image)).Sound := by
  have hlow : InterruptLines.externalBit 0 = false := by decide
  exact ⟨⟨_, Machine.devices_standardBus c memory, hlow, hlow, hlow⟩, hlow ▸ ExternalEdge.accounts_nil⟩

/-- A step keeps the account: an edge is one entry, and a scan touches no line. -/
theorem Sound.step (h : s.Sound) : (s.act .step).Sound := by
  have hsoc := s.machine.steps_step.soc
  have hclocked : (∃ p, s.machine.clocked.Listens p) ∧
      ExternalEdge.Accounts (s.edges ++ s.machine.externalEdge?.toList)
        (InterruptLines.externalBit s.machine.clocked.lines.latched) := by
    obtain ⟨p, hp⟩ := h.listens
    rw [Machine.clocked, Machine.externalEdge?]
    split
    · obtain ⟨hlistens, htaken, hlatched⟩ := hp.edge s.machine.beginStep.wires
      rw [hlatched]
      exact ⟨hlistens, h.accounts.concat htaken⟩
    · rw [Option.toList_none, List.append_nil]
      exact ⟨⟨p, hp⟩, h.accounts⟩
  obtain ⟨⟨p, hp⟩, haccounts⟩ := hclocked
  have hlines : s.machine.step.1.soc.lines = s.machine.clocked.lines := by
    rw [hsoc]
    split <;> rfl
  refine ⟨?_, ?_⟩
  · show ∃ p, s.machine.step.1.soc.Listens p
    rw [hsoc]
    split
    · exact ⟨p.scan, Bus.devices_scan hp.devices, hp.previous, hp.level, hp.forced⟩
    · exact ⟨p, hp⟩
  · show ExternalEdge.Accounts (s.edges ++ s.machine.externalEdge?.toList)
      (InterruptLines.externalBit s.machine.step.1.soc.lines.latched)
    rw [hlines]
    exact haccounts

/-- Nothing that can happen breaks the account, unless the host forces the external line. -/
theorem Sound.act (h : s.Sound) {x : Happening}
    (hforce : ∀ mask, x = .force mask → mask &&& InterruptSource.external.flag = 0) :
    (s.act x).Sound := by
  obtain ⟨p, hp⟩ := h.listens
  cases x with
  | step => exact h.step
  | receive bytes =>
    exact ⟨⟨p.receive bytes, Bus.devices_receive hp.devices bytes, hp.previous, hp.level,
      hp.forced⟩, h.accounts⟩
  | force mask =>
    have hmask : InterruptLines.externalBit mask = false := by
      rw [← Bool.not_eq_true, ← InterruptLines.and_external_flag_ne_zero_iff]
      exact not_not_intro (hforce mask rfl)
    exact ⟨⟨p, hp.devices, hp.previous, hp.level, hmask⟩, h.accounts⟩
  | memory change => exact ⟨⟨p, hp.devices, hp.previous, hp.level, hp.forced⟩, h.accounts⟩

theorem sound_foldl (h : s.Sound) (history : List Happening)
    (hforce : ∀ mask, .force mask ∈ history → mask &&& InterruptSource.external.flag = 0) :
    (history.foldl act s).Sound := by
  induction history generalizing s with
  | nil => exact h
  | cons x history ih =>
    have hnow : ∀ mask, x = .force mask → mask &&& InterruptSource.external.flag = 0 :=
      fun mask hx => hforce mask (hx ▸ List.mem_cons_self)
    exact ih (h.act hnow) fun mask hmask => hforce mask (List.mem_cons_of_mem x hmask)

/-- After whatever has happened since power-on, the external latch is set exactly when some edge
delivered a byte and no edge after it took the interrupt. Interrupts taken and the one that is
latched are never more than the bytes delivered. -/
theorem external_latch_accounts (core : Core) (memory : Memory) (c : Config)
    (tracer : Option Waveform.Tracer) (image : Option Image) (history : List Happening)
    (hforce : ∀ mask, .force mask ∈ history → mask &&& InterruptSource.external.flag = 0) :
    let s := history.foldl act (start (.ofParts core (Machine.standardBus c memory) c tracer image))
    let latch := s.machine.soc.lines.latched &&& InterruptSource.external.flag
    (latch ≠ 0 ↔ ExternalEdge.Outstanding s.edges) ∧
      s.edges.countP (·.taken) + (if latch ≠ 0 then 1 else 0) ≤ s.edges.countP (·.delivered) := by
  intro s latch
  have hsound : s.Sound := sound_foldl (sound_start core memory c tracer image) history hforce
  have hbit : latch ≠ 0 ↔ InterruptLines.externalBit s.machine.soc.lines.latched = true :=
    InterruptLines.and_external_flag_ne_zero_iff _
  refine ⟨hbit.trans hsound.accounts.latched_iff, ?_⟩
  simp only [hbit, ExternalEdge.ite_eq_toNat]
  exact hsound.accounts.count_le

/-- Enables interrupts after an instruction that does nothing. -/
def enabling : Memory :=
  ⟨#[0x00000013, 0x30046073, 0x00000013]⟩

def listener : Core :=
  { Core.powerOn 0 with csrs := { Csrs.initial with mie := 0x800 } }

/-- The standard configuration without reset. -/
def unheld : Config :=
  { Config.standard with general := { GeneralConfig.standard with resetSteps := 0 } }

/-- Two bytes arrive, the host forces the timer line, and the third edge follows on step 10. -/
def twoBytes : List Happening :=
  .receive [65, 66] :: .force InterruptSource.timer.flag :: List.replicate 10 .step

def served : Session :=
  twoBytes.foldl act
    (start (.ofParts listener (Machine.standardBus unheld enabling) unheld none none))

/-- The third edge takes the interrupt of the first byte and delivers the second: the latch stays
set for it. -/
theorem external_latch_twoBytes :
    (∀ mask, .force mask ∈ twoBytes → mask &&& InterruptSource.external.flag = 0) ∧
      served.edges = [⟨true, false⟩, ⟨false, false⟩, ⟨true, true⟩] ∧
      served.machine.soc.lines.latched &&& InterruptSource.external.flag ≠ 0 := by
  have hforce : ∀ mask, .force mask ∈ twoBytes → mask &&& InterruptSource.external.flag = 0 := by
    intro mask hmask
    simp only [twoBytes, List.mem_cons, List.mem_replicate, reduceCtorEq, Happening.force.injEq,
      and_false, or_false, false_or] at hmask
    rw [hmask]
    decide
  have hedges : served.edges = [⟨true, false⟩, ⟨false, false⟩, ⟨true, true⟩] := by decide +kernel
  obtain ⟨hlatch, -⟩ := external_latch_accounts listener enabling unheld none none twoBytes hforce
  rw [← served, hedges] at hlatch
  exact ⟨hforce, hedges, hlatch.mpr ⟨[⟨true, false⟩, ⟨false, false⟩], ⟨true, true⟩, [], rfl, rfl,
    fun _ hx => absurd hx List.not_mem_nil⟩⟩

end Session

end RiscvSoc
