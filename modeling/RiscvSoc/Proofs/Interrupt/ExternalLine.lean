import RiscvSoc.Proofs.Bus.Peripherals
import RiscvSoc.Proofs.Core.Commit
import RiscvSoc.Proofs.Interrupt.LineHistory

/-! The external interrupt line. The serial port pulses it once for each byte that it delivers, the
pulse sets a latch, and taking the interrupt clears it. On one edge the take comes first: the latch
is acknowledged, then the devices tick, and then the line is sampled. -/

namespace RiscvSoc

/-- What an edge of the core's clock brought on the external line: a byte for the serial port to
deliver, and a core that takes the interrupt. -/
structure ExternalEdge where
  delivered : Bool
  taken : Bool
  deriving DecidableEq

namespace ExternalEdge

/-- Of the edges so far, one delivered a byte, and the interrupt has not been taken since. -/
def Outstanding (edges : List ExternalEdge) : Prop :=
  ∃ before e after, edges = before ++ e :: after ∧ e.delivered = true ∧
    ∀ x ∈ after, x.taken = false

theorem not_outstanding_nil : ¬ Outstanding [] := by
  rintro ⟨before, e, after, h, _⟩
  exact absurd h.symm (List.append_ne_nil_of_right_ne_nil _ (List.cons_ne_nil _ _))

theorem outstanding_concat_iff {edges : List ExternalEdge} {e : ExternalEdge} :
    Outstanding (edges ++ [e]) ↔ e.delivered = true ∨ Outstanding edges ∧ e.taken = false := by
  refine exists_unspoilt_concat_iff.trans (or_congr ?_ Iff.rfl)
  exact exists_eq_left

/-- The latch stands for the edges so far. -/
structure Accounts (edges : List ExternalEdge) (latched : Bool) : Prop where
  latched_iff : latched = true ↔ Outstanding edges
  count_le : edges.countP (·.taken) + latched.toNat ≤ edges.countP (·.delivered)

theorem accounts_nil : Accounts [] false :=
  ⟨⟨fun h => absurd h Bool.false_ne_true, fun h => absurd h not_outstanding_nil⟩, Nat.le_refl 0⟩

theorem ite_eq_toNat (b : Bool) : (if b = true then 1 else 0) = b.toNat := by
  cases b <;> rfl

/-- Only a set latch is taken, and a delivery on the same edge sets it again. -/
theorem Accounts.concat {edges : List ExternalEdge} {latched : Bool} (h : Accounts edges latched)
    {e : ExternalEdge} (htaken : e.taken = true → latched = true) :
    Accounts (edges ++ [e]) (latched && !e.taken || e.delivered) := by
  constructor
  · rw [outstanding_concat_iff, ← h.latched_iff]
    cases latched <;> cases e.taken <;> cases e.delivered <;> decide
  · have hcount := h.count_le
    have hbalance : ∀ l t d : Bool, (t = true → l = true) →
        t.toNat + (l && !t || d).toNat ≤ l.toNat + d.toNat := by decide
    have hone := hbalance latched e.taken e.delivered htaken
    rw [List.countP_append, List.countP_append, List.countP_singleton, List.countP_singleton,
      ite_eq_toNat, ite_eq_toNat]
    omega

end ExternalEdge

namespace InterruptLines

def externalBit (lines : UInt32) : Bool :=
  lines.toBitVec.getLsbD 1

theorem and_external_flag_ne_zero_iff (lines : UInt32) :
    lines &&& InterruptSource.external.flag ≠ 0 ↔ externalBit lines = true :=
  and_flag_ne_zero_iff lines .external

@[simp] theorem externalBit_or (a b : UInt32) :
    externalBit (a ||| b) = (externalBit a || externalBit b) := by
  simp [externalBit]

@[simp] theorem externalBit_and (a b : UInt32) :
    externalBit (a &&& b) = (externalBit a && externalBit b) := by
  simp [externalBit]

@[simp] theorem externalBit_not (a : UInt32) : externalBit (~~~a) = !externalBit a := by
  simp [externalBit]

variable (l : InterruptLines) (u : Uart) (t : Timer)

/-- Of the standard devices, the serial port alone drives the external line, and by its edges. -/
private theorem externalBit_asserted :
    externalBit (assertedBy .level [u.irq, t.irq]) = false ∧
      externalBit (assertedBy .edge [u.irq, t.irq]) = u.pulse ∧
      externalBit (asserted [u.irq, t.irq]) = u.pulse := by
  simp only [Uart.irq, Timer.irq]
  generalize u.pulse = pulse
  generalize t.pending = pending
  revert pulse pending
  decide

theorem externalBit_sample :
    externalBit (l.sample [u.irq, t.irq]).latched =
        (externalBit l.latched || (u.pulse && !externalBit l.previous)) ∧
      externalBit (l.sample [u.irq, t.irq]).level = false ∧
      externalBit (l.sample [u.irq, t.irq]).previous = u.pulse := by
  obtain ⟨hlevel, hedge, hall⟩ := externalBit_asserted u t
  refine ⟨?_, hlevel, hall⟩
  simp only [sample, externalBit_or, externalBit_and, externalBit_not, hedge]

theorem externalBit_acknowledgeTaken (source : Option InterruptSource) :
    externalBit (l.acknowledgeTaken source).latched =
      (externalBit l.latched && !decide (source = some .external)) := by
  have htimer : externalBit InterruptSource.timer.flag = false := by decide
  have hexternal : externalBit InterruptSource.external.flag = true := by decide
  cases source with
  | none => simp [acknowledgeTaken]
  | some source => cases source <;> simp [acknowledgeTaken, acknowledge, htimer, hexternal]

theorem previous_acknowledgeTaken (source : Option InterruptSource) :
    (l.acknowledgeTaken source).previous = l.previous := by
  cases source <;> rfl

theorem forced_acknowledgeTaken (source : Option InterruptSource) :
    (l.acknowledgeTaken source).forced = l.forced := by
  cases source <;> rfl

end InterruptLines

/-- The serial port took a byte off its queue and put it into RX. -/
def Uart.Delivered (u u' : Uart) : Prop :=
  u.queue = u'.rx :: u'.queue

instance (u u' : Uart) : Decidable (u.Delivered u') :=
  inferInstanceAs (Decidable (_ = _))

theorem Uart.pulse_write (u : Uart) (offset value : UInt32) :
    (u.write offset value).pulse = u.pulse ∧ (u.write offset value).queue = u.queue := by
  simp only [write, transmit]
  repeat' split
  all_goals exact ⟨rfl, rfl⟩

/-- A tick delivers a byte exactly when it leaves the pulse up, and then it was down before. -/
theorem Uart.delivered_tick_iff (u : Uart) :
    (u.Delivered u.tick ↔ u.tick.pulse = true) ∧ (u.tick.pulse = true → u.pulse = false) := by
  have hself : ∀ (b : UInt8) (queue : List UInt8), queue ≠ b :: queue :=
    fun b queue h => absurd (congrArg List.length h) (Nat.succ_ne_self _).symm
  rw [Delivered, tick]
  split
  · rename_i hpulse
    exact ⟨⟨fun h => absurd h (hself _ _), fun h => absurd h Bool.false_ne_true⟩,
      fun h => absurd h Bool.false_ne_true⟩
  · rename_i hpulse
    have hlow : u.pulse = false := Bool.not_eq_true _ ▸ hpulse
    cases hq : u.queue with
    | nil =>
      simp only [hq, hlow]
      exact ⟨⟨fun h => absurd h (List.cons_ne_nil _ _).symm, fun h => absurd h Bool.false_ne_true⟩,
        fun _ => trivial⟩
    | cons byte rest => exact ⟨⟨fun _ => rfl, fun _ => rfl⟩, fun _ => hlow⟩

theorem Core.flag_of_takenSource? {c : Core} {i : CoreInputs} {source : InterruptSource}
    (h : (c.clockEdge i).2.transition.takenSource? = some source) :
    i.interruptFlag &&& source.flag ≠ 0 := by
  cases hr : i.reset with
  | true =>
    rw [clockEdge, if_pos hr] at h
    cases h
  | false =>
    cases hv : i.instructionValid with
    | false =>
      rw [clockEdge, hr, hv] at h
      cases h
    | true =>
      have hspec := (c.trapInputs i).transition_spec
      rw [clockEdge_of_valid hr hv] at h
      change (c.trapInputs i).transition.takenSource? = some source at h
      cases ht : (c.trapInputs i).transition with
      | interrupt taken =>
        rw [ht] at h hspec
        cases h
        exact (TrapInputs.ready_iff.mp hspec.2).1
      | _ => rw [ht] at h; cases h

namespace Soc

variable {s : Soc} {p : Peripherals}

/-- What an edge that samples the given wires brings on the external line. -/
def externalEdge (s : Soc) (w : Wires) : ExternalEdge :=
  let (s', report, _) := s.edge w
  { delivered := s.bus.uart?.any fun u => s'.bus.uart?.any fun u' => u.Delivered u'
    taken := report.transition.takenSource? = some .external }

/-- The devices are the standard ones, the last sample of the external line saw the pulse of the
serial port, and nothing else holds the line up. -/
structure Listens (s : Soc) (p : Peripherals) : Prop where
  devices : s.bus.devices = p.devices
  previous : InterruptLines.externalBit s.lines.previous = p.uart.pulse
  level : InterruptLines.externalBit s.lines.level = false
  forced : InterruptLines.externalBit s.lines.forced = false

theorem Listens.edge (h : s.Listens p) (w : Wires) :
    let e := s.externalEdge w
    (∃ q, (s.edge w).1.Listens q) ∧
      (e.taken = true → InterruptLines.externalBit s.lines.latched = true) ∧
      InterruptLines.externalBit (s.edge w).1.lines.latched =
        (InterruptLines.externalBit s.lines.latched && !e.taken || e.delivered) := by
  intro e
  obtain ⟨q, hwritten, hq⟩ := devices_edge h.devices w
  have hkept : q.uart.pulse = p.uart.pulse ∧ q.uart.queue = p.uart.queue := by
    rcases hwritten.uart with huart | ⟨offset, value, huart⟩
    · rw [huart]
      exact ⟨rfl, rfl⟩
    · rw [huart]
      exact p.uart.pulse_write offset value
  obtain ⟨hpulse, hlow⟩ := q.uart.delivered_tick_iff
  have hdelivered : e.delivered = q.uart.tick.pulse := by
    have huart : e.delivered = decide (p.uart.Delivered q.uart.tick) := by
      simp only [e, externalEdge, Bus.uart?_of_devices h.devices, Bus.uart?_of_devices hq]
      rfl
    rw [huart, Bool.eq_iff_iff, ← hpulse, decide_eq_true_iff, Uart.Delivered, Uart.Delivered,
      hkept.2]
  have hlines : (s.edge w).1.lines =
      (s.lines.acknowledgeTaken (s.edge w).2.1.transition.takenSource?).sample
        [q.uart.tick.irq, q.timer.tick.irq] :=
    congrArg (s.lines.acknowledgeTaken (s.edge w).2.1.transition.takenSource?).sample
      (Bus.irqSignals_of_devices hq)
  obtain ⟨hlatched, hlevel, hprevious⟩ := InterruptLines.externalBit_sample
    (s.lines.acknowledgeTaken (s.edge w).2.1.transition.takenSource?) q.uart.tick q.timer.tick
  rw [← hlines] at hlatched hlevel hprevious
  have hforced : (s.edge w).1.lines.forced = s.lines.forced := by
    rw [hlines]
    exact InterruptLines.forced_acknowledgeTaken _ _
  refine ⟨⟨q.tick, hq, hprevious, hlevel, hforced ▸ h.forced⟩, fun htaken => ?_, ?_⟩
  · -- Neither the level lines nor the forced ones show the external bit, so the latch does.
    have hsource : (s.core.clockEdge (s.inputs w)).2.transition.takenSource? = some .external :=
      of_decide_eq_true htaken
    have hflag := (InterruptLines.and_external_flag_ne_zero_iff _).mp
      (Core.flag_of_takenSource? hsource)
    have hshown : InterruptLines.externalBit s.lines.flag = true := hflag
    rwa [InterruptLines.flag, InterruptLines.externalBit_or, InterruptLines.externalBit_or, h.level,
      h.forced, Bool.false_or, Bool.or_false] at hshown
  · rw [hlatched, InterruptLines.externalBit_acknowledgeTaken,
      InterruptLines.previous_acknowledgeTaken, h.previous, ← hkept.1, hdelivered]
    have hedge : (q.uart.tick.pulse && !q.uart.pulse) = q.uart.tick.pulse := by
      cases hup : q.uart.tick.pulse with
      | false => rfl
      | true => rw [hlow hup]; rfl
    rw [hedge]
    rfl

end Soc

end RiscvSoc
