import RiscvSoc.Proofs.Device.PendingTimer
import RiscvSoc.Proofs.Interrupt.ExternalLine
import RiscvSoc.Proofs.Soc.Stores

/-! The timer's interrupt line. On one edge of the core's clock the retired store comes first, then
the timer ticks, and then its line is sampled; so the flag bit always shows whether the timer is
pending, with the store and the tick of the last edge in it. -/

namespace RiscvSoc

def Timer.store (t : Timer) : Option (UInt32 × UInt32) → Timer
  | some (offset, value) => t.write offset value
  | none => t

theorem Timer.store_eq_self (t : Timer) {st : Option (UInt32 × UInt32)}
    (h : ∀ s ∈ st, s.1 ≠ 0x4 ∧ s.1 ≠ 0x8) : t.store st = t := by
  cases st with
  | none => rfl
  | some s =>
    obtain ⟨hlimit, henabled⟩ := h s rfl
    rw [store, write, if_neg hlimit, if_neg henabled]

def Bus.timerOffset? (b : Bus) (a : EffectiveAddress) : Option UInt32 :=
  match b.route a with
  | .memory _ => none
  | .peripheral i offset => if (b.devices[i]?.bind Device.timer?).isSome then some offset else none

theorem Bus.timer_write {b : Bus} {p : Peripherals} (h : b.devices = p.devices)
    (a : EffectiveAddress) (data : UInt32) (strobe : Strobe) :
    ∃ q : Peripherals, (b.write a data strobe).devices = q.devices ∧
      q.timer = p.timer.store ((b.timerOffset? a).map fun offset => (offset, data)) := by
  rw [write, timerOffset?]
  cases b.route a with
  | memory address => exact ⟨p, h, rfl⟩
  | peripheral i offset =>
    obtain ⟨q, hdevices, -, -, htimer⟩ := p.write_devices i offset data
    refine ⟨q, (congrArg (·.modify i (·.write offset data)) h).trans hdevices, ?_⟩
    rw [htimer, h]
    dsimp only
    cases (p.devices[i]?.bind Device.timer?).isSome <;> rfl

namespace InterruptLines

variable (l : InterruptLines) (u : Uart) (t : Timer)

/-- Of the standard devices, the timer alone drives its line, and by its level. -/
theorem testBit_timer :
    ((assertedBy .level [u.irq, t.irq]).toNat.testBit 0 = true ↔ t.pending = true) ∧
      (assertedBy .edge [u.irq, t.irq]).toNat.testBit 0 = false := by
  constructor
  · rw [testBit_assertedBy (by decide)]
    simp [AssertsBy, Uart.irq, Timer.irq, InterruptSource.line]
  · rw [← Bool.not_eq_true, testBit_assertedBy (by decide)]
    simp [AssertsBy, Uart.irq, Timer.irq, InterruptSource.line]

theorem latched_acknowledgeTaken {b : Nat} (h : l.latched.toNat.testBit b = false)
    (source : Option InterruptSource) :
    (l.acknowledgeTaken source).latched.toNat.testBit b = false := by
  cases source with
  | none => exact h
  | some source =>
    rw [acknowledgeTaken, acknowledge, UInt32.toNat_and, Nat.testBit_and, h, Bool.false_and]

end InterruptLines

namespace Soc

variable {s : Soc} {p : Peripherals}

/-- The store to the timer that an edge retires: a register offset and the value for it. -/
def timerStore? (s : Soc) (w : Wires) : Option (UInt32 × UInt32) :=
  (s.retiredStore? w).bind fun st =>
    (s.bus.timerOffset? st.address).map fun offset => (offset, st.data)

/-- On an edge the timer takes up the retired store, if that goes to it, and then ticks. -/
theorem timer_edge (h : s.bus.devices = p.devices) (w : Wires) :
    ∃ q : Peripherals, (s.edge w).1.bus.devices = q.devices ∧
      q.timer = (p.timer.store (s.timerStore? w)).tick := by
  rw [bus_edge_eq, timerStore?]
  cases s.retiredStore? w with
  | none => exact ⟨p.tick, Bus.devices_tick h, rfl⟩
  | some st =>
    obtain ⟨q, hdevices, htimer⟩ := Bus.timer_write h st.address st.data st.strobe
    refine ⟨q.tick, Bus.devices_tick hdevices, ?_⟩
    rw [Option.bind_some, ← htimer]
    rfl

/-- The devices are the standard ones, the last sample of the timer's line saw whether it is
pending, and nothing else holds the line up. -/
structure Times (s : Soc) (p : Peripherals) : Prop where
  devices : s.bus.devices = p.devices
  level : s.lines.level.toNat.testBit 0 = true ↔ p.timer.pending = true
  latched : s.lines.latched.toNat.testBit 0 = false
  forced : s.lines.forced.toNat.testBit 0 = false

theorem Times.flag_iff (h : s.Times p) :
    s.lines.flag &&& InterruptSource.timer.flag ≠ 0 ↔ p.timer.pending = true := by
  rw [InterruptLines.and_flag_ne_zero_iff, InterruptLines.flag, UInt32.toNat_or, UInt32.toNat_or,
    Nat.testBit_or, Nat.testBit_or, InterruptSource.line, h.latched, h.forced, Bool.or_false,
    Bool.or_false, h.level]

theorem times_idle (core : Core) {bus : Bus} (h : bus.devices = p.devices)
    (hp : p.timer.pending = false) : Times { core, bus, lines := .idle } p := by
  have hlow : (0 : UInt32).toNat.testBit 0 = false := by decide
  refine ⟨h, ?_, hlow, hlow⟩
  rw [InterruptLines.idle, hlow, hp]

theorem Times.scan (h : s.Times p) : s.scanned.Times p.scan :=
  ⟨Bus.devices_scan h.devices, h.level, h.latched, h.forced⟩

theorem Times.force (h : s.Times p) {mask : UInt32}
    (hmask : mask &&& InterruptSource.timer.flag = 0) :
    Times { s with lines := s.lines.force mask } p := by
  refine ⟨h.devices, h.level, h.latched, ?_⟩
  rw [← Bool.not_eq_true]
  exact fun hbit => (InterruptLines.and_flag_ne_zero_iff mask .timer).mpr hbit hmask

theorem Times.edge (h : s.Times p) (w : Wires) :
    ∃ q, (s.edge w).1.Times q ∧ q.timer = (p.timer.store (s.timerStore? w)).tick := by
  obtain ⟨q, hdevices, htimer⟩ := timer_edge h.devices w
  refine ⟨q, ?_, htimer⟩
  let taken := (s.edge w).2.1.transition.takenSource?
  have hlines : (s.edge w).1.lines =
      (s.lines.acknowledgeTaken taken).sample [q.uart.irq, q.timer.irq] :=
    congrArg (s.lines.acknowledgeTaken taken).sample (Bus.irqSignals_of_devices hdevices)
  have hlatched := s.lines.latched_acknowledgeTaken h.latched taken
  obtain ⟨hlevel, hedge⟩ := InterruptLines.testBit_timer q.uart q.timer
  constructor
  · exact hdevices
  · rw [hlines]
    exact hlevel
  · rw [hlines, InterruptLines.sample, UInt32.toNat_or, Nat.testBit_or, UInt32.toNat_and,
      Nat.testBit_and, hlatched, hedge]
    rfl
  · rw [hlines]
    exact (congrArg (·.toNat.testBit 0) (s.lines.forced_acknowledgeTaken taken)).trans h.forced

end Soc

end RiscvSoc
