import Mathlib.Data.List.Chain
import RiscvSoc.Proofs.Interrupt.ExternalLine

namespace RiscvSoc.Uart

inductive Event where
  | receive (bytes : List UInt8)
  | tick
  | read (offset : UInt32)
  | write (offset value : UInt32)
  deriving DecidableEq

def act (u : Uart) : Event → Uart
  | .receive bytes => u.receive bytes
  | .tick => u.tick
  | .read _ => u
  | .write offset value => u.write offset value

def Event.bytes : Event → List UInt8
  | .receive bytes => bytes
  | _ => []

structure Tick where
  before : Uart
  after : Uart

namespace Tick

def Delivers (t : Tick) : Prop :=
  t.before.Delivered t.after

def asserts (t : Tick) : Bool :=
  t.after.irq.asserted

/-- The byte in RX after a tick that leaves the interrupt line up. -/
def byte? (t : Tick) : Option UInt8 :=
  if t.asserts then some t.after.rx else none

end Tick

def ticks (u : Uart) : List Event → List Tick
  | [] => []
  | .tick :: rest => ⟨u, u.tick⟩ :: u.tick.ticks rest
  | e :: rest => (u.act e).ticks rest

/-- A tick ends a pulse, finds nothing to deliver, or delivers the first byte of the queue. -/
theorem tick_cases (u : Uart) :
    u.pulse = true ∧ u.tick = { u with pulse := false } ∨
      u.pulse = false ∧ u.queue = [] ∧ u.tick = u ∨
      ∃ byte rest, u.pulse = false ∧ u.queue = byte :: rest ∧
        u.tick = { u with rx := byte, queue := rest, pulse := true } := by
  cases hp : u.pulse with
  | true => exact .inl ⟨rfl, by rw [tick, if_pos hp]⟩
  | false =>
    have hdown : ¬ u.pulse = true := by rw [hp]; exact Bool.false_ne_true
    cases hq : u.queue with
    | nil => exact .inr (.inl ⟨rfl, rfl, by rw [tick, if_neg hdown, hq]⟩)
    | cons byte rest => exact .inr (.inr ⟨byte, rest, rfl, rfl, by rw [tick, if_neg hdown, hq]⟩)

/-- The byte of a tick, if it has one, was the first of the queue, and RX holds it from then on. -/
theorem tick_byte? (u : Uart) :
    (Tick.mk u u.tick).byte?.toList ++ u.tick.queue = u.queue ∧
      u.tick.rx = (Tick.mk u u.tick).byte?.getD u.rx := by
  rcases u.tick_cases with ⟨_, htick⟩ | ⟨hp, _, htick⟩ | ⟨byte, rest, _, hq, htick⟩
  · rw [htick]
    exact ⟨rfl, rfl⟩
  · have hnone : (Tick.mk u u).byte? = none := by
      rw [Tick.byte?, Tick.asserts, irq, hp]
      rfl
    rw [htick, hnone]
    exact ⟨rfl, rfl⟩
  · rw [htick, hq]
    exact ⟨rfl, rfl⟩

theorem rx_write (u : Uart) (offset value : UInt32) : (u.write offset value).rx = u.rx := by
  simp only [write, transmit]
  repeat' split
  all_goals rfl

/-- No byte is lost, doubled or overtaken. -/
theorem delivered_append_queue (u : Uart) (events : List Event) :
    (u.ticks events).filterMap Tick.byte? ++ (events.foldl act u).queue =
      u.queue ++ events.flatMap Event.bytes := by
  induction events generalizing u with
  | nil => exact (List.append_nil u.queue).symm
  | cons e events ih =>
    cases e with
    | receive bytes =>
      rw [List.flatMap_cons, ← List.append_assoc]
      exact ih (u.receive bytes)
    | read offset => exact ih u
    | write offset value =>
      rw [← (u.pulse_write offset value).2]
      exact ih (u.write offset value)
    | tick =>
      rw [ticks, List.foldl_cons, act, ← (u.tick_byte?).1, List.append_assoc]
      refine Eq.trans ?_ (congrArg ((Tick.mk u u.tick).byte?.toList ++ ·) (ih u.tick))
      rw [List.filterMap_cons]
      cases (Tick.mk u u.tick).byte? <;> rfl

theorem rx_foldl (u : Uart) (events : List Event) :
    (events.foldl act u).rx = ((u.ticks events).filterMap Tick.byte?).getLast?.getD u.rx := by
  induction events generalizing u with
  | nil => rfl
  | cons e events ih =>
    cases e with
    | receive bytes => exact ih (u.receive bytes)
    | read offset => exact ih u
    | write offset value =>
      rw [← u.rx_write offset value]
      exact ih (u.write offset value)
    | tick =>
      rw [ticks, List.foldl_cons, act, ih, (u.tick_byte?).2, List.filterMap_cons]
      cases (Tick.mk u u.tick).byte? with
      | none => rfl
      | some byte => rw [List.getLast?_cons]; rfl

theorem after_of_mem_ticks {u : Uart} {events : List Event} {t : Tick} (h : t ∈ u.ticks events) :
    t.after = t.before.tick := by
  induction events generalizing u with
  | nil => exact absurd h List.not_mem_nil
  | cons e events ih =>
    cases e with
    | tick =>
      rcases List.mem_cons.mp h with rfl | h
      · rfl
      · exact ih h
    | receive bytes => exact ih h
    | read offset => exact ih h
    | write offset value => exact ih h

/-- Between ticks the line stands still, and the queue can only get longer. -/
def Awaits (u v : Uart) : Prop :=
  v.pulse = u.pulse ∧ u.queue <+: v.queue

theorem awaits_of_mem_head? {u : Uart} {events : List Event} {t : Tick}
    (h : t ∈ (u.ticks events).head?) : u.Awaits t.before := by
  induction events generalizing u with
  | nil => cases h
  | cons e events ih =>
    cases e with
    | tick =>
      cases h
      exact ⟨rfl, List.prefix_rfl⟩
    | receive bytes =>
      have hrest := ih h
      exact ⟨hrest.1, (List.prefix_append u.queue bytes).trans hrest.2⟩
    | read offset => exact ih h
    | write offset value =>
      have hrest := ih h
      obtain ⟨hpulse, hqueue⟩ := u.pulse_write offset value
      exact ⟨hrest.1.trans hpulse, hqueue ▸ hrest.2⟩

theorem isChain_ticks (u : Uart) (events : List Event) :
    (u.ticks events).IsChain fun s t => s.after.Awaits t.before := by
  induction events generalizing u with
  | nil => exact .nil
  | cons e events ih =>
    cases e with
    | tick => exact List.isChain_cons.mpr ⟨fun _ => awaits_of_mem_head?, ih u.tick⟩
    | receive bytes => exact ih (u.receive bytes)
    | read offset => exact ih u
    | write offset value => exact ih (u.write offset value)

theorem delivered_of_waiting {u : Uart} (hp : u.pulse = false) (hq : u.queue ≠ []) :
    u.Delivered u.tick := by
  rcases u.tick_cases with ⟨hup, _⟩ | ⟨_, hnil, _⟩ | ⟨byte, rest, _, hcons, htick⟩
  · exact absurd (hp.symm.trans hup) Bool.false_ne_true
  · exact absurd hnil hq
  · rw [htick]
    exact hcons

section Successive

variable {s t : Uart} (h : s.tick.Awaits t)

include h

theorem not_both_delivered : ¬ (s.Delivered s.tick ∧ t.Delivered t.tick) := by
  rintro ⟨hs, ht⟩
  have hup : s.tick.pulse = true := s.delivered_tick_iff.1.mp hs
  have hdown : t.pulse = false := t.delivered_tick_iff.2 (t.delivered_tick_iff.1.mp ht)
  exact absurd (hdown.symm.trans (h.1.trans hup)) Bool.false_ne_true

theorem one_delivered (hq : s.queue ≠ []) : s.Delivered s.tick ∨ t.Delivered t.tick := by
  rcases s.tick_cases with ⟨_, htick⟩ | ⟨_, hnil, _⟩ | ⟨byte, rest, _, hcons, htick⟩
  · right
    rw [htick] at h
    refine delivered_of_waiting h.1 fun hnil => hq ?_
    exact List.prefix_nil.mp (hnil ▸ h.2)
  · exact absurd hnil hq
  · left
    rw [htick]
    exact hcons

end Successive

/-- Whatever happens to a new serial port: the bytes found in RX after the ticks that leave the
interrupt line up, and after them those that still wait, are all the bytes received, in their order.
RX reads as the last byte delivered, or as zero. The line is up after a tick exactly if the tick
delivered a byte, and then it was down before. Of two ticks in a row at most one delivers, and at
least one if a byte waits. -/
theorem reception_in_order (events : List Event) :
    let u := events.foldl act initial
    let ticks := initial.ticks events
    let delivered := ticks.filterMap Tick.byte?
    delivered ++ u.queue = events.flatMap Event.bytes ∧
      u.read 0xC = (delivered.getLast?.getD 0).toUInt32 ∧
      (∀ t ∈ ticks, (t.asserts = true ↔ t.Delivers) ∧
        (t.asserts = true → t.before.irq.asserted = false)) ∧
      (ticks.IsChain fun s t => ¬ (s.Delivers ∧ t.Delivers)) ∧
      ticks.IsChain fun s t => s.before.queue ≠ [] → s.Delivers ∨ t.Delivers := by
  intro u ticks delivered
  have hafter : ∀ t ∈ ticks, t = ⟨t.before, t.before.tick⟩ := by
    intro t ht
    rw [← after_of_mem_ticks ht]
  refine ⟨delivered_append_queue initial events, ?_, fun t ht => ?_, ?_, ?_⟩
  · exact congrArg UInt8.toUInt32 (rx_foldl initial events)
  · rw [hafter t ht]
    exact ⟨t.before.delivered_tick_iff.1.symm, t.before.delivered_tick_iff.2⟩
  · refine (isChain_ticks initial events).imp_of_mem_imp fun s t hs ht h => ?_
    rw [after_of_mem_ticks hs] at h
    rw [hafter s hs, hafter t ht]
    exact not_both_delivered h
  · refine (isChain_ticks initial events).imp_of_mem_imp fun s t hs ht h => ?_
    rw [after_of_mem_ticks hs] at h
    rw [hafter s hs, hafter t ht]
    exact one_delivered h

example : (initial.ticks [.receive [0x61, 0x62], .tick, .tick, .tick]).map Tick.byte? =
    [some 0x61, none, some 0x62] := by
  decide

end RiscvSoc.Uart
