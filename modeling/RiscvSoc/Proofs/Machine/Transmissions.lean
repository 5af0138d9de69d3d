import Mathlib.Data.List.Basic
import RiscvSoc.Proofs.Machine.Deliveries
import RiscvSoc.Proofs.Soc.Stores

namespace RiscvSoc

/-- A store to a register of the serial port. -/
structure SerialStore where
  offset : UInt32
  data : UInt32
  deriving DecidableEq

namespace SerialStore

/-- The latest store to the enable register has enabled the port. -/
def enabledBy (stores : List SerialStore) : Bool :=
  (stores.filter (·.offset = 0x8)).getLast?.any (·.data != 0)

/-- The bytes of the stores to the transmit register that find the port enabled. -/
def sentBytes (stores : List SerialStore) : List UInt8 :=
  stores.zipIdx.filterMap fun (s, k) =>
    if s.offset = 0x10 ∧ enabledBy (stores.take k) then some s.data.toUInt8 else none

variable {stores : List SerialStore} {s : SerialStore}

theorem enabledBy_concat :
    enabledBy (stores ++ [s]) = if s.offset = 0x8 then s.data != 0 else enabledBy stores := by
  rw [enabledBy, List.filter_append]
  by_cases h : s.offset = 0x8
  · simp [h]
  · simp [h, enabledBy]

theorem sentBytes_concat :
    sentBytes (stores ++ [s]) =
      sentBytes stores ++
        if s.offset = 0x10 ∧ enabledBy stores then [s.data.toUInt8] else [] := by
  have hbefore : ∀ x ∈ stores.zipIdx, (stores ++ [s]).take x.2 = stores.take x.2 := fun x hx =>
    List.take_append_of_le_length (by have := List.snd_lt_of_mem_zipIdx hx; omega)
  have hlast : (stores ++ [s]).take stores.length = stores := List.take_left
  rw [sentBytes, List.zipIdx_append, List.filterMap_append]
  refine congr (congrArg _ (List.filterMap_congr fun x hx => ?_)) ?_
  · simp only [hbefore x hx]
  · simp only [List.zipIdx_singleton, Nat.zero_add, List.filterMap_cons, List.filterMap_nil, hlast]
    split_ifs <;> rfl

end SerialStore

namespace Uart

variable (u : Uart) (offset value : UInt32)

theorem enabled_write :
    (u.write offset value).enabled = if offset = 0x8 then value != 0 else u.enabled := by
  simp only [write, transmit]
  split_ifs <;> simp_all

theorem log_write :
    (u.write offset value).log.toList =
      u.log.toList ++ if offset = 0x10 ∧ u.enabled then [value.toUInt8] else [] := by
  simp only [write, transmit]
  split_ifs <;> simp_all

theorem tick_sender : u.tick.enabled = u.enabled ∧ u.tick.log = u.log := by
  rw [tick]
  split
  · exact ⟨rfl, rfl⟩
  · split <;> exact ⟨rfl, rfl⟩

end Uart

def Uart.store (u : Uart) : Option SerialStore → Uart
  | some st => u.write st.offset st.data
  | none => u

def Bus.serialOffset? (b : Bus) (a : EffectiveAddress) : Option UInt32 :=
  match b.route a with
  | .memory _ => none
  | .peripheral i offset => if (b.devices[i]?.bind Device.uart?).isSome then some offset else none

theorem Bus.uart_write {b : Bus} {p : Peripherals} (h : b.devices = p.devices)
    (a : EffectiveAddress) (data : UInt32) (strobe : Strobe) :
    ∃ q : Peripherals, (b.write a data strobe).devices = q.devices ∧
      q.uart = p.uart.store ((b.serialOffset? a).map fun offset => { offset, data }) := by
  rw [write, serialOffset?]
  cases b.route a with
  | memory address => exact ⟨p, h, rfl⟩
  | peripheral i offset =>
    obtain ⟨q, hdevices, -, huart, -⟩ := p.write_devices i offset data
    refine ⟨q, (congrArg (·.modify i (·.write offset data)) h).trans hdevices, ?_⟩
    rw [huart, h]
    dsimp only
    cases (p.devices[i]?.bind Device.uart?).isSome <;> rfl

namespace Machine

variable (m : Machine)

/-- The store to the serial port that the next step retires: none unless the step brings an edge of
the core's clock. -/
def serialStore? : Option SerialStore :=
  if m.coreClock.step.2 = .rising then
    (m.soc.retiredStore? m.beginStep.wires).bind fun st =>
      (m.soc.bus.serialOffset? st.address).map fun offset => { offset, data := st.data }
  else none

/-- A store of the next step comes with an edge outside reset that enters no handler. -/
theorem committed_of_serialStore? {st : SerialStore} (h : m.serialStore? = some st) :
    m.coreClock.step.2 = .rising ∧ m.beginStep.wires.reset = false ∧
      (m.soc.edge m.beginStep.wires).2.1.transition.entersHandler = false := by
  rw [serialStore?, Option.ite_none_right_eq_some, Option.bind_eq_some_iff] at h
  obtain ⟨hrising, st', hst', -⟩ := h
  exact ⟨hrising, m.soc.committed_of_retiredStore? m.beginStep.wires hst'⟩

/-- On an edge the serial port takes up the retired store, if that goes to it, and then ticks. -/
theorem uart_clocked {p : Peripherals} (h : m.soc.bus.devices = p.devices) :
    ∃ q : Peripherals, m.clocked.bus.devices = q.devices ∧
      q.uart.enabled = (p.uart.store m.serialStore?).enabled ∧
      q.uart.log = (p.uart.store m.serialStore?).log := by
  rw [clocked, serialStore?]
  split
  · rw [Soc.bus_edge_eq]
    cases m.soc.retiredStore? m.beginStep.wires with
    | none =>
      obtain ⟨henabled, hlog⟩ := p.uart.tick_sender
      exact ⟨p.tick, Bus.devices_tick h, henabled, hlog⟩
    | some st =>
      obtain ⟨q, hdevices, huart⟩ := Bus.uart_write h st.address st.data st.strobe
      obtain ⟨henabled, hlog⟩ := q.uart.tick_sender
      refine ⟨q.tick, Bus.devices_tick hdevices, henabled.trans ?_, hlog.trans ?_⟩
      · rw [huart, Option.bind_some]
      · rw [huart, Option.bind_some]
  · exact ⟨p, h, rfl, rfl⟩

theorem uart_step {p : Peripherals} (h : m.soc.bus.devices = p.devices) :
    ∃ q : Peripherals, m.step.1.soc.bus.devices = q.devices ∧
      q.uart.enabled = (p.uart.store m.serialStore?).enabled ∧
      q.uart.log = (p.uart.store m.serialStore?).log := by
  obtain ⟨q, hdevices, hsender⟩ := m.uart_clocked h
  rw [m.steps_step.soc]
  split
  · exact ⟨q.scan, Bus.devices_scan hdevices, hsender⟩
  · exact ⟨q, hdevices, hsender⟩

end Machine

/-- Something that happens to a machine, or the host taking the output of the serial port. -/
inductive Exchange where
  | happens (x : Happening)
  | take

/-- A session, the output that the host has taken, and the stores to the serial port that steps have
retired. -/
structure Transcript where
  session : Session
  taken : List UInt8
  stores : List SerialStore

namespace Transcript

def log (t : Transcript) : List UInt8 :=
  (t.session.machine.soc.bus.uart?.map (·.log.toList)).getD []

def start (m : Machine) : Transcript :=
  { session := .start m, taken := [], stores := [] }

def retires? (t : Transcript) : Happening → Option SerialStore
  | .step => t.session.machine.serialStore?
  | _ => none

def act (t : Transcript) : Exchange → Transcript
  | .happens x =>
    { t with session := t.session.act x, stores := t.stores ++ (t.retires? x).toList }
  | .take =>
    let clear (soc : Soc) : Soc := { soc with bus := soc.bus.mapUart Uart.clearLog }
    { t with
      session := { t.session with machine := t.session.machine.mapSoc clear }
      taken := t.taken ++ t.log }

/-- The port has sent what the stores ask for, and is enabled as the latest of them says. -/
structure Sound (t : Transcript) (p : Peripherals) : Prop where
  devices : t.session.machine.soc.bus.devices = p.devices
  sent : t.taken ++ p.uart.log.toList = SerialStore.sentBytes t.stores
  enabled : p.uart.enabled = SerialStore.enabledBy t.stores

variable {t : Transcript} {p : Peripherals}

theorem sound_start (core : Core) (memory : Memory) (c : Config)
    (tracer : Option Waveform.Tracer) (image : Option Image) :
    (start (.ofParts core (Machine.standardBus c memory) c tracer image)).Sound (.initial c) :=
  ⟨Machine.devices_standardBus c memory, rfl, rfl⟩

theorem Sound.log (h : t.Sound p) : t.log = p.uart.log.toList := by
  rw [Transcript.log, Bus.uart?_of_devices h.devices, Option.map_some, Option.getD_some]

/-- A step sends the byte of the store it retires, if that is due, and nothing else. -/
theorem Sound.step (h : t.Sound p) : ∃ q, (t.act (.happens .step)).Sound q := by
  obtain ⟨q, hdevices, henabled, hlog⟩ := t.session.machine.uart_step h.devices
  refine ⟨q, hdevices, ?_, ?_⟩
  · show t.taken ++ q.uart.log.toList =
      SerialStore.sentBytes (t.stores ++ t.session.machine.serialStore?.toList)
    rw [hlog]
    cases t.session.machine.serialStore? with
    | none => exact h.sent.trans (congrArg _ (List.append_nil _).symm)
    | some st =>
      rw [Option.toList_some, SerialStore.sentBytes_concat, Uart.store, Uart.log_write,
        ← List.append_assoc, h.sent, h.enabled]
  · show q.uart.enabled =
      SerialStore.enabledBy (t.stores ++ t.session.machine.serialStore?.toList)
    rw [henabled]
    cases t.session.machine.serialStore? with
    | none => exact h.enabled.trans (congrArg _ (List.append_nil _).symm)
    | some st =>
      rw [Option.toList_some, SerialStore.enabledBy_concat, Uart.store, Uart.enabled_write,
        h.enabled]

/-- What leaves the sending side of the port alone sends nothing. -/
private theorem Sound.unsent (h : t.Sound p) {s : Session} {q : Peripherals}
    (hdevices : s.machine.soc.bus.devices = q.devices) (henabled : q.uart.enabled = p.uart.enabled)
    (hlog : q.uart.log = p.uart.log) :
    Sound { t with session := s, stores := t.stores ++ [] } q := by
  rw [List.append_nil]
  exact ⟨hdevices, hlog ▸ h.sent, henabled.trans h.enabled⟩

theorem Sound.act (h : t.Sound p) (x : Exchange) : ∃ q, (t.act x).Sound q := by
  cases x with
  | take =>
    refine ⟨_, Bus.devices_mapUart h.devices Uart.clearLog, ?_, h.enabled⟩
    show t.taken ++ t.log ++ [] = SerialStore.sentBytes t.stores
    rw [List.append_nil, h.log, h.sent]
  | happens x =>
    cases x with
    | step => exact h.step
    | receive bytes => exact ⟨_, h.unsent (Bus.devices_receive h.devices bytes) rfl rfl⟩
    | force mask => exact ⟨p, h.unsent h.devices rfl rfl⟩
    | memory change => exact ⟨p, h.unsent h.devices rfl rfl⟩

theorem sound_foldl (h : t.Sound p) (history : List Exchange) :
    ∃ q, (history.foldl act t).Sound q := by
  induction history generalizing t p with
  | nil => exact ⟨p, h⟩
  | cons x history ih =>
    obtain ⟨q, hq⟩ := h.act x
    exact ih hq

/-- After whatever has happened since power-on, the output taken from the serial port and the output
that waits there are, in this order, just the bytes of the retired stores to its transmit register
that found it enabled by the latest retired store to its enable register. Only a step with an edge
outside reset that enters no handler can retire one more. -/
theorem output_sent_once (core : Core) (memory : Memory) (c : Config)
    (tracer : Option Waveform.Tracer) (image : Option Image) (history : List Exchange) :
    let t := history.foldl act (start (.ofParts core (Machine.standardBus c memory) c tracer image))
    (∃ u, t.session.machine.soc.bus.uart? = some u ∧ t.log = u.log.toList) ∧
      t.taken ++ t.log = SerialStore.sentBytes t.stores ∧
      let m := t.session.machine
      ((t.act (.happens .step)).stores = t.stores ∨
        m.coreClock.step.2 = .rising ∧ m.beginStep.wires.reset = false ∧
          (m.soc.edge m.beginStep.wires).2.1.transition.entersHandler = false) := by
  intro t
  obtain ⟨p, hp⟩ := sound_foldl (sound_start core memory c tracer image) history
  refine ⟨⟨p.uart, Bus.uart?_of_devices hp.devices, hp.log⟩, hp.log ▸ hp.sent, ?_⟩
  intro m
  cases hst : m.serialStore? with
  | none =>
    have hstores : (t.act (.happens .step)).stores = t.stores ++ m.serialStore?.toList := rfl
    rw [hstores, hst]
    exact .inl (List.append_nil _)
  | some st => exact .inr (m.committed_of_serialStore? hst)

/-- Stores a byte to the transmit register before and after it enables the port. -/
def greeting : Memory :=
  ⟨#[0x00000013, 0x400000B7, 0x04100113, 0x0020A823, 0x0020A423, 0x0020A823]⟩

example :
    let m := Machine.ofParts (.powerOn 0) (Machine.standardBus Session.unheld greeting)
      Session.unheld none none
    let t := (List.replicate 24 (.happens .step)).foldl act (start m)
    t.stores = [⟨0x10, 65⟩, ⟨0x8, 65⟩, ⟨0x10, 65⟩] ∧ t.log = [65] := by
  decide +kernel

end Transcript

end RiscvSoc
