import RiscvSoc.Machine.Build
import RiscvSoc.Proofs.Bus.Ownership
import RiscvSoc.Proofs.Machine.Pace

/-! The devices of the standard bus: a display controller or none, then the serial port and the
timer. They keep their kinds and their places. An edge of the core writes at most one register and
then ticks each device once; a scan reaches the controller alone. -/

namespace RiscvSoc

structure Peripherals where
  vga : Option Vga
  uart : Uart
  timer : Timer

namespace Peripherals

variable (p : Peripherals)

def devices : List Device :=
  p.vga.toList.map .vga ++ [.uart p.uart, .timer p.timer]

def tick : Peripherals :=
  { vga := p.vga.map Vga.tick, uart := p.uart.tick, timer := p.timer.tick }

def scan : Peripherals :=
  { p with vga := p.vga.map Vga.scan }

def receive (bytes : List UInt8) : Peripherals :=
  { p with uart := p.uart.receive bytes }

def initial (c : Config) : Peripherals :=
  let vga := c.devices.vga
  { vga := if vga.enabled then some (.initial vga.timing vga.synchronizerStages.toNat) else none
    uart := .initial
    timer := .initial }

/-- From `p` to `q`, registers have been written and nothing else has happened. -/
structure Written (p q : Peripherals) : Prop where
  vga : q.vga = p.vga ∨ ∃ offset value, q.vga = p.vga.map (·.write offset value)
  uart : q.uart = p.uart ∨ ∃ offset value, q.uart = p.uart.write offset value
  timer : q.timer = p.timer ∨ ∃ offset value, q.timer = p.timer.write offset value

theorem Written.refl : p.Written p :=
  ⟨.inl rfl, .inl rfl, .inl rfl⟩

theorem Written.isSome_vga {p q : Peripherals} (h : p.Written q) :
    q.vga.isSome = p.vga.isSome := by
  rcases h.vga with hvga | ⟨offset, value, hvga⟩
  · rw [hvga]
  · rw [hvga, Option.isSome_map]

theorem isSome_vga_tick : p.tick.vga.isSome = p.vga.isSome :=
  Option.isSome_map

theorem isSome_vga_scan : p.scan.vga.isSome = p.vga.isSome :=
  Option.isSome_map

theorem map_tick_devices : p.devices.map Device.tick = p.tick.devices := by
  obtain ⟨vga, uart, timer⟩ := p
  cases vga <;> rfl

theorem map_scan_devices : p.devices.map (·.mapVga Vga.scan) = p.scan.devices := by
  obtain ⟨vga, uart, timer⟩ := p
  cases vga <;> rfl

theorem map_uart_devices (f : Uart → Uart) :
    p.devices.map (·.mapUart f) = { p with uart := f p.uart }.devices := by
  obtain ⟨vga, uart, timer⟩ := p
  cases vga <;> rfl

/-- A write at a position reaches the device that stands there, and no other one. -/
theorem write_devices (i : Nat) (offset value : UInt32) :
    ∃ q : Peripherals, p.devices.modify i (·.write offset value) = q.devices ∧
      q.vga = (if (p.devices[i]?.bind Device.vga?).isSome then p.vga.map (·.write offset value)
        else p.vga) ∧
      q.uart = (if (p.devices[i]?.bind Device.uart?).isSome then p.uart.write offset value
        else p.uart) ∧
      q.timer = (if (p.devices[i]?.bind Device.timer?).isSome then p.timer.write offset value
        else p.timer) := by
  obtain ⟨vga, uart, timer⟩ := p
  cases vga with
  | none =>
    match i with
    | 0 => exact ⟨⟨none, uart.write offset value, timer⟩, rfl, rfl, rfl, rfl⟩
    | 1 => exact ⟨⟨none, uart, timer.write offset value⟩, rfl, rfl, rfl, rfl⟩
    | i + 2 => exact ⟨_, List.modify_eq_self (Nat.le_add_left 2 i), rfl, rfl, rfl⟩
  | some g =>
    match i with
    | 0 => exact ⟨⟨some (g.write offset value), uart, timer⟩, rfl, rfl, rfl, rfl⟩
    | 1 => exact ⟨⟨some g, uart.write offset value, timer⟩, rfl, rfl, rfl, rfl⟩
    | 2 => exact ⟨⟨some g, uart, timer.write offset value⟩, rfl, rfl, rfl, rfl⟩
    | i + 3 => exact ⟨_, List.modify_eq_self (Nat.le_add_left 3 i), rfl, rfl, rfl⟩

theorem modify_devices (i : Nat) (offset value : UInt32) :
    ∃ q, p.Written q ∧ p.devices.modify i (·.write offset value) = q.devices := by
  obtain ⟨q, hdevices, hvga, huart, htimer⟩ := p.write_devices i offset value
  refine ⟨q, ⟨?_, ?_, ?_⟩, hdevices⟩
  · rw [hvga]
    split
    · exact .inr ⟨offset, value, rfl⟩
    · exact .inl rfl
  · rw [huart]
    split
    · exact .inr ⟨offset, value, rfl⟩
    · exact .inl rfl
  · rw [htimer]
    split
    · exact .inr ⟨offset, value, rfl⟩
    · exact .inl rfl

end Peripherals

namespace Bus

variable {b : Bus} {p : Peripherals}

theorem devices_foldl_attach (h : b.Registered) (ds : List Device)
    (hdevice : ∀ d ∈ ds, d.select.index ≠ 0)
    (hfree : ∀ d ∈ ds, ∀ other ∈ b.devices, other.select.index ≠ d.select.index)
    (hdistinct : ds.Pairwise fun d d' => d.select.index ≠ d'.select.index) :
    (ds.foldl attach b).devices = b.devices ++ ds := by
  induction ds generalizing b with
  | nil => exact (List.append_nil _).symm
  | cons d ds ih =>
    rw [List.forall_mem_cons] at hdevice hfree
    rw [List.pairwise_cons] at hdistinct
    have hone : (b.attach d).devices = b.devices ++ [d] := by
      rw [attach, (h.accepts_iff d).mpr ⟨hdevice.1, hfree.1⟩, if_pos rfl]
    have hrest : ∀ d' ∈ ds, ∀ other ∈ (b.attach d).devices,
        other.select.index ≠ d'.select.index := by
      intro d' hd' other hother
      rw [hone, List.mem_append, List.mem_singleton] at hother
      rcases hother with hother | rfl
      · exact hfree.2 d' hd' other hother
      · exact hdistinct.1 d' hd'
    rw [List.foldl_cons, ih (h.attach d) hdevice.2 hrest hdistinct.2, hone, List.append_assoc]
    rfl

theorem vga?_of_devices (h : b.devices = p.devices) : b.vga? = p.vga := by
  rw [vga?, h]
  obtain ⟨vga, uart, timer⟩ := p
  cases vga <;> rfl

theorem uart?_of_devices (h : b.devices = p.devices) : b.uart? = some p.uart := by
  rw [uart?, h]
  obtain ⟨vga, uart, timer⟩ := p
  cases vga <;> rfl

theorem timer?_of_devices (h : b.devices = p.devices) : b.timer? = some p.timer := by
  rw [timer?, h]
  obtain ⟨vga, uart, timer⟩ := p
  cases vga <;> rfl

/-- The controller drives no interrupt line. -/
theorem irqSignals_of_devices (h : b.devices = p.devices) :
    b.irqSignals = [p.uart.irq, p.timer.irq] := by
  rw [irqSignals, h]
  obtain ⟨vga, uart, timer⟩ := p
  cases vga <;> rfl

theorem devices_writeTo (h : b.devices = p.devices) (data : UInt32) (strobe : Strobe)
    (r : Route) : ∃ q, p.Written q ∧ (b.writeTo data strobe r).devices = q.devices := by
  cases r with
  | memory address => exact ⟨p, .refl p, h⟩
  | peripheral i offset =>
    obtain ⟨q, hw, hq⟩ := p.modify_devices i offset data
    exact ⟨q, hw, by rw [writeTo, h, hq]⟩

theorem devices_tick (h : b.devices = p.devices) : b.tick.devices = p.tick.devices := by
  rw [tick, h, p.map_tick_devices]

theorem devices_scan (h : b.devices = p.devices) : b.scan.devices = p.scan.devices := by
  rw [scan, h, p.map_scan_devices]

theorem devices_mapUart (h : b.devices = p.devices) (f : Uart → Uart) :
    (b.mapUart f).devices = { p with uart := f p.uart }.devices := by
  rw [mapUart, h, p.map_uart_devices]

theorem devices_receive (h : b.devices = p.devices) (bytes : List UInt8) :
    (b.receive bytes).devices = (p.receive bytes).devices :=
  devices_mapUart h (·.receive bytes)

end Bus

theorem Peripherals.devices_attached (p : Peripherals) (memory : Memory) :
    (p.devices.foldl Bus.attach (.ofMemory memory)).devices = p.devices := by
  have htags : DeviceSelect.vga.index = 1 ∧ DeviceSelect.uart.index = 2 ∧
      DeviceSelect.timer.index = 3 := by decide
  obtain ⟨vga, uart, timer⟩ := p
  apply Bus.devices_foldl_attach (Bus.registered_ofMemory memory)
  · cases vga <;> simp [devices, Device.select, htags]
  · simp [Bus.ofMemory]
  · cases vga <;> simp [devices, Device.select, htags]

/-- An edge writes at most one register, and then the devices tick. -/
theorem Soc.devices_edge {s : Soc} {p : Peripherals} (h : s.bus.devices = p.devices) (w : Wires) :
    ∃ q, p.Written q ∧ (s.edge w).1.bus.devices = q.tick.devices := by
  have hstore : ∀ i o route, ∃ q, p.Written q ∧ (store s.bus i o route).devices = q.devices := by
    intro i o route
    rw [store]
    split
    · exact Bus.devices_writeTo h _ _ _
    · exact ⟨p, .refl p, h⟩
  obtain ⟨q, hw, hq⟩ := hstore (s.inputs w) (s.core.outputs (s.inputs w))
    (s.bus.route (s.core.outputs (s.inputs w)).effectiveAddress)
  exact ⟨q, hw, Bus.devices_tick hq⟩

theorem Machine.devices_clocked {m : Machine} {p : Peripherals}
    (h : m.soc.bus.devices = p.devices) :
    m.clocked.bus.devices = p.devices ∨
      ∃ q, p.Written q ∧ m.clocked.bus.devices = q.tick.devices := by
  rw [Machine.clocked]
  split
  · exact .inr (Soc.devices_edge h m.beginStep.wires)
  · exact .inl h

theorem Machine.devices_standardBus (c : Config) (memory : Memory) :
    (standardBus c memory).devices = (Peripherals.initial c).devices := by
  have hlist : standardDevices c = (Peripherals.initial c).devices := by
    simp only [standardDevices, Peripherals.initial, Peripherals.devices]
    cases c.devices.vga.enabled <;> rfl
  rw [standardBus, hlist]
  exact (Peripherals.initial c).devices_attached memory

end RiscvSoc
