import Mathlib.Tactic.SplitIfs
import RiscvSoc.Proofs.Core.Commit
import RiscvSoc.Proofs.Soc.Cycle

/-! The core's side of the machine: everything but the scan of the display controller, its timing and
the flag that it sends to the core. A scan does not show on the core's side. An edge does not bring
the scan over, unless a load of the status register writes back. -/

namespace RiscvSoc

namespace Vga

/-- The controller with the scan taken out of it. -/
def still (g : Vga) : Vga :=
  { g with timing := .standard, position := .origin, vblankRaw := false, vblank := ⟨[]⟩ }

theorem still_eq_iff {g g' : Vga} :
    g.still = g'.still ↔ g.control = g'.control ∧ g.upload = g'.upload ∧
      g.picture = g'.picture ∧ g.palette = g'.palette := by
  simp [still]

variable (g : Vga) (offset value : UInt32)

theorem still_write : (g.write offset value).still = g.still.write offset value := by
  simp only [write]
  split_ifs
  · rfl
  · rfl
  · rfl
  · cases paletteIndex? offset <;> rfl

theorem still_tick : g.tick.still = g.still.tick.still := rfl

theorem still_scan : g.scan.still = g.still := rfl

/-- Only the status register shows anything of the scan. -/
theorem read_still (h : offset ≠ 0) : g.still.read offset = g.read offset := by
  simp only [read, if_neg h]
  rfl

end Vga

namespace Device

variable (d : Device) (offset value : UInt32)

def still (d : Device) : Device :=
  d.mapVga Vga.still

@[simp] theorem still_write : (d.write offset value).still = d.still.write offset value := by
  cases d with
  | vga g => exact congrArg Device.vga (g.still_write offset value)
  | _ => rfl

@[simp] theorem still_mapVga_scan : (d.mapVga Vga.scan).still = d.still := by
  cases d <;> rfl

theorem still_tick : d.tick.still = d.still.tick.still := by
  cases d <;> rfl

@[simp] theorem select_still : d.still.select = d.select := by
  cases d <;> rfl

@[simp] theorem irq?_still : d.still.irq? = d.irq? := by
  cases d <;> rfl

@[simp] theorem timer?_still : d.still.timer? = d.timer? := by
  cases d <;> rfl

@[simp] theorem uart?_still : d.still.uart? = d.uart? := by
  cases d <;> rfl

@[simp] theorem vga?_still : d.still.vga? = d.vga?.map Vga.still := by
  cases d <;> rfl

theorem read_still (h : offset = 0 → d.vga? = none) : d.still.read offset = d.read offset := by
  cases d with
  | vga g =>
    have hne : offset ≠ 0 := fun hzero => Option.some_ne_none g (h hzero)
    exact g.read_still offset hne
  | _ => rfl

end Device

namespace Bus

variable (b : Bus)

def still (b : Bus) : Bus :=
  { b with devices := b.devices.map Device.still }

/-- An access goes to the status register of a display controller. -/
def readsStatus (b : Bus) (a : EffectiveAddress) : Bool :=
  match b.route a with
  | .memory _ => false
  | .peripheral index offset => offset == 0 && (b.devices[index]?.bind Device.vga?).isSome

@[simp] theorem memory_still : b.still.memory = b.memory := rfl

@[simp] theorem route_still (a : EffectiveAddress) : b.still.route a = b.route a := rfl

@[simp] theorem readsStatus_still (a : EffectiveAddress) : b.still.readsStatus a = b.readsStatus a := by
  rw [readsStatus, readsStatus, route_still]
  cases b.route a with
  | memory address => rfl
  | peripheral index offset =>
    simp only [still, List.getElem?_map]
    cases b.devices[index]? with
    | none => rfl
    | some d => simp

/-- Memory answers at address zero, so that no status register does. -/
theorem readsStatus_zero {b : Bus} (h : b.owners[0] = none) : b.readsStatus ⟨0⟩ = false := by
  have howner : b.owner? (EffectiveAddress.mk 0).select = none := h
  rw [readsStatus, route, howner]

theorem still_writeTo (data : UInt32) (strobe : Strobe) (r : Route) :
    (b.writeTo data strobe r).still = b.still.writeTo data strobe r := by
  cases r with
  | memory address => rfl
  | peripheral index offset =>
    have hdevices : (b.devices.modify index (·.write offset data)).map Device.still =
        (b.devices.map Device.still).modify index (·.write offset data) := by
      apply List.ext_getElem?
      intro j
      rw [List.getElem?_map, List.getElem?_modify, List.getElem?_modify, List.getElem?_map]
      cases b.devices[j]? with
      | none => rfl
      | some d => by_cases hj : index = j <;> simp [hj]
    rw [still, still, writeTo, writeTo, hdevices]

theorem still_tick : b.tick.still = b.still.tick.still := by
  simp only [still, tick, List.map_map, mk.injEq, true_and, and_true]
  exact List.map_congr_left fun d _ => d.still_tick

@[simp] theorem still_scan : b.scan.still = b.still := by
  simp only [still, scan, List.map_map, Function.comp_def, Device.still_mapVga_scan]

theorem still_attach (d : Device) : (b.attach d).still = b.still.attach d.still := by
  have haccepts : b.still.accepts d.still = b.accepts d := by
    rw [accepts, accepts, Device.select_still]
    rfl
  rw [attach, attach, haccepts]
  split
  · simp only [still, List.map_append, List.map_cons, List.map_nil, Device.select_still,
      List.length_map]
  · rfl

/-- What the bus looks like from the core's side depends on what its devices look like from there. -/
theorem still_foldl_attach (ds : List Device) :
    (ds.foldl attach b).still = (ds.map Device.still).foldl attach b.still := by
  induction ds generalizing b with
  | nil => rfl
  | cons d ds ih =>
    rw [List.foldl_cons, ih, still_attach, List.map_cons, List.foldl_cons]

@[simp] theorem irqSignals_still : b.still.irqSignals = b.irqSignals := by
  simp only [irqSignals, still, List.filterMap_map, Function.comp_def, Device.irq?_still]

@[simp] theorem timer?_still : b.still.timer? = b.timer? := by
  simp only [timer?, still, List.findSome?_map, Function.comp_def, Device.timer?_still]

@[simp] theorem uart?_still : b.still.uart? = b.uart? := by
  simp only [uart?, still, List.findSome?_map, Function.comp_def, Device.uart?_still]

@[simp] theorem vga?_still : b.still.vga? = b.vga?.map Vga.still := by
  simp only [vga?, still, List.findSome?_map, Function.comp_def, Device.vga?_still,
    List.map_findSome?]

/-- A read that misses the status register cannot tell where the scan is. -/
theorem read_still {a : EffectiveAddress} (h : b.readsStatus a = false) :
    b.still.read a = b.read a := by
  rw [readsStatus] at h
  rw [read, read, route_still]
  cases hr : b.route a with
  | memory address => rfl
  | peripheral index offset =>
    simp only [still, List.getElem?_map, Option.map_map]
    cases hd : b.devices[index]? with
    | none => rfl
    | some d =>
      refine congrArg (Option.getD · 0) (congrArg some (d.read_still offset fun hzero => ?_))
      simpa [hr, hd, hzero] using h

end Bus

namespace Instruction

/-- Loads of the five access sizes; they alone look at the data wire. -/
def takesData : Instruction → Bool
  | .load .. => true
  | _ => false

end Instruction

namespace Core

variable (c : Core) (i : CoreInputs)

theorem execute_of_not_takesData {ins : Instruction} (h : ins.takesData = false)
    (d d' flag : UInt32) : c.execute d flag ins = c.execute d' flag ins := by
  cases ins with
  | load => cases h
  | _ => rfl

/-- An edge looks at the data wire only to retire a load. -/
theorem clockEdge_readData (d : UInt32)
    (h : ((c.clockEdge i).2.retired && (Instruction.decode i.instruction).takesData) = false) :
    c.clockEdge { i with readData := d } = c.clockEdge i := by
  rcases Bool.eq_false_or_eq_true i.reset with hr | hr
  · simp only [clockEdge, hr, if_true]
  rcases Bool.eq_false_or_eq_true i.instructionValid with hv | hv
  · cases hent : (c.trapInputs i).transition.entersHandler with
    | true =>
      obtain ⟨cause, hcause⟩ := Transition.entersHandler_iff.mp hent
      rw [clockEdge_of_cause hr hv hcause]
      exact clockEdge_of_cause (i := { i with readData := d }) hr hv hcause
    | false =>
      rw [clockEdge_of_valid hr hv] at h ⊢
      have hload : (Instruction.decode i.instruction).takesData = false := by
        simpa [hent] using h
      have heffect : c.effect { i with readData := d } = c.effect i :=
        c.execute_of_not_takesData hload _ _ _
      rw [clockEdge_of_valid (i := { i with readData := d }) hr hv, plan_eq, plan_eq, heffect]
      rfl
  · simp only [clockEdge, hr, hv, Bool.false_eq_true, if_false]

end Core

namespace Soc

variable {s s₁ s₂ : Soc} {w w₁ w₂ : Wires}

def still (s : Soc) : Soc :=
  { s with bus := s.bus.still }

def commitsLoad (s : Soc) (w : Wires) : Bool :=
  (s.edge w).2.1.retired && (Instruction.decode w.instruction).takesData

/-- An edge retires a load of the status register of a display controller. -/
def loadsStatus (s : Soc) (w : Wires) : Bool :=
  s.commitsLoad w && s.bus.readsStatus (s.core.outputs (s.inputs w)).effectiveAddress

theorem owners_still (s : Soc) : s.still.bus.owners = s.bus.owners := rfl

theorem still_scanned (s : Soc) : s.scanned.still = s.still := by
  simp only [still, scanned, Bus.still_scan]

theorem still_store (b : Bus) (i : CoreInputs) (o : CoreOutputs) (route : Route) :
    (store b i o route).still = store b.still i o route := by
  rw [store, store]
  split
  · exact b.still_writeTo _ _ _
  · rfl

/-- An edge of the core's side is an edge of the whole, seen from the core's side. -/
theorem still_edge (s : Soc) (w : Wires) : (s.still.edge w).1.still = (s.edge w).1.still := by
  let i := s.inputs w
  let o := s.core.outputs i
  let b := store s.bus i o (s.bus.route o.effectiveAddress)
  have hbus : (s.still.edge w).1.bus = b.still.tick :=
    congrArg Bus.tick (still_store s.bus i o _).symm
  have hstill : (s.still.edge w).1.bus.still = (s.edge w).1.bus.still := by
    rw [hbus]
    exact b.still_tick.symm
  have hlines : (s.still.edge w).1.lines = (s.edge w).1.lines := by
    let l := s.lines.acknowledgeTaken (s.core.clockEdge i).2.transition.takenSource?
    have hsignals : (s.still.edge w).1.bus.irqSignals = (s.edge w).1.bus.irqSignals := by
      rw [← Bus.irqSignals_still, hstill, Bus.irqSignals_still]
    exact congrArg l.sample hsignals
  rw [still, still, mk.injEq]
  exact ⟨rfl, hstill, hlines⟩

theorem edge_readData (s : Soc) (w : Wires) (d : UInt32) (h : s.commitsLoad w = false) :
    (s.edge { w with readData := d }).1 = (s.edge w).1 := by
  have hcore : s.core.clockEdge { s.inputs w with readData := d } =
      s.core.clockEdge (s.inputs w) := s.core.clockEdge_readData (s.inputs w) d h
  have houtputs : s.core.outputs { s.inputs w with readData := d } = s.core.outputs (s.inputs w) :=
    s.core.outputs_readData (s.inputs w) d
  have hinputs : s.inputs { w with readData := d } = { s.inputs w with readData := d } := rfl
  simp only [edge, hinputs, hcore, houtputs]
  rfl

/-- Edges of machines with the same core's side leave the same core's side behind, if they sample
the same wires, or if they differ in the data wire and no load looks at it. -/
theorem still_edge_eq (h : s₁.still = s₂.still) (hreset : w₁.reset = w₂.reset)
    (hinstruction : w₁.instruction = w₂.instruction)
    (hdata : s₁.commitsLoad w₁ = true → w₁.readData = w₂.readData) :
    (s₁.edge w₁).1.still = (s₂.edge w₂).1.still := by
  have hwires : (s₁.edge { w₁ with readData := w₂.readData }).1 = (s₁.edge w₁).1 := by
    cases hload : s₁.commitsLoad w₁ with
    | true => rw [← hdata hload]
    | false => exact s₁.edge_readData w₁ w₂.readData hload
  have hsame : s₂.edge { w₁ with readData := w₂.readData } = s₂.edge w₂ := by
    rw [edge, edge, inputs, inputs, hreset, hinstruction]
  calc (s₁.edge w₁).1.still
      = (s₁.still.edge { w₁ with readData := w₂.readData }).1.still := by rw [still_edge, hwires]
    _ = (s₂.edge w₂).1.still := by rw [h, still_edge, hsame]

theorem Settled.readData (h : s.Settled w) :
    w.readData = s.bus.read (s.core.outputs (s.inputs w)).effectiveAddress := by
  have hread : w.readData =
      s.bus.read (s.core.outputs (s.inputs { w with instruction := s.fetch })).effectiveAddress :=
    (congrArg Wires.readData h).symm
  rwa [← h.instruction] at hread

/-- With the same core's side, settled wires differ at most in the data that a read of the status
register finds. -/
theorem Settled.wires_eq (h₁ : s₁.Settled w₁) (h₂ : s₂.Settled w₂) (h : s₁.still = s₂.still)
    (hreset : w₁.reset = w₂.reset) :
    w₁.instruction = w₂.instruction ∧
      (s₁.bus.readsStatus (s₁.core.outputs (s₁.inputs w₁)).effectiveAddress = false →
        w₁.readData = w₂.readData) := by
  obtain ⟨hcore, hbus, hlines⟩ := mk.inj h
  have hmemory : s₁.bus.still.memory = s₂.bus.still.memory := congrArg Bus.memory hbus
  rw [Bus.memory_still, Bus.memory_still] at hmemory
  have hinstruction : w₁.instruction = w₂.instruction := by
    rw [h₁.instruction, h₂.instruction, fetch, fetch, hcore, hmemory]
  refine ⟨hinstruction, fun hstatus => ?_⟩
  have hinputs : s₂.inputs w₂ = { s₁.inputs w₁ with readData := w₂.readData } := by
    rw [inputs, inputs, hreset, hinstruction, hlines]
  have houtputs : s₂.core.outputs (s₂.inputs w₂) = s₁.core.outputs (s₁.inputs w₁) := by
    rw [hinputs, Core.outputs_readData, hcore]
  have hstatus₂ : s₂.bus.readsStatus (s₁.core.outputs (s₁.inputs w₁)).effectiveAddress = false := by
    rwa [← Bus.readsStatus_still, ← hbus, Bus.readsStatus_still]
  rw [h₁.readData, h₂.readData, houtputs, ← Bus.read_still _ hstatus, ← Bus.read_still _ hstatus₂,
    hbus]

end Soc

end RiscvSoc
