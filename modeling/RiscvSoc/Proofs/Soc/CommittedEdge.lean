import RiscvSoc.Proofs.Soc.CoreSide
import RiscvSoc.Proofs.Soc.RetiredEdge
import RiscvSoc.Proofs.Soc.Stores

/-! The edges outside reset, and what each of them counts for. An edge retires an instruction or
enters a handler, and it makes at most one access that is counted: a retired store, to memory or to
a device, or the address of a load that goes to a device. -/

namespace RiscvSoc

namespace Transition

def isException : Transition → Bool
  | .exception _ => true
  | _ => false

def isInterrupt : Transition → Bool
  | .interrupt _ => true
  | _ => false

def isReturn : Transition → Bool
  | .trapReturn => true
  | _ => false

end Transition

theorem Instruction.isLoad_of_takesData {ins : Instruction} (h : ins.takesData = true) :
    ins.isLoad = true := by
  cases ins with
  | load => rfl
  | _ => cases h

namespace Csr

/-- The registers that set a half of one of the two counters. -/
def ofCounters : List Csr :=
  [.mcycle, .mcycleh, .minstret, .minstreth]

end Csr

/-- An edge of the core's clock outside reset: the state that it finds and the wires that it
samples. -/
structure CommittedEdge where
  soc : Soc
  wires : Wires
  released : wires.reset = false

namespace CommittedEdge

variable (e : CommittedEdge)

def report : EdgeReport :=
  (e.soc.edge e.wires).2.1

def traffic : Traffic :=
  (e.soc.edge e.wires).2.2

def instruction : Instruction :=
  .decode e.wires.instruction

def route : Route :=
  e.soc.bus.route (e.soc.core.outputs (e.soc.inputs e.wires)).effectiveAddress

def storeRoute? : Option Route :=
  (e.soc.retiredStore? e.wires).map fun st => e.soc.bus.route st.address

def storesToMemory : Bool :=
  e.storeRoute?.any (!·.isPeripheral)

def storesToDevice : Bool :=
  e.storeRoute?.any (·.isPeripheral)

/-- The edge retires a load of one of the five access sizes, from a device. -/
def loadsDevice : Bool :=
  e.soc.commitsLoad e.wires && e.route.isPeripheral

/-- The edge shows a device the address of a load, but writes nothing back: a handler preempts the
load, or no access size belongs to it. -/
def straysToDevice : Bool :=
  e.instruction.isLoad && !e.soc.commitsLoad e.wires && e.route.isPeripheral

/-- The write to a control and status register that the edge commits. -/
def csrWrite? : Option (UInt32 × UInt32) :=
  if e.report.retired then (e.soc.core.effect (e.soc.inputs e.wires)).csrWrite else none

def writesCounter : Bool :=
  e.csrWrite?.any (·.1 ∈ Csr.ofCounters.map Csr.address)

theorem report_eq :
    e.report =
      { retired := !e.soc.enters e.wires
        transition := (e.soc.core.trapInputs (e.soc.inputs e.wires)).transition } :=
  Soc.report_edge e.released

/-- An edge retires an instruction, takes an exception, or takes an interrupt. -/
theorem one_kind :
    (if e.report.retired then 1 else 0) + (if e.report.transition.isException then 1 else 0) +
      (if e.report.transition.isInterrupt then 1 else 0) = 1 := by
  rw [report_eq, Soc.enters]
  cases (e.soc.core.trapInputs (e.soc.inputs e.wires)).transition <;> rfl

theorem retired_of_isReturn (h : e.report.transition.isReturn = true) :
    e.report.retired = true := by
  rw [report_eq] at h ⊢
  rw [Soc.enters]
  cases ht : (e.soc.core.trapInputs (e.soc.inputs e.wires)).transition with
  | trapReturn => rfl
  | _ =>
    rw [ht] at h
    cases h

theorem loads_or_strays :
    (e.loadsDevice || e.straysToDevice) = (e.instruction.isLoad && e.route.isPeripheral) := by
  have hload : e.soc.commitsLoad e.wires = true → e.instruction.isLoad = true := by
    rw [Soc.commitsLoad, Bool.and_eq_true]
    rintro ⟨-, hdata⟩
    exact Instruction.isLoad_of_takesData hdata
  rw [loadsDevice, straysToDevice]
  cases hcommits : e.soc.commitsLoad e.wires with
  | true => simp [hload hcommits]
  | false => simp

theorem storeRoute?_eq :
    e.storeRoute? =
      if e.instruction.isStore && e.report.retired then some e.route else none := by
  rw [storeRoute?, Soc.retiredStore?]
  exact apply_ite (Option.map _) _ _ _

private theorem traffic_eq :
    e.traffic =
      if e.instruction.isStore && e.report.retired then
        if e.route.isPeripheral then .deviceWrite else .memoryWrite
      else if e.instruction.isLoad && e.route.isPeripheral then .deviceRead
      else .none := by
  have hreset : (e.soc.inputs e.wires).reset = false := e.released
  have hretired : e.report.retired = !e.soc.enters e.wires := by rw [report_eq]
  rw [hretired, instruction, ← Soc.writeEnable_outputs e.released]
  simp only [traffic, Soc.edge, Soc.traffic, hreset, Bool.false_eq_true, if_false]
  rfl

/-- An edge writes what it retires a store for, on the route of the store. It reads what a load goes
to, retired or stray. -/
theorem traffic_iff :
    (e.traffic = .memoryWrite ↔ e.storesToMemory = true) ∧
      (e.traffic = .deviceWrite ↔ e.storesToDevice = true) ∧
      (e.traffic = .deviceRead ↔ (e.loadsDevice || e.straysToDevice) = true) := by
  have hload : e.instruction.isStore = true → e.instruction.isLoad = false := by
    intro hstore
    cases hins : e.instruction with
    | store => rfl
    | _ =>
      rw [hins] at hstore
      cases hstore
  rw [traffic_eq, loads_or_strays, storesToMemory, storesToDevice, storeRoute?_eq]
  cases hstore : e.instruction.isStore && e.report.retired with
  | false => cases e.instruction.isLoad && e.route.isPeripheral <;> simp
  | true =>
    rw [hload (Bool.and_eq_true_iff.mp hstore).1]
    cases hroute : e.route.isPeripheral <;> simp [hroute]

/-- An edge that writes no counter retires an instruction that asks for no such write. -/
private theorem csrRequest_eq_none (h : e.writesCounter = false) (hretired : e.report.retired = true)
    {r : Csr} (hr : r ∈ Csr.ofCounters) :
    e.soc.core.csrRequest e.soc.lines.flag (.decode e.wires.instruction) r = none := by
  rw [writesCounter, csrWrite?, if_pos hretired, Option.any_eq_false] at h
  rw [Option.eq_none_iff_forall_ne_some]
  intro v hrequest
  have hwrite := h _ (e.soc.core.csrWrite_of_request e.wires.readData _ hrequest)
  exact of_decide_eq_false hwrite (List.mem_map_of_mem hr)

/-- The core counts each edge and each retired instruction, unless an instruction sets a counter. -/
theorem counters_core (h : e.writesCounter = false) :
    (e.soc.edge e.wires).1.core.csrs.mcycle = e.soc.core.csrs.mcycle + 1 ∧
      (e.soc.edge e.wires).1.core.csrs.minstret =
        e.soc.core.csrs.minstret + if e.report.retired then 1 else 0 := by
  cases henters : e.soc.enters e.wires with
  | true =>
    obtain ⟨cause, hp⟩ := Soc.preempts_of_enters e.released henters
    have hretired : e.report.retired = false := hp.retired
    rw [hp.csrs, hretired]
    exact ⟨rfl, (UInt64.add_zero _).symm⟩
  | false =>
    have hr := Soc.retires_of_not_enters e.released henters
    have hretired : e.report.retired = true := hr.retired
    have hrequest := fun r => e.csrRequest_eq_none (r := r) h hretired
    rw [hr.csrs.mcycle, hr.csrs.minstret, hrequest .mcycle (by decide),
      hrequest .mcycleh (by decide), hrequest .minstret (by decide),
      hrequest .minstreth (by decide), hretired]
    -- A return changes the status register and neither of the counters.
    split <;> simp

end CommittedEdge

end RiscvSoc
