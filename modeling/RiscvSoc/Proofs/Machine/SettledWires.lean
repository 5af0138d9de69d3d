import RiscvSoc.Proofs.Machine.Cycles

/-! Settling closes no combinational loop. It hands stale data to the core to learn the address of
the next read, and nothing that the core drives depends on this data. So settling once is enough,
and the wires stay as they are on every step that brings neither an edge of the core's clock nor a
change of the reset wire. -/

namespace RiscvSoc.Machine

/-- The coming step brings no rising edge of the core's clock and keeps the level of reset. -/
structure Uneventful (m : Machine) : Prop where
  clock : m.coreClock.step.2 ≠ .rising
  reset : m.beginStep.wires.reset = m.wires.reset

instance : DecidablePred Uneventful := fun m =>
  decidable_of_iff
    (m.coreClock.step.2 ≠ .rising ∧ m.beginStep.wires.reset = m.wires.reset)
    ⟨fun ⟨clock, reset⟩ => ⟨clock, reset⟩, fun h => ⟨h.clock, h.reset⟩⟩

variable {m : Machine}

theorem settle_settle (m : Machine) : m.settle.settle = m.settle := by
  have h := m.soc.settled_settle m.wires
  rw [Soc.Settled] at h
  simp only [settle, h]

theorem wires_step (hs : m.soc.Settled m.wires) (hu : m.Uneventful) : m.step.1.wires = m.wires := by
  have hclocked : m.clocked = m.soc := if_neg hu.clock
  have hbegin : m.beginStep.wires = m.wires :=
    calc m.beginStep.wires = { m.wires with reset := m.beginStep.wires.reset } := rfl
      _ = m.wires := by rw [hu.reset]
  rw [m.steps_step.wires, hclocked, hbegin]
  exact hs

theorem wires_after (hs : m.soc.Settled m.wires) {n : Nat} (hu : ∀ k < n, (m.after k).Uneventful) :
    (m.after n).wires = m.wires ∧ (m.after n).soc.Settled (m.after n).wires := by
  induction n with
  | zero => exact ⟨rfl, hs⟩
  | succ n ih =>
    obtain ⟨hwires, hsettled⟩ := ih fun k hk => hu k (Nat.lt_succ_of_lt hk)
    exact ⟨(wires_step hsettled (hu n n.lt_succ_self)).trans hwires, (m.after n).settled_step⟩

/-- In every state of the core, two inputs that differ in the data wire alone give the same outputs,
and two that differ in the interrupt flag vector too give outputs that differ at most in the write
enable. Hence, in every state of the machine, settling twice is settling once; and after any step,
all wires stay as they are for as long as the steps are uneventful. -/
theorem no_combinational_loop :
    (∀ (c : Core) (i : CoreInputs) (d : UInt32),
        c.outputs { i with readData := d } = c.outputs i) ∧
      (∀ (c : Core) (i : CoreInputs) (d flag : UInt32), ∃ writeEnable,
        c.outputs { i with readData := d, interruptFlag := flag } =
          (c.outputs i).withWriteEnable writeEnable) ∧
      (∀ m : Machine, m.settle.settle = m.settle) ∧
      ∀ (m : Machine) (n : Nat), (∀ k < n, (m.step.1.after k).Uneventful) →
        (m.step.1.after n).wires = m.step.1.wires :=
  ⟨Core.outputs_readData, fun c i d flag => ⟨_, c.outputs_readData_flag i d flag⟩, settle_settle,
    fun m _ hu => (wires_after m.settled_step hu).1⟩

/-- With the standard clocks the first instruction retires on step six. The wires then carry the
second one, and three more steps leave them alone. -/
theorem no_combinational_loop_doubling :
    let m := (ofParts (.powerOn 0) (standardBus .standard doubling) .standard none none).after 5
    (∀ k < 3, (m.step.1.after k).Uneventful) ∧ m.step.1.wires.instruction = 0x001080B3 ∧
      (m.step.1.after 3).wires = m.step.1.wires := by
  intro m
  have hu : ∀ k < 3, (m.step.1.after k).Uneventful := by decide +kernel
  exact ⟨hu, by decide +kernel, no_combinational_loop.2.2.2 m 3 hu⟩

end RiscvSoc.Machine
