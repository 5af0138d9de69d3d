import RiscvSoc.Core.Edge

/-! What the output wires of the core depend on. The data wire reaches only the value that a load
writes back, so driving it from the outputs closes no loop; the interrupt flag vector reaches only
the write enable; and the vector sampled on the last edge reaches only the debug view of the pending
register. -/

namespace RiscvSoc

theorem EffectiveAddress.combine_ofAddress (a : UInt32) : combine (.ofAddress a) a = ⟨a⟩ := by
  have hseven : (7 : UInt8).toNat = 2 ^ 3 - 1 := rfl
  have hmask : deviceMask.toNat = 2 ^ 29 - 1 := rfl
  have hshift : deviceShift.toNat % 32 = 29 := rfl
  have ha := a.toNat_lt
  have hq : a.toNat / 2 ^ 29 % 2 ^ 8 % 2 ^ 3 = a.toNat / 2 ^ 29 := by omega
  have hl : a.toNat / 2 ^ 29 * 2 ^ 29 % 2 ^ 32 = 2 ^ 29 * (a.toNat / 2 ^ 29) := by omega
  rw [combine, mk.injEq, ← UInt32.toNat_inj]
  simp only [DeviceSelect.ofAddress, DeviceSelect.index, UInt32.toNat_or, UInt32.toNat_shiftLeft,
    UInt32.toNat_and, UInt8.toNat_toUInt32, UInt8.toNat_and, UInt32.toNat_toUInt8,
    UInt32.toNat_shiftRight, hseven, hmask, hshift, Nat.and_two_pow_sub_one_eq_mod,
    Nat.shiftRight_eq_div_pow, Nat.shiftLeft_eq, hq, hl]
  rw [← Nat.two_pow_add_eq_or_of_lt (Nat.mod_lt _ (by decide)), Nat.div_add_mod]

def CoreOutputs.withWriteEnable (o : CoreOutputs) (writeEnable : Bool) : CoreOutputs :=
  { o with data := { o.data with writeEnable } }

theorem CoreOutputs.effectiveAddress_fetching (a : UInt32) :
    (fetching a).effectiveAddress = ⟨0⟩ := by
  change EffectiveAddress.combine .memory 0 = ⟨0⟩
  decide

namespace Core

variable (c : Core)

theorem effectiveAddress_outputs (i : CoreInputs) :
    (c.outputs i).effectiveAddress = ⟨(c.outputs i).data.address⟩ := by
  unfold outputs
  split
  · exact CoreOutputs.effectiveAddress_fetching _
  · split
    · exact EffectiveAddress.combine_ofAddress _
    · exact CoreOutputs.effectiveAddress_fetching _

/-- Under reset no access is made, and the address shown is zero. -/
theorem effectiveAddress_of_reset {i : CoreInputs} (h : i.reset = true) :
    (c.outputs i).effectiveAddress = ⟨0⟩ := by
  rw [outputs, if_pos h]
  exact CoreOutputs.effectiveAddress_fetching _

/-- No instruction takes its access from the data wire or the interrupt flag vector. -/
theorem execute_data_eq (d d' flag flag' : UInt32) (ins : Instruction) :
    (c.execute d flag ins).data = (c.execute d' flag' ins).data := by
  cases ins <;> rfl

/-- The outputs are settled before the data wire is. -/
theorem outputs_readData (i : CoreInputs) (d : UInt32) :
    c.outputs { i with readData := d } = c.outputs i := by
  have hdata := c.execute_data_eq d i.readData i.interruptFlag i.interruptFlag
  simp only [outputs, plan, Plan.outputs, hdata]

/-- Of the outputs, only the write enable waits for the interrupt flag vector. -/
theorem outputs_readData_flag (i : CoreInputs) (d flag : UInt32) :
    let o := c.outputs { i with readData := d, interruptFlag := flag }
    o = (c.outputs i).withWriteEnable o.data.writeEnable := by
  have hdata := c.execute_data_eq d i.readData flag i.interruptFlag
  simp only [outputs]
  split
  · rfl
  · split
    · simp only [plan, Plan.outputs, CoreOutputs.withWriteEnable, hdata]
    · rfl

/-- Sampling the flag vector changes no plan: both halves of the core work from the same one. -/
theorem plan_pending (p : UInt32) (i : CoreInputs) : { c with pending := p }.plan i = c.plan i := by
  have hr : ({ c with pending := p } : Core).reg = c.reg := rfl
  cases h : Instruction.decode i.instruction <;> simp [plan, execute, trapCsrs, h, hr]

end Core

end RiscvSoc
