import RiscvSoc.Proofs.Core.CsrFile

/-! What a retired instruction leaves in the control and status registers: the legal form of the
value that it asks for in the register that it names, the old values in all others, and one more in
both counters. The cycle is counted before the write and the instruction after it. -/

namespace RiscvSoc

def ofHalves (high low : UInt32) : UInt64 :=
  .ofNat (2 ^ 32 * high.toNat + low.toNat)

theorem toNat_ofHalves (high low : UInt32) :
    (ofHalves high low).toNat = 2 ^ 32 * high.toNat + low.toNat := by
  have hhigh := high.toNat_lt
  have hlow := low.toNat_lt
  rw [ofHalves, UInt64.toNat_ofNat']
  omega

theorem withLowHalf_eq (x : UInt64) (v : UInt32) : withLowHalf x v = ofHalves (highHalf x) v := by
  rw [← UInt64.toNat_inj, toNat_withLowHalf, toNat_ofHalves, toNat_highHalf]

theorem withHighHalf_eq (x : UInt64) (v : UInt32) : withHighHalf x v = ofHalves v (lowHalf x) := by
  rw [← UInt64.toNat_inj, toNat_withHighHalf, toNat_ofHalves, toNat_lowHalf]

@[simp] theorem ofHalves_halves (x : UInt64) : ofHalves (highHalf x) (lowHalf x) = x := by
  rw [← withLowHalf_eq, withLowHalf_lowHalf]

def Csr.isCounter (r : Csr) : Bool :=
  match r.home with
  | .mcycle | .mcycleh | .minstret | .minstreth => true
  | _ => false

/-- From `before` to `after` an instruction has retired that asks for the writes `request`. -/
structure Csrs.Retired (request : Csr → Option UInt32) (before after : Csrs) : Prop where
  plain : ∀ pending (r : Csr), r.isCounter = false →
    after.get pending r =
      match request r with
      | some v => r.legal v
      | none => before.get pending r
  mcycle : after.mcycle =
    ofHalves ((request .mcycleh).getD (highHalf (before.mcycle + 1)))
      ((request .mcycle).getD (lowHalf (before.mcycle + 1)))
  minstret : after.minstret =
    ofHalves ((request .minstreth).getD (highHalf before.minstret))
      ((request .minstret).getD (lowHalf before.minstret)) + 1

namespace Core

theorem retired_nothing (c : Csrs) :
    Csrs.Retired (fun _ => none) c (countRetired (countCycle c)) := by
  refine ⟨fun pending r hr => ?_, ?_, ?_⟩
  · cases r <;> first | rfl | cases hr
  · exact (ofHalves_halves _).symm
  · exact congrArg (· + 1) (ofHalves_halves _).symm

theorem retired_set (c : Csrs) (v : UInt32) {r : Csr} (hr : r.isWritable = true) :
    Csrs.Retired (fun s => if s = r then some v else none) c
      (countRetired ((countCycle c).set v r)) := by
  refine ⟨fun pending s hs => ?_, ?_, ?_⟩
  · have hcounted : (countRetired ((countCycle c).set v r)).get pending s =
        ((countCycle c).set v r).get pending s := by
      cases s <;> first | rfl | cases hs
    have hhome : s.home = s := by
      cases s <;> first | rfl | cases hs
    rw [hcounted]
    by_cases h : s = r
    · subst h
      rw [if_pos rfl, Csrs.get_set _ _ _ hr]
    · rw [if_neg h, Csrs.get_set_of_ne _ _ _ fun hr => h (hhome.symm.trans hr)]
      cases s <;> first | rfl | cases hs
  · cases r with
    | mcycle => exact withLowHalf_eq _ v
    | mcycleh => exact withHighHalf_eq _ v
    | _ => exact (ofHalves_halves _).symm
  · cases r with
    | minstret => exact congrArg (· + 1) (withLowHalf_eq _ v)
    | minstreth => exact congrArg (· + 1) (withHighHalf_eq _ v)
    | _ => exact congrArg (· + 1) (ofHalves_halves _).symm

/-- The value that an instruction asks to be written to a register, if it asks for one. Setting and
clearing with a zero source field ask for none. -/
def csrRequest (c : Core) (flag : UInt32) : Instruction → Csr → Option UInt32
  | .csr access _ source address, r =>
    if r.address = address ∧ r.isWritable = true then
      let operand := if access.immediate then .ofBitVec (source.setWidth 32) else c.reg source
      match access.update with
      | .write => some operand
      | .set => if source = 0 then none else some (c.csrs.get flag r ||| operand)
      | .clear => if source = 0 then none else some (c.csrs.get flag r &&& ~~~operand)
    else none
  | _, _ => none

variable (c : Core) (d flag : UInt32)

/-- An access asks for what its operation makes of the old value, in the register at its address. -/
private theorem csrRequest_access (access : CsrAccess) (rd source : RegIndex) {r : Csr}
    (hr : r.isWritable = true) (s : Csr) :
    c.csrRequest flag (.csr access rd source r.address) s =
      if s = r then
        access.apply (c.csrs.get flag r)
          (if access.immediate then .ofBitVec (source.setWidth 32) else c.reg source) (source != 0)
      else none := by
  have haddress : s.address = r.address ↔ s = r := by
    refine ⟨fun h => ?_, congrArg _⟩
    have hfound := s.ofAddress?_address
    rw [h, r.ofAddress?_address] at hfound
    exact (Option.some.inj hfound).symm
  by_cases hs : s = r
  · subst hs
    obtain ⟨update, immediate⟩ := access
    by_cases hzero : source = 0 <;> cases update <;>
      simp [csrRequest, CsrAccess.apply, hr, hzero]
  · rw [csrRequest, if_neg fun h => hs (haddress.mp h.1), if_neg hs]

private theorem writeCsr_ignored (file : Csrs) {address : UInt32} (value : Option UInt32)
    (h : ¬ ∃ r : Csr, r.address = address ∧ r.isWritable = true) :
    writeCsr file (csrTarget address value) = file := by
  rw [csrTarget]
  split
  · rfl
  · cases value with
    | none => rfl
    | some v =>
      show file.write address v = file
      rcases file.write_eq address v with hnone | ⟨r, hr, hset⟩
      · exact hnone
      · rw [hset]
        exact file.set_of_not_isWritable v (Bool.eq_false_iff.mpr fun hw => h ⟨r, hr, hw⟩)

/-- An instruction asks for the write that reaches the register file, or for none, and then the file
stays as it is. -/
theorem csrRequest_cases (ins : Instruction) :
    ((∀ r, c.csrRequest flag ins r = none) ∧
        ∀ file, writeCsr file (c.execute d flag ins).csrWrite = file) ∨
      ∃ r v, r.isWritable = true ∧
        (c.execute d flag ins).csrWrite = some (Csr.address r, v) ∧
        ∀ s, c.csrRequest flag ins s = if s = r then some v else none := by
  cases ins with
  | csr access rd source address =>
    have hwrite : (c.execute d flag (.csr access rd source address)).csrWrite =
        csrTarget address (access.apply (c.csrs.read address flag)
          (if access.immediate then .ofBitVec (source.setWidth 32) else c.reg source)
          (source != 0)) := rfl
    by_cases h : ∃ r : Csr, r.address = address ∧ r.isWritable = true
    · obtain ⟨r, rfl, hr⟩ := h
      have hrequest := c.csrRequest_access flag access rd source hr
      rw [Csrs.read, r.ofAddress?_address, csrTarget, Csr.not_isReadOnlyCsr hr,
        if_neg Bool.false_ne_true] at hwrite
      cases happly : access.apply (c.csrs.get flag r)
          (if access.immediate then .ofBitVec (source.setWidth 32) else c.reg source)
          (source != 0) with
      | none =>
        refine .inl ⟨fun s => ?_, fun file => ?_⟩
        · rw [hrequest, happly, ite_self]
        · rw [hwrite, happly]
          rfl
      | some v =>
        refine .inr ⟨r, v, hr, ?_, fun s => ?_⟩
        · rw [hwrite, happly]
          rfl
        · rw [hrequest, happly]
    · refine .inl ⟨fun r => if_neg fun hr => h ⟨r, hr⟩, fun file => ?_⟩
      rw [hwrite, writeCsr_ignored file _ h]
  | _ => exact .inl ⟨fun r => rfl, fun file => rfl⟩

/-- The registers after an instruction has been counted, with its write between the two counts. -/
theorem retired_csrRequest (ins : Instruction) :
    Csrs.Retired (c.csrRequest flag ins) c.csrs
      (countRetired (writeCsr (countCycle c.csrs) (c.execute d flag ins).csrWrite)) := by
  rcases c.csrRequest_cases d flag ins with ⟨hnone, hfile⟩ | ⟨r, v, hr, hwrite, hrequest⟩
  · rw [hfile, funext hnone]
    exact retired_nothing c.csrs
  · rw [hwrite, funext hrequest, writeCsr, Csrs.write, r.ofAddress?_address]
    exact retired_set c.csrs v hr

theorem csrWrite_of_request {ins : Instruction} {r : Csr} {v : UInt32}
    (h : c.csrRequest flag ins r = some v) :
    (c.execute d flag ins).csrWrite = some (r.address, v) := by
  rcases c.csrRequest_cases d flag ins with ⟨hnone, -⟩ | ⟨s, x, -, hwrite, hrequest⟩
  · rw [hnone] at h
    cases h
  · rw [hrequest, Option.ite_none_right_eq_some] at h
    obtain ⟨rfl, h⟩ := h
    rw [hwrite, Option.some.inj h]

end Core

end RiscvSoc
