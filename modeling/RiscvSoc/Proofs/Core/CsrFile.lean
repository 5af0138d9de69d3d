import Mathlib.Algebra.Group.Nat.Defs
import RiscvSoc.Proofs.Core.Commit

/-! The laws between writing and reading a register: what was written is read back in its legal
form, no other register moves, and writing back what was read changes nothing if the register holds
a value that a write would keep. The counters are written by halves, and count over both. -/

namespace RiscvSoc

theorem toNat_lowHalf (x : UInt64) : (lowHalf x).toNat = x.toNat % 2 ^ 32 :=
  UInt64.toNat_toUInt32 x

theorem toNat_highHalf (x : UInt64) : (highHalf x).toNat = x.toNat / 2 ^ 32 := by
  have hshift : (32 : UInt64).toNat % 64 = 32 := rfl
  have hx := x.toNat_lt
  rw [highHalf, UInt64.toNat_toUInt32, UInt64.toNat_shiftRight, hshift, Nat.shiftRight_eq_div_pow]
  omega

theorem toNat_withLowHalf (x : UInt64) (v : UInt32) :
    (withLowHalf x v).toNat = 2 ^ 32 * (x.toNat / 2 ^ 32) + v.toNat := by
  have hshift : (32 : UInt64).toNat % 64 = 32 := rfl
  have hclear : x &&& (0xFFFFFFFF00000000 : UInt64) = (x >>> 32) <<< 32 :=
    UInt64.toBitVec_inj.mp (BitVec.shiftLeft_ushiftRight (x := x.toBitVec) (n := 32)).symm
  have hhigh : x.toNat / 2 ^ 32 * 2 ^ 32 < 2 ^ 64 := by
    have hx := x.toNat_lt
    omega
  rw [withLowHalf, hclear, UInt64.toNat_or, UInt64.toNat_shiftLeft, UInt64.toNat_shiftRight, hshift,
    Nat.shiftRight_eq_div_pow, Nat.shiftLeft_eq, UInt32.toNat_toUInt64, Nat.mod_eq_of_lt hhigh,
    Nat.mul_comm, Nat.two_pow_add_eq_or_of_lt v.toNat_lt]

theorem toNat_withHighHalf (x : UInt64) (v : UInt32) :
    (withHighHalf x v).toNat = 2 ^ 32 * v.toNat + x.toNat % 2 ^ 32 := by
  have hshift : (32 : UInt64).toNat % 64 = 32 := rfl
  have hmask : (0xFFFFFFFF : UInt64).toNat = 2 ^ 32 - 1 := rfl
  have hhigh : v.toNat * 2 ^ 32 < 2 ^ 64 := by
    have hv := v.toNat_lt
    omega
  rw [withHighHalf, UInt64.toNat_or, UInt64.toNat_and, hmask, UInt64.toNat_shiftLeft, hshift,
    Nat.and_two_pow_sub_one_eq_mod, Nat.shiftLeft_eq, UInt32.toNat_toUInt64,
    Nat.mod_eq_of_lt hhigh, Nat.or_comm, Nat.mul_comm,
    Nat.two_pow_add_eq_or_of_lt (Nat.mod_lt _ (by decide))]

@[simp] theorem lowHalf_withLowHalf (x : UInt64) (v : UInt32) :
    lowHalf (withLowHalf x v) = v := by
  have hv := v.toNat_lt
  rw [← UInt32.toNat_inj, toNat_lowHalf, toNat_withLowHalf]
  omega

@[simp] theorem highHalf_withLowHalf (x : UInt64) (v : UInt32) :
    highHalf (withLowHalf x v) = highHalf x := by
  have hv := v.toNat_lt
  rw [← UInt32.toNat_inj, toNat_highHalf, toNat_withLowHalf, toNat_highHalf]
  omega

@[simp] theorem lowHalf_withHighHalf (x : UInt64) (v : UInt32) :
    lowHalf (withHighHalf x v) = lowHalf x := by
  rw [← UInt32.toNat_inj, toNat_lowHalf, toNat_withHighHalf, toNat_lowHalf]
  omega

@[simp] theorem highHalf_withHighHalf (x : UInt64) (v : UInt32) :
    highHalf (withHighHalf x v) = v := by
  rw [← UInt32.toNat_inj, toNat_highHalf, toNat_withHighHalf]
  omega

@[simp] theorem withLowHalf_lowHalf (x : UInt64) : withLowHalf x (lowHalf x) = x := by
  rw [← UInt64.toNat_inj, toNat_withLowHalf, toNat_lowHalf]
  omega

@[simp] theorem withHighHalf_highHalf (x : UInt64) : withHighHalf x (highHalf x) = x := by
  rw [← UInt64.toNat_inj, toNat_withHighHalf, toNat_highHalf]
  omega

theorem lowHalf_add_one (x : UInt64) : lowHalf (x + 1) = lowHalf x + 1 := by
  have hone : (1 : UInt64).toNat = 1 := rfl
  have hone' : (1 : UInt32).toNat = 1 := rfl
  rw [← UInt32.toNat_inj, UInt32.toNat_add, toNat_lowHalf, toNat_lowHalf, UInt64.toNat_add, hone,
    hone']
  omega

theorem highHalf_add_one (x : UInt64) :
    highHalf (x + 1) = highHalf x + if lowHalf x = 0xFFFFFFFF then 1 else 0 := by
  have hone : (1 : UInt64).toNat = 1 := rfl
  have hone' : (1 : UInt32).toNat = 1 := rfl
  have hzero : (0 : UInt32).toNat = 0 := rfl
  have hfull : lowHalf x = 0xFFFFFFFF ↔ x.toNat % 2 ^ 32 = 2 ^ 32 - 1 := by
    rw [← UInt32.toNat_inj, toNat_lowHalf]
    rfl
  have hx := x.toNat_lt
  rw [← UInt32.toNat_inj, UInt32.toNat_add, toNat_highHalf, toNat_highHalf, UInt64.toNat_add, hone]
  by_cases h : lowHalf x = 0xFFFFFFFF
  · have hlow := hfull.mp h
    rw [if_pos h, hone']
    omega
  · have hlow := mt hfull.mpr h
    rw [if_neg h, hzero]
    omega

namespace Csr

/-- The register that an address shows; shadows show the counters. -/
def home : Csr → Csr
  | .cycle | .time => .mcycle
  | .cycleh | .timeh => .mcycleh
  | .instret => .minstret
  | .instreth => .minstreth
  | r => r

def isWritable : Csr → Bool
  | .mstatus | .mie | .mtvec | .mscratch | .mepc | .mcause | .mtval => true
  | .mcycle | .mcycleh | .minstret | .minstreth => true
  | .misa | .mip | .cycle | .cycleh | .time | .timeh | .instret | .instreth => false

theorem not_isReadOnlyCsr {r : Csr} (hr : r.isWritable = true) :
    isReadOnlyCsr r.address = false := by
  cases r <;> first | rfl | cases hr

/-- What a register shows of a value that is written to it. -/
def legal (v : UInt32) : Csr → UInt32
  | .mstatus => (v &&& (mieBit ||| mpieBit)) ||| mppField
  | .mie => v &&& mieMask
  | .mtvec | .mepc => v &&& ~~~3
  | _ => v

end Csr

namespace Csrs

variable (c : Csrs) (pending v : UInt32) (r s : Csr)

theorem get_home : c.get pending r.home = c.get pending r := by
  cases r <;> rfl

theorem set_of_not_isWritable {r : Csr} (hr : r.isWritable = false) : c.set v r = c := by
  cases r <;> first | rfl | cases hr

theorem get_set {r : Csr} (hr : r.isWritable = true) :
    (c.set v r).get pending r = r.legal v := by
  cases r with
  | mcycle | minstret => exact lowHalf_withLowHalf _ v
  | mcycleh | minstreth => exact highHalf_withHighHalf _ v
  | mstatus | mie | mtvec | mscratch | mepc | mcause | mtval => rfl
  | misa | mip | cycle | cycleh | time | timeh | instret | instreth => cases hr

/-- A write moves no register but the one at its address and its shadows. -/
theorem get_set_of_ne {r s : Csr} (h : s.home ≠ r) :
    (c.set v r).get pending s = c.get pending s := by
  cases r with
  | mcycle | minstret =>
    cases s <;> first | rfl | exact absurd rfl h | exact highHalf_withLowHalf _ v
  | mcycleh | minstreth =>
    cases s <;> first | rfl | exact absurd rfl h | exact lowHalf_withHighHalf _ v
  | _ => cases s <;> first | rfl | exact absurd rfl h

/-- The register holds a value that a write of its own would keep. -/
def Legal (c : Csrs) : Csr → Prop
  | .mstatus => c.mstatus &&& (mieBit ||| mpieBit) = c.mstatus
  | .mie => c.mie &&& mieMask = c.mie
  | .mtvec => c.mtvec &&& ~~~3 = c.mtvec
  | .mepc => c.mepc &&& ~~~3 = c.mepc
  | _ => True

/-- Writing back what was read changes nothing exactly if the value is a legal one. -/
theorem set_get_iff : c.set (c.get pending r) r = c ↔ c.Legal r := by
  have hstatus : (c.mstatus ||| mppField) &&& (mieBit ||| mpieBit) =
      c.mstatus &&& (mieBit ||| mpieBit) := by
    have hfield : mppField &&& (mieBit ||| mpieBit) = 0 := by decide
    rw [or_and_distrib, hfield, UInt32.or_zero]
  cases c with
  | mk =>
    cases r with
    | mstatus => simp [set, get, Legal, hstatus]
    | mie | mtvec | mepc | mcycle | minstret | mcycleh | minstreth => simp [set, get, Legal]
    | _ => exact iff_of_true rfl trivial

theorem write_read_iff (a : UInt32) :
    c.write a (c.read a pending) = c ↔ ∀ r : Csr, r.address = a → c.Legal r := by
  cases hr : Csr.ofAddress? a with
  | none =>
    have hfree : ∀ r : Csr, r.address ≠ a := by
      rintro r rfl
      rw [Csr.ofAddress?_address] at hr
      cases hr
    rw [write, hr]
    exact iff_of_true rfl fun r ha => absurd ha (hfree r)
  | some r =>
    have hother : ∀ s : Csr, s.address = a ↔ s = r := by
      intro s
      constructor
      · rintro rfl
        exact Option.some.inj ((Csr.ofAddress?_address s).symm.trans hr)
      · rintro rfl
        exact Csr.address_of_ofAddress? hr
    simp only [write, read, hr, hother, forall_eq]
    exact c.set_get_iff pending r

end Csrs

end RiscvSoc
