/-! The read-modify-write operations on control and status registers. Setting or clearing with a
zero source field writes nothing, so read-only registers can be read without side effects. -/

namespace RiscvSoc

inductive CsrUpdate where
  | write
  | set
  | clear
  deriving DecidableEq

/-- An access, with its source either a register or the five bits of the source field. -/
structure CsrAccess where
  update : CsrUpdate
  immediate : Bool
  deriving DecidableEq

namespace CsrAccess

def ofFunct3? : Nat → Option CsrAccess
  | 1 => some ⟨.write, false⟩
  | 2 => some ⟨.set, false⟩
  | 3 => some ⟨.clear, false⟩
  | 5 => some ⟨.write, true⟩
  | 6 => some ⟨.set, true⟩
  | 7 => some ⟨.clear, true⟩
  | _ => none

/-- The value to write back, if any; `sourceNonzero` is about the source field, not its value. -/
def apply (a : CsrAccess) (old source : UInt32) (sourceNonzero : Bool) : Option UInt32 :=
  match a.update with
  | .write => some source
  | .set => if sourceNonzero then some (old ||| source) else none
  | .clear => if sourceNonzero then some (old &&& ~~~source) else none

end CsrAccess

/-- Registers whose address has both bits 11 and 10 set cannot be written. -/
def isReadOnlyCsr (address : UInt32) : Bool :=
  (address >>> 10) &&& 3 == 3

/-- The write that reaches the register file: none to a read-only address. -/
def csrTarget (address : UInt32) (value : Option UInt32) : Option (UInt32 × UInt32) :=
  if isReadOnlyCsr address then none else value.map fun v => (address, v)

end RiscvSoc
