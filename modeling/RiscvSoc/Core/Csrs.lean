/-! The machine-mode control and status registers and the two 64-bit counters. Every register keeps
only the bits it implements. The pending register is no state of this file: it shows the interrupt
flag vector, which the reader supplies. -/

namespace RiscvSoc

/-- Registers that have an address; `cycle`, `time`, `instret` and their high halves are read-only
shadows of the counters. -/
inductive Csr where
  | mstatus
  | misa
  | mie
  | mtvec
  | mscratch
  | mepc
  | mcause
  | mtval
  | mip
  | mcycle
  | mcycleh
  | minstret
  | minstreth
  | cycle
  | cycleh
  | time
  | timeh
  | instret
  | instreth
  deriving DecidableEq

namespace Csr

def address : Csr → UInt32
  | .mstatus => 0x300
  | .misa => 0x301
  | .mie => 0x304
  | .mtvec => 0x305
  | .mscratch => 0x340
  | .mepc => 0x341
  | .mcause => 0x342
  | .mtval => 0x343
  | .mip => 0x344
  | .mcycle => 0xB00
  | .mcycleh => 0xB80
  | .minstret => 0xB02
  | .minstreth => 0xB82
  | .cycle => 0xC00
  | .cycleh => 0xC80
  | .time => 0xC01
  | .timeh => 0xC81
  | .instret => 0xC02
  | .instreth => 0xC82

def ofAddress? (address : UInt32) : Option Csr :=
  match address.toNat with
  | 0x300 => some .mstatus
  | 0x301 => some .misa
  | 0x304 => some .mie
  | 0x305 => some .mtvec
  | 0x340 => some .mscratch
  | 0x341 => some .mepc
  | 0x342 => some .mcause
  | 0x343 => some .mtval
  | 0x344 => some .mip
  | 0xB00 => some .mcycle
  | 0xB80 => some .mcycleh
  | 0xB02 => some .minstret
  | 0xB82 => some .minstreth
  | 0xC00 => some .cycle
  | 0xC80 => some .cycleh
  | 0xC01 => some .time
  | 0xC81 => some .timeh
  | 0xC02 => some .instret
  | 0xC82 => some .instreth
  | _ => none

theorem ofAddress?_address (c : Csr) : ofAddress? c.address = some c := by
  cases c <;> rfl

theorem address_of_ofAddress? {a : UInt32} {c : Csr} (h : ofAddress? a = some c) :
    c.address = a := by
  unfold ofAddress? at h
  apply UInt32.toNat_inj.mp
  symm
  split at h <;> cases h <;> assumption

end Csr

/-- Global interrupt enable, a bit of `mstatus`. -/
def mieBit : UInt32 := 0x8

/-- The interrupt enable before the last trap, a bit of `mstatus`. -/
def mpieBit : UInt32 := 0x80

/-- The previous privilege level in `mstatus`, always machine mode. -/
def mppField : UInt32 := 0x1800

/-- The two implemented bits of `mie`, for the timer and the external source. -/
def mieMask : UInt32 := 0x880

def withLowHalf (counter : UInt64) (value : UInt32) : UInt64 :=
  (counter &&& (0xFFFFFFFF00000000 : UInt64)) ||| value.toUInt64

def withHighHalf (counter : UInt64) (value : UInt32) : UInt64 :=
  (counter &&& (0xFFFFFFFF : UInt64)) ||| (value.toUInt64 <<< 32)

def lowHalf (counter : UInt64) : UInt32 :=
  counter.toUInt32

def highHalf (counter : UInt64) : UInt32 :=
  (counter >>> 32).toUInt32

structure Csrs where
  mstatus : UInt32
  misa : UInt32
  mie : UInt32
  mtvec : UInt32
  mscratch : UInt32
  mepc : UInt32
  mcause : UInt32
  mtval : UInt32
  mcycle : UInt64
  minstret : UInt64
  deriving DecidableEq

namespace Csrs

/-- All zero but for `misa`, which names the 32-bit base integer set. -/
def initial : Csrs :=
  { mstatus := 0, misa := 0x40000100, mie := 0, mtvec := 0, mscratch := 0, mepc := 0
    mcause := 0, mtval := 0, mcycle := 0, minstret := 0 }

def get (c : Csrs) (pending : UInt32) : Csr → UInt32
  | .mstatus => c.mstatus ||| mppField
  | .misa => c.misa
  | .mie => c.mie
  | .mtvec => c.mtvec
  | .mscratch => c.mscratch
  | .mepc => c.mepc
  | .mcause => c.mcause
  | .mtval => c.mtval
  | .mip => pending
  | .mcycle | .cycle | .time => lowHalf c.mcycle
  | .mcycleh | .cycleh | .timeh => highHalf c.mcycle
  | .minstret | .instret => lowHalf c.minstret
  | .minstreth | .instreth => highHalf c.minstret

/-- Replaces the implemented bits of a register; read-only registers stay as they are. -/
def set (c : Csrs) (value : UInt32) : Csr → Csrs
  | .mstatus => { c with mstatus := value &&& (mieBit ||| mpieBit) }
  | .mie => { c with mie := value &&& mieMask }
  | .mtvec => { c with mtvec := value &&& ~~~3 }
  | .mscratch => { c with mscratch := value }
  | .mepc => { c with mepc := value &&& ~~~3 }
  | .mcause => { c with mcause := value }
  | .mtval => { c with mtval := value }
  | .mcycle => { c with mcycle := withLowHalf c.mcycle value }
  | .mcycleh => { c with mcycle := withHighHalf c.mcycle value }
  | .minstret => { c with minstret := withLowHalf c.minstret value }
  | .minstreth => { c with minstret := withHighHalf c.minstret value }
  | .misa | .mip | .cycle | .cycleh | .time | .timeh | .instret | .instreth => c

/-- Reads by address; an address without a register reads zero. -/
def read (c : Csrs) (address pending : UInt32) : UInt32 :=
  match Csr.ofAddress? address with
  | some r => c.get pending r
  | none => 0

/-- Writes by address; an address without a register changes nothing. -/
def write (c : Csrs) (address value : UInt32) : Csrs :=
  match Csr.ofAddress? address with
  | some r => c.set value r
  | none => c

def interruptsEnabled (c : Csrs) : Bool :=
  c.mstatus &&& mieBit != 0

theorem write_eq (c : Csrs) (a value : UInt32) :
    c.write a value = c ∨ ∃ r : Csr, r.address = a ∧ c.write a value = c.set value r := by
  unfold write
  cases hr : Csr.ofAddress? a with
  | none => exact Or.inl rfl
  | some r => exact Or.inr ⟨r, Csr.address_of_ofAddress? hr, rfl⟩

end Csrs

end RiscvSoc
