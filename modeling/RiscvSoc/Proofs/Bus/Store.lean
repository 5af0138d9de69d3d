import RiscvSoc.Proofs.Bus.Ownership
import RiscvSoc.Proofs.Core.Wires
import RiscvSoc.Proofs.Memory.Flat

/-! A store of the core on the bus. It puts its bytes into memory at their own addresses, unless a
device owns its address; then the device gets them in a word, and memory stays as it is. -/

namespace RiscvSoc

/-- A store as an instruction asks for it: the low bytes of `data` from `address` on. -/
structure StoreRequest where
  width : StoreWidth
  address : UInt32
  data : UInt32
  deriving DecidableEq

/-- The select field is not among the address bits that decide about lanes. -/
theorem StoreWidth.lanes_masked (width : StoreWidth) (a data : UInt32) :
    width.lanes (a &&& deviceMask) data = width.lanes a data := by
  have hbyte : deviceMask &&& 3 = 3 := by decide
  have hhalf : deviceMask &&& 2 = 2 := by decide
  cases width with
  | byte => simp only [lanes, UInt32.and_assoc, hbyte]
  | half => simp only [lanes, UInt32.and_assoc, hhalf]
  | word => rfl

namespace Bus

variable {b : Bus} {width : StoreWidth} {a data : UInt32}

/-- A store of the core: the data goes in the lanes of its address to the owner of that address. -/
def store (b : Bus) (width : StoreWidth) (a data : UInt32) : Bus :=
  b.write (.combine (.ofAddress a) a) (width.lanes a data).1 (width.lanes a data).2

theorem route_of_unowned (h : b.owner? (.ofAddress a) = none) :
    b.route (.combine (.ofAddress a) a) = .memory (a &&& deviceMask) := by
  rw [EffectiveAddress.combine_ofAddress, route, EffectiveAddress.select, h]
  rfl

theorem owners_store (width : StoreWidth) (a data : UInt32) :
    (b.store width a data).owners = b.owners :=
  owners_writeTo _ _ _

theorem memory_store_of_unowned (h : b.owner? (.ofAddress a) = none) (width : StoreWidth)
    (data : UInt32) :
    (b.store width a data).memory =
      b.memory.write (a &&& deviceMask) (width.lanes a data).1 (width.lanes a data).2 := by
  rw [store, write, route_of_unowned h]
  rfl

theorem memory_store_of_owned {i : Nat} (h : b.owner? (.ofAddress a) = some i) (width : StoreWidth)
    (data : UInt32) : (b.store width a data).memory = b.memory := by
  rw [store, write, EffectiveAddress.combine_ofAddress, route, EffectiveAddress.select, h]
  rfl

theorem devices_store_of_unowned (h : b.owner? (.ofAddress a) = none) :
    (b.store width a data).devices = b.devices := by
  rw [store, write, route_of_unowned h]
  rfl

theorem flat_store_of_unowned (h : b.owner? (.ofAddress a) = none) {x : Nat}
    (hx : x < 4 * b.memory.capacity) :
    let first := alignDown width.size (a &&& deviceMask)
    (b.store width a data).memory.flat.get x =
      if first ≤ x ∧ x < first + width.size then .ofNat (Word.byteAt data (x - first))
      else b.memory.flat.get x := by
  intro first
  have hflat := (b.memory.perform_flat (.store width (a &&& deviceMask) data)).1
  have hmemory : (b.store width a data).memory =
      (b.memory.perform (.store width (a &&& deviceMask) data)).1 := by
    rw [memory_store_of_unowned h, ← width.lanes_masked]
    rfl
  have hperform : (b.memory.flat.perform (.store width (a &&& deviceMask) data)).1 =
      b.memory.flat.put (.store width (a &&& deviceMask) data) := rfl
  rw [hmemory, hflat, hperform, FlatMemory.get_put, Memory.size_flat, if_pos hx, MemoryOp.puts]
  exact apply_ite (Option.getD · _) _ _ _

theorem devices_store_of_owned {i : Nat} (h : b.owner? (.ofAddress a) = some i) (j : Nat) :
    let word := data.toNat % 256 ^ width.size * 256 ^ laneOf width.size a
    (b.store width a data).devices[j]? = b.devices[j]?.map fun d : Device =>
      if j = i then d.write (a &&& 0xFFC) (.ofNat word) else d := by
  intro word
  have hnumber : (width.lanes a data).1.toNat = word := width.toNat_lanes a data
  have hword : (width.lanes a data).1 = .ofNat word := by
    rw [← hnumber, UInt32.ofNat_toNat]
  have hoffset : (⟨a⟩ : EffectiveAddress).wordOffset = a &&& 0xFFC :=
    UInt32.and_assoc a offsetMask (~~~3)
  rw [store, write, EffectiveAddress.combine_ofAddress, route, EffectiveAddress.select, h, hword,
    hoffset, writeTo, List.getElem?_modify]
  cases b.devices[j]? with
  | none => rfl
  | some d =>
    by_cases hj : i = j
    · simp [hj]
    · simp [hj, Ne.symm hj]

/-- From `before` to `after`, a cycle has passed in which the store `store?` was made once. Memory
has its bytes at their own addresses, if no device owns the store; the owner has them in their lanes
of a word, with zeros around them. -/
structure Cycled (store? : Option StoreRequest) (before after : Bus) : Prop where
  idle : store? = none →
    after.memory = before.memory ∧ after.devices = before.devices.map Device.tick
  toMemory : ∀ st, store? = some st → before.owner? (.ofAddress st.address) = none →
    let first := alignDown st.width.size (st.address &&& deviceMask)
    after.devices = before.devices.map Device.tick ∧
      after.memory.capacity = before.memory.capacity ∧
      ∀ x < 4 * before.memory.capacity, after.memory.flat.get x =
        if first ≤ x ∧ x < first + st.width.size then .ofNat (Word.byteAt st.data (x - first))
        else before.memory.flat.get x
  toDevice : ∀ st i, store? = some st → before.owner? (.ofAddress st.address) = some i →
    let word := st.data.toNat % 256 ^ st.width.size * 256 ^ laneOf st.width.size st.address
    after.memory = before.memory ∧
      ∀ j, after.devices[j]? = before.devices[j]?.map fun d : Device =>
        (if j = i then d.write (st.address &&& 0xFFC) (.ofNat word) else d).tick
  owners : after.owners = before.owners

end Bus

end RiscvSoc
