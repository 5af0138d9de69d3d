import RiscvSoc.Bus
import RiscvSoc.Proofs.Memory.Lanes

/-! Who owns an access. Attaching devices keeps the table of owners and the list of devices inverse
to each other, whatever else happens to the bus. A route therefore names one target, and a write
moves that target alone. -/

namespace RiscvSoc

theorem DeviceSelect.slot_eq_iff {s t : DeviceSelect} : s.slot = t.slot ↔ s.index = t.index := by
  rw [slot, slot, Fin.mk.injEq, UInt8.toNat_inj]

theorem DeviceSelect.isMemory_iff {s : DeviceSelect} : s.isMemory = true ↔ s.slot = 0 := by
  have hzero : (0 : Fin count) = memory.slot := by decide
  rw [hzero, slot_eq_iff, isMemory, beq_iff_eq]
  rfl

namespace Device

@[simp] theorem select_mapUart (f : Uart → Uart) (d : Device) :
    (d.mapUart f).select = d.select := by
  cases d <;> rfl

@[simp] theorem select_mapVga (f : Vga → Vga) (d : Device) : (d.mapVga f).select = d.select := by
  cases d <;> rfl

end Device

namespace Bus

variable {b b' : Bus}

/-- What can happen to a bus: the machine attaches devices and makes accesses, the clocks advance
the devices, and the host changes memory and feeds the serial port. -/
inductive Action where
  | attach (d : Device)
  | write (a : EffectiveAddress) (data : UInt32) (strobe : Strobe)
  | tick
  | scan
  | memory (change : Memory → Memory)
  | receive (bytes : List UInt8)

def act (b : Bus) : Action → Bus
  | .attach d => b.attach d
  | .write a data strobe => b.write a data strobe
  | .tick => b.tick
  | .scan => b.scan
  | .memory change => b.mapMemory change
  | .receive bytes => b.receive bytes

def slots (b : Bus) : List (Fin DeviceSelect.count) :=
  b.devices.map fun d => d.select.slot

/-- The table of owners is the inverse of the list of tags, and memory keeps its own tag. -/
structure Registered (b : Bus) : Prop where
  memory_free : b.owners[0] = none
  owner_iff : ∀ (code : Fin DeviceSelect.count) i, b.owners[code] = some i ↔ b.slots[i]? = some code

theorem registered_ofMemory (m : Memory) : (ofMemory m).Registered := by
  have hnone : ∀ code : Fin DeviceSelect.count, (ofMemory m).owners[code] = none := by
    intro code
    simp [ofMemory]
  refine ⟨hnone 0, fun code i => ?_⟩
  rw [hnone]
  simp [slots, ofMemory]

/-- Registration looks at the table and at the tags of the devices only. -/
private theorem Registered.of_eq (h : b.Registered) (howners : b'.owners = b.owners)
    (hslots : b'.slots = b.slots) : b'.Registered := by
  refine ⟨?_, fun code i => ?_⟩
  · rw [howners]
    exact h.memory_free
  · rw [howners, hslots]
    exact h.owner_iff code i

theorem accepts_eq_true_iff {d : Device} :
    b.accepts d = true ↔ d.select.slot ≠ 0 ∧ b.owner? d.select = none := by
  rw [accepts, Bool.and_eq_true, Option.isNone_iff_eq_none, ne_eq, ← DeviceSelect.isMemory_iff,
    Bool.not_eq_true', Bool.not_eq_true]

theorem attach_of_refused {d : Device} (h : b.accepts d = false) : b.attach d = b := by
  rw [attach, h, if_neg Bool.false_ne_true]

theorem Registered.attach (h : b.Registered) (d : Device) : (b.attach d).Registered := by
  cases ha : b.accepts d with
  | false =>
    rw [attach_of_refused ha]
    exact h
  | true =>
    obtain ⟨hmem, hfree⟩ := accepts_eq_true_iff.mp ha
    have howners : (b.attach d).owners =
        b.owners.set d.select.slot (some b.devices.length) := by
      rw [Bus.attach, ha, if_pos rfl]
    have hslots : (b.attach d).slots = b.slots ++ [d.select.slot] := by
      rw [Bus.attach, ha, if_pos rfl, slots, List.map_append]
      rfl
    have hlength : b.slots.length = b.devices.length := List.length_map _
    have hget : ∀ code : Fin DeviceSelect.count, (b.attach d).owners[code] =
        if d.select.slot = code then some b.devices.length else b.owners[code] := by
      intro code
      rw [howners, Fin.getElem_fin, Fin.getElem_fin, Vector.getElem_set]
      simp only [Fin.ext_iff]
    refine ⟨?_, fun code i => ?_⟩
    · exact ((hget 0).trans (if_neg hmem)).trans h.memory_free
    · rw [hget, hslots, ← hlength, List.getElem?_append]
      -- The new entry is the only one for the last position, and no earlier device has its tag.
      by_cases hcode : d.select.slot = code
      · subst hcode
        rw [if_pos rfl, Option.some.injEq]
        constructor
        · rintro rfl
          simp
        · intro hi
          split at hi
          · have howned : b.owner? d.select = some i := (h.owner_iff _ i).mpr hi
            rw [hfree] at howned
            cases howned
          · rename_i hlt
            have hlast := (List.getElem?_eq_some_iff.mp hi).1
            rw [List.length_singleton] at hlast
            omega
      · rw [if_neg hcode, h.owner_iff]
        split
        · exact Iff.rfl
        · rename_i hlt
          have hnone : b.slots[i]? = none := List.getElem?_eq_none (by omega)
          rw [hnone, List.getElem?_singleton]
          split <;> simp [hcode]

private theorem slots_map {f : Device → Device} (hf : ∀ d, (f d).select = d.select) :
    ({ b with devices := b.devices.map f } : Bus).slots = b.slots := by
  simp only [slots, List.map_map, Function.comp_def, hf]

private theorem slots_writeTo (data : UInt32) (strobe : Strobe) (r : Route) :
    (b.writeTo data strobe r).slots = b.slots := by
  cases r with
  | memory address => rfl
  | peripheral index offset =>
    simp only [slots, writeTo]
    apply List.ext_getElem?
    intro j
    rw [List.getElem?_map, List.getElem?_map, List.getElem?_modify]
    cases b.devices[j]? with
    | none => rfl
    | some d => by_cases hj : index = j <;> simp [hj]

theorem owners_writeTo (data : UInt32) (strobe : Strobe) (r : Route) :
    (b.writeTo data strobe r).owners = b.owners := by
  cases r <;> rfl

/-- Whatever happens to the bus, its table stays the inverse of its list. -/
theorem Registered.act (h : b.Registered) (x : Action) : (b.act x).Registered := by
  cases x with
  | attach d => exact h.attach d
  | write a data strobe => exact h.of_eq (owners_writeTo _ _ _) (slots_writeTo _ _ _)
  | tick => exact h.of_eq rfl (slots_map Device.select_tick)
  | scan => exact h.of_eq rfl (slots_map (Device.select_mapVga _))
  | memory change => exact h.of_eq rfl rfl
  | receive bytes => exact h.of_eq rfl (slots_map (Device.select_mapUart _))

theorem registered_foldl (h : b.Registered) (history : List Action) :
    (history.foldl act b).Registered := by
  induction history generalizing b with
  | nil => exact h
  | cons x history ih => exact ih (h.act x)

/-- What a table of owners must be for the devices of a bus. -/
structure Consistent (b : Bus) : Prop where
  memory_unowned : b.owners[0] = none
  owned : ∀ (code : Fin DeviceSelect.count) i, b.owners[code] = some i →
    ∃ d, b.devices[i]? = some d ∧ d.select.index.toNat = code
  distinct : ∀ (code code' : Fin DeviceSelect.count) i, b.owners[code] = some i →
    b.owners[code'] = some i → code = code'
  covered : ∀ i < b.devices.length, ∃! code : Fin DeviceSelect.count, b.owners[code] = some i

theorem Registered.consistent (h : b.Registered) : b.Consistent := by
  have hinj : ∀ (code code' : Fin DeviceSelect.count) i, b.owners[code] = some i →
      b.owners[code'] = some i → code = code' := by
    intro code code' i hc hc'
    rw [h.owner_iff] at hc hc'
    exact Option.some.inj (hc.symm.trans hc')
  refine ⟨h.memory_free, fun code i hc => ?_, hinj, fun i hi => ?_⟩
  · rw [h.owner_iff, slots, List.getElem?_map] at hc
    obtain ⟨d, hd, rfl⟩ := Option.map_eq_some_iff.mp hc
    exact ⟨d, hd, rfl⟩
  · refine ⟨b.devices[i].select.slot, ?_, fun code (hc : b.owners[code] = some i) => ?_⟩
    · show b.owners[b.devices[i].select.slot] = some i
      rw [h.owner_iff, slots, List.getElem?_map, List.getElem?_eq_getElem hi]
      rfl
    · rw [h.owner_iff, slots, List.getElem?_map, List.getElem?_eq_getElem hi] at hc
      exact (Option.some.inj hc).symm

theorem Registered.owner_eq_none_iff (h : b.Registered) (s : DeviceSelect) :
    b.owner? s = none ↔ ∀ d ∈ b.devices, d.select.index ≠ s.index := by
  have hslots : b.owner? s = none ↔ s.slot ∉ b.slots := by
    rw [Option.eq_none_iff_forall_ne_some, List.mem_iff_getElem?, not_exists]
    exact forall_congr' fun i => not_congr (h.owner_iff _ i)
  rw [hslots, slots, List.mem_map]
  simp only [DeviceSelect.slot_eq_iff, not_exists, not_and]

theorem Registered.accepts_iff (h : b.Registered) (d : Device) :
    b.accepts d = true ↔
      d.select.index ≠ 0 ∧ ∀ other ∈ b.devices, other.select.index ≠ d.select.index := by
  have hzero : (0 : Fin DeviceSelect.count) = DeviceSelect.memory.slot := by decide
  rw [accepts_eq_true_iff, h.owner_eq_none_iff, hzero, ne_eq, DeviceSelect.slot_eq_iff]
  exact Iff.rfl

/-- The target of an address is the device with its tag, and memory if there is none. -/
def Targets (b : Bus) (a : EffectiveAddress) : Route → Prop
  | .memory address => address = a.raw ∧ ∀ d ∈ b.devices, d.select.index ≠ a.select.index
  | .peripheral i offset =>
    offset = a.wordOffset ∧ ∃ d, b.devices[i]? = some d ∧ d.select.index = a.select.index

theorem Registered.targets_route (h : b.Registered) (a : EffectiveAddress) :
    b.Targets a (b.route a) := by
  rw [route]
  cases howner : b.owner? a.select with
  | none => exact ⟨rfl, (h.owner_eq_none_iff _).mp howner⟩
  | some i =>
    obtain ⟨d, hd, hcode⟩ := h.consistent.owned _ _ howner
    exact ⟨rfl, d, hd, UInt8.toNat_inj.mp hcode⟩

/-- From `b` to `b'`, a write moved the strobed lanes of one word, or one device, and nothing
else. -/
def Reaches (b b' : Bus) (data : UInt32) (strobe : Strobe) : Route → Prop
  | .memory address =>
    b'.devices = b.devices ∧
      ∀ k, ∀ lane < 4, (b'.memory.words[k]?).map (Word.byteAt · lane) =
        (b.memory.words[k]?).map fun word =>
          if k = Memory.wordIndex address ∧ strobe.enables lane = true then Word.byteAt data lane
          else Word.byteAt word lane
  | .peripheral i offset =>
    b'.memory = b.memory ∧
      (∃ d, b.devices[i]? = some d ∧ b'.devices[i]? = some (d.write offset data)) ∧
      ∀ j, j ≠ i → b'.devices[j]? = b.devices[j]?

private theorem reaches_memory (address data : UInt32) (strobe : Strobe) :
    Reaches b (b.writeTo data strobe (.memory address)) data strobe (.memory address) := by
  refine ⟨rfl, fun k lane hlane => ?_⟩
  simp only [writeTo, Memory.write, Array.getElem?_modify]
  by_cases hk : Memory.wordIndex address = k
  · subst hk
    simp only [if_true, Option.map_map, Function.comp_def, Strobe.byteAt_merge _ _ _ hlane,
      true_and]
  · rw [if_neg hk]
    simp only [Ne.symm hk, false_and, if_false]

private theorem reaches_peripheral {d : Device} {i : Nat} (hd : b.devices[i]? = some d)
    (offset data : UInt32) (strobe : Strobe) :
    Reaches b (b.writeTo data strobe (.peripheral i offset)) data strobe
      (.peripheral i offset) := by
  refine ⟨rfl, ⟨d, hd, ?_⟩, fun j hj => ?_⟩
  · simp only [writeTo, List.getElem?_modify, hd, if_true]
    rfl
  · simp only [writeTo, List.getElem?_modify, if_neg (Ne.symm hj)]
    cases b.devices[j]? <;> rfl

theorem Registered.reaches_write (h : b.Registered) (a : EffectiveAddress) (data : UInt32)
    (strobe : Strobe) : Reaches b (b.write a data strobe) data strobe (b.route a) := by
  have ht := h.targets_route a
  rw [write]
  cases hr : b.route a with
  | memory address => exact reaches_memory address data strobe
  | peripheral i offset =>
    rw [hr] at ht
    obtain ⟨-, d, hd, -⟩ := ht
    exact reaches_peripheral hd offset data strobe

/-- After any history the table of owners fits the devices, a refused device leaves no trace, and a
write reaches the target that its route names and no other. -/
theorem exclusive_after_history (m : Memory) (history : List Action) :
    let b := history.foldl act (ofMemory m)
    b.Consistent ∧
      (∀ d, (b.accepts d = true ↔
          d.select.index ≠ 0 ∧ ∀ other ∈ b.devices, other.select.index ≠ d.select.index) ∧
        (b.accepts d = true → (b.attach d).devices = b.devices ++ [d]) ∧
        (b.accepts d = false → b.attach d = b)) ∧
      ∀ a, b.Targets a (b.route a) ∧
        ∀ data strobe, (b.write a data strobe).owners = b.owners ∧
          Reaches b (b.write a data strobe) data strobe (b.route a) := by
  intro b
  have h : b.Registered := registered_foldl (registered_ofMemory m) history
  refine ⟨h.consistent, fun d => ⟨h.accepts_iff d, fun ha => ?_, attach_of_refused⟩, fun a => ?_⟩
  · rw [attach, ha, if_pos rfl]
  · exact ⟨h.targets_route a, fun data strobe =>
      ⟨owners_writeTo _ _ _, h.reaches_write a data strobe⟩⟩

end Bus

end RiscvSoc
