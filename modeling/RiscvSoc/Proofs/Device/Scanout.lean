import RiscvSoc.Proofs.Device.Picture

namespace RiscvSoc.Vga

/-- What the two clocks and the bus do with a controller: an action, or a read of a register. -/
inductive Access where
  | act (x : Action)
  | read (offset : UInt32)
  deriving DecidableEq

def access (g : Vga) : Access → Vga
  | .act x => g.act x
  | .read _ => g

/-- A new controller with a timing after `n` pixel clocks, among other accesses. -/
structure Clocked (t : VgaTiming) (n : Nat) (g : Vga) : Prop where
  timing : g.timing = t
  picture : g.picture.size = pictureWords
  position : g.position = .after t n

variable {t : VgaTiming} {n : Nat} {g : Vga}

theorem Clocked.inUse (h : Clocked t n g) : InUse t g :=
  ⟨h.timing, h.picture, n, h.position⟩

theorem Clocked.access (h : Clocked t n g) (a : Access) :
    Clocked t (n + [a].count (.act .scan)) (g.access a) := by
  cases a with
  | read offset => exact h
  | act x =>
    have hinUse := h.inUse.act x
    refine ⟨hinUse.timing, hinUse.picture, ?_⟩
    cases x with
    | write offset value => exact (g.position_write offset value).trans h.position
    | tick => exact h.position
    | scan =>
      rw [Vga.access, act, position_scan, h.position, h.timing, ScanPosition.next_after]
      rfl

theorem Clocked.foldl (h : Clocked t n g) (accesses : List Access) :
    Clocked t (n + accesses.count (.act .scan)) (accesses.foldl Vga.access g) := by
  induction accesses generalizing n g with
  | nil => exact h
  | cons a accesses ih =>
    have hrest := ih (h.access a)
    rwa [Nat.add_assoc, ← List.count_append, List.singleton_append] at hrest

section Pixel

variable (h : Clocked t n g)

include h

end Pixel

end RiscvSoc.Vga
