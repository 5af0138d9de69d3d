import Mathlib.Data.List.Induction
import RiscvSoc.Proofs.Device.Picture
import RiscvSoc.Proofs.Memory.Lanes

namespace RiscvSoc

theorem Word.toNat_byte (w : UInt32) {j : Nat} (hj : j < 4) :
    (byte w j.toUInt32).toNat = byteAt w j := by
  have hlane : ((j.toUInt32 &&& 3) * 8).toNat % 32 = 8 * j := by
    have hall : ∀ j < 4, ((j.toUInt32 &&& 3) * 8).toNat % 32 = 8 * j := by decide
    exact hall j hj
  rw [byte, byteAt, UInt32.toNat_toUInt8, UInt32.toNat_shiftRight, hlane, Nat.shiftRight_eq_div_pow,
    Nat.pow_mul]

namespace Vga

/-- The controller after register writes that stream words to the picture from an address on. -/
def uploaded (g : Vga) (a : UInt32) (ws : List UInt32) : Vga :=
  (.write 0x10 a :: ws.map (.write 0x14)).foldl act g

section Upload

variable (g : Vga) (a : UInt32) (ws : List UInt32)

theorem uploaded_nil : g.uploaded a [] = { g with upload := a } := rfl

theorem uploaded_concat (w : UInt32) : g.uploaded a (ws ++ [w]) = (g.uploaded a ws).stream w := by
  rw [uploaded, List.map_append, ← List.cons_append, List.foldl_append]
  rfl

theorem toNat_upload : (g.uploaded a ws).upload.toNat = (a.toNat + ws.length) % 2 ^ 32 := by
  induction ws using List.reverseRecOn with
  | nil =>
    rw [uploaded_nil]
    exact (Nat.mod_eq_of_lt a.toNat_lt).symm
  | append_singleton ws w ih =>
    rw [uploaded_concat, stream, UInt32.toNat_add, ih, List.length_append, List.length_singleton,
      ← Nat.add_assoc]
    exact Nat.mod_add_mod _ _ _

/-- An upload changes the picture and the upload address only. -/
theorem uploaded_eq : g.uploaded a ws =
    { g with upload := (g.uploaded a ws).upload, picture := (g.uploaded a ws).picture } := by
  induction ws using List.reverseRecOn with
  | nil => rfl
  | append_singleton ws w ih =>
    rw [uploaded_concat, ih]
    rfl

theorem size_picture_uploaded : (g.uploaded a ws).picture.size = g.picture.size := by
  induction ws using List.reverseRecOn with
  | nil => rfl
  | append_singleton ws w ih => rw [uploaded_concat, stream, Array.size_setIfInBounds, ih]

/-- One more word goes to the place that the upload address has reached by then. -/
theorem getElem?_picture_concat (w : UInt32) (k : Nat) :
    (g.uploaded a (ws ++ [w])).picture[k]? =
      if (a.toNat + ws.length) % 2 ^ 32 = k then g.picture[k]?.map fun _ => w
      else (g.uploaded a ws).picture[k]? := by
  rw [uploaded_concat, stream, Array.getElem?_setIfInBounds, toNat_upload, size_picture_uploaded]
  by_cases hk : (a.toNat + ws.length) % 2 ^ 32 = k
  · rw [if_pos hk, if_pos hk, hk]
    by_cases hin : k < g.picture.size
    · rw [if_pos hin, Array.getElem?_eq_getElem hin, Option.map_some]
    · rw [if_neg hin, Array.getElem?_eq_none (Nat.le_of_not_lt hin), Option.map_none]
  · rw [if_neg hk, if_neg hk]

theorem getElem?_picture_of_unreached {k : Nat}
    (hmiss : ∀ i < ws.length, (a.toNat + i) % 2 ^ 32 ≠ k) :
    (g.uploaded a ws).picture[k]? = g.picture[k]? := by
  induction ws using List.reverseRecOn with
  | nil => rfl
  | append_singleton ws w ih =>
    rw [List.length_append, List.length_singleton] at hmiss
    rw [getElem?_picture_concat, if_neg (hmiss _ (Nat.lt_succ_self _))]
    exact ih fun i hi => hmiss i (Nat.lt_succ_of_lt hi)

/-- Word `i` stays if no word after it comes to its place. -/
theorem getElem?_picture_of_last {i k : Nat} {w : UInt32} (hw : ws[i]? = some w)
    (hplace : (a.toNat + i) % 2 ^ 32 = k)
    (hlast : ∀ j, i < j → j < ws.length → (a.toNat + j) % 2 ^ 32 ≠ k) :
    (g.uploaded a ws).picture[k]? = g.picture[k]?.map fun _ => w := by
  induction ws using List.reverseRecOn with
  | nil => exact absurd hw (by rw [List.getElem?_nil]; nofun)
  | append_singleton ws v ih =>
    rw [List.length_append, List.length_singleton] at hlast
    rw [getElem?_picture_concat]
    rcases Nat.lt_trichotomy i ws.length with hi | rfl | hi
    · rw [if_neg (hlast _ hi (Nat.lt_succ_self _))]
      rw [List.getElem?_append_left hi] at hw
      exact ih hw fun j hij hj => hlast j hij (Nat.lt_succ_of_lt hj)
    · rw [List.getElem?_concat_length] at hw
      rw [if_pos hplace, Option.some.inj hw]
    · rw [List.getElem?_eq_none (by rw [List.length_append, List.length_singleton]; omega)] at hw
      exact absurd hw nofun

end Upload

theorem pixelIndex?_eq (g : Vga) {x y : Nat} (hx : x < 320) (hy : y < 200) :
    g.pixelIndex? x y = g.picture[(320 * y + x) / 4]?.map fun w =>
      Word.byte w ((320 * y + x) % 4).toUInt32 := by
  rw [pixelIndex?, if_pos ⟨hx, hy⟩, Nat.mul_comm 320 y]
  rfl

/-- An upload of `k` words takes the upload address up by `k`, modulo `2 ^ 32`. Each stored pixel
then is its byte of the last word that came to its place, or what it was before if none did, and
nothing else of the controller has changed. A picture has its size in every controller in use. -/
theorem upload_stores_pixels (g : Vga) (hpicture : g.picture.size = pictureWords) (a : UInt32)
    (ws : List UInt32) :
    let g' := g.uploaded a ws
    (g'.read 0x10).toNat = (a.toNat + ws.length) % 2 ^ 32 ∧
      (∀ x < 320, ∀ y < 200,
        (∀ i w, ws[i]? = some w → (a.toNat + i) % 2 ^ 32 = (320 * y + x) / 4 →
          (∀ j, i < j → j < ws.length → (a.toNat + j) % 2 ^ 32 ≠ (320 * y + x) / 4) →
          ∃ index, g'.pixelIndex? x y = some index ∧
            index.toNat = w.toNat / 256 ^ ((320 * y + x) % 4) % 256) ∧
        ((∀ i < ws.length, (a.toNat + i) % 2 ^ 32 ≠ (320 * y + x) / 4) →
          g'.pixelIndex? x y = g.pixelIndex? x y)) ∧
      g' = { g with upload := g'.upload, picture := g'.picture } := by
  intro g'
  refine ⟨toNat_upload g a ws, fun x hx y hy => ⟨?_, ?_⟩, uploaded_eq g a ws⟩
  · intro i w hw hplace hlast
    have hin : (320 * y + x) / 4 < g.picture.size := by
      rw [hpicture, pictureWords]
      omega
    have hword : g'.picture[(320 * y + x) / 4]? = some w := by
      rw [getElem?_picture_of_last g a ws hw hplace hlast, Array.getElem?_eq_getElem hin,
        Option.map_some]
    rw [pixelIndex?_eq g' hx hy, hword, Option.map_some]
    exact ⟨_, rfl, Word.toNat_byte w (Nat.mod_lt _ (by decide))⟩
  · intro hmiss
    rw [pixelIndex?_eq g' hx hy, pixelIndex?_eq g hx hy,
      getElem?_picture_of_unreached g a ws hmiss]

/-- Words from the last address on, of which the second and the third go to the start of the
picture. -/
def wrapping : List UInt32 :=
  [0x11111111, 0x44332211, 0x88776655]

theorem upload_stores_pixels_wrapping :
    (initial .standard 2).picture.size = pictureWords ∧
      (((initial .standard 2).uploaded 0xFFFFFFFF wrapping).read 0x10).toNat = 2 ∧
      ∃ index, ((initial .standard 2).uploaded 0xFFFFFFFF wrapping).pixelIndex? 2 0 = some index ∧
        index.toNat = 0x33 := by
  have hpicture : (initial .standard 2).picture.size = pictureWords := Array.size_replicate
  obtain ⟨hread, hpixels, -⟩ :=
    upload_stores_pixels (initial .standard 2) hpicture 0xFFFFFFFF wrapping
  have hlast : ∀ j, 1 < j → j < wrapping.length →
      (0xFFFFFFFF + j) % 2 ^ 32 ≠ (320 * 0 + 2) / 4 := by
    intro j hj hlt
    obtain rfl : j = 2 := Nat.le_antisymm (Nat.le_of_lt_succ hlt) hj
    decide
  exact ⟨hpicture, hread, (hpixels 2 (by decide) 0 (by decide)).1 1 0x44332211 rfl rfl hlast⟩

end Vga

end RiscvSoc
