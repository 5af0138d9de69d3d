import Mathlib.Data.List.Basic
import RiscvSoc.Proofs.Memory.Flat
import RiscvSoc.Proofs.Signature.Coverage
import RiscvSoc.Proofs.Text.Hex

namespace RiscvSoc

/-- Lines that each end in a line break, and the empty rest behind the last one. -/
theorem splitOn_flatMap_concat {α : Type} [BEq α] [LawfulBEq α] {stop : α} {lines : List (List α)}
    (h : ∀ line ∈ lines, stop ∉ line) :
    (lines.flatMap (· ++ [stop])).splitOn stop = lines ++ [[]] := by
  induction lines with
  | nil => rfl
  | cons line lines ih =>
    rw [List.forall_mem_cons] at h
    rw [List.flatMap_cons, List.append_assoc, List.singleton_append,
      List.splitOn_append_cons_self_of_not_mem h.1, ih h.2, List.cons_append]

/-- The port reads the word that an address names without its select field; beyond the capacity it
reads zero. -/
theorem DebugPort.readWord_eq (m : Memory) (a : UInt32) :
    readWord m a = m.words[a.toNat % 2 ^ 29 / 4]?.getD 0 := by
  have haddress : Memory.wordIndex (a &&& deviceMask) = a.toNat % 2 ^ 29 / 4 := by
    rw [Memory.wordIndex_eq, Word.toNat_and_mask a (k := 29) rfl]
  rw [← haddress]
  rfl

section Text

variable (m : Memory) (r : SignatureRange)

theorem length_readSignature : (readSignature m r).length = r.words := by
  rw [readSignature, List.length_map, r.length_addresses]

def hexLines (ws : List UInt32) : List (List Char) :=
  ws.map fun w => (Hex.word w).toList

theorem toList_signatureText :
    (signatureText m r).toList = (hexLines (readSignature m r)).flatMap (· ++ ['\n']) := by
  rw [signatureText, String.toList_join, List.flatMap_map, hexLines, List.flatMap_map]
  simp only [String.toList_append]
  rfl

theorem hexLines_spec {ws : List UInt32} {line : List Char} (h : line ∈ hexLines ws) :
    line.length = 8 ∧ ∀ c ∈ line, c ∈ Hex.lowerDigits := by
  obtain ⟨w, -, rfl⟩ := List.mem_map.mp h
  rw [Hex.toList_word]
  exact ⟨Hex.length_digits 8 w.toNat, fun c => Hex.mem_lowerDigits⟩

theorem splitOn_signatureText :
    (signatureText m r).toList.splitOn '\n' = hexLines (readSignature m r) ++ [[]] := by
  rw [toList_signatureText]
  refine splitOn_flatMap_concat fun line hline hbreak => ?_
  exact absurd ((hexLines_spec hline).2 _ hbreak) (by decide)

theorem hexLines_injective : Function.Injective hexLines := by
  refine List.map_injective_iff.mpr fun w w' h => ?_
  have hvalue := congrArg Hex.value? h
  rw [Hex.value?_word, Hex.value?_word] at hvalue
  exact UInt32.toNat_inj.mp (Option.some.inj hvalue)

theorem signatureText_eq_iff (m' : Memory) (r' : SignatureRange) :
    signatureText m' r' = signatureText m r ↔ readSignature m' r' = readSignature m r := by
  constructor
  · intro htext
    have hlines := congrArg (fun text => text.toList.splitOn '\n') htext
    simp only [splitOn_signatureText, List.append_cancel_right_eq] at hlines
    exact hexLines_injective hlines
  · intro hwords
    rw [signatureText, signatureText, hwords]

/-- The text has one line of eight lower-case digits for each address of the range; line `k` denotes
the word of memory that address `k` names without its select field, and that is the word read there.
The text determines the words and the words determine the text. -/
theorem signatureText_lines :
    ∃ lines : List (List Char),
      (signatureText m r).toList = lines.flatMap (· ++ ['\n']) ∧
      (signatureText m r).toList.splitOn '\n' = lines ++ [[]] ∧ lines.length = r.words ∧
      (∀ line ∈ lines, line.length = 8 ∧ ∀ c ∈ line, c ∈ "0123456789abcdef".toList) ∧
      (∀ k < r.words, ∃ line a w, lines[k]? = some line ∧ r.addresses[k]? = some a ∧
        (readSignature m r)[k]? = some w ∧ Hex.value? line = some w.toNat ∧
        w = m.words[a.toNat % 2 ^ 29 / 4]?.getD 0) ∧
      ∀ m' r', signatureText m' r' = signatureText m r ↔
        readSignature m' r' = readSignature m r := by
  refine ⟨hexLines (readSignature m r), toList_signatureText m r, splitOn_signatureText m r, ?_, ?_,
    ?_, signatureText_eq_iff m r⟩
  · rw [hexLines, List.length_map, length_readSignature]
  · intro line hline
    exact hexLines_spec hline
  · intro k hk
    obtain ⟨a, ha, -⟩ := r.getElem?_addresses hk
    have hword : (readSignature m r)[k]? = some (DebugPort.readWord m a) := by
      rw [readSignature, List.getElem?_map, ha, Option.map_some]
    refine ⟨(Hex.word (DebugPort.readWord m a)).toList, a, DebugPort.readWord m a, ?_, ha, hword,
      Hex.value?_word _, DebugPort.readWord_eq m a⟩
    rw [hexLines, List.getElem?_map, hword, Option.map_some]

end Text

/-- A range across the border of two select fields, of which the first word lies beyond a memory of
two words. -/
def bordering : SignatureRange :=
  ⟨0x1FFFFFFE, 0x20000005⟩

theorem signatureText_lines_bordering :
    ∃ line, ((signatureText ⟨#[0xDEADBEEF, 7]⟩ bordering).toList.splitOn '\n')[1]? = some line ∧
      line.length = 8 ∧ Hex.value? line = some 0xDEADBEEF := by
  obtain ⟨lines, -, hsplit, -, hdigits, hwords, -⟩ :=
    signatureText_lines ⟨#[0xDEADBEEF, 7]⟩ bordering
  obtain ⟨line, a, w, hline, ha, hw, hvalue, -⟩ := hwords 1 (by decide)
  have hplace : 1 < lines.length := (List.getElem?_eq_some_iff.mp hline).1
  refine ⟨line, ?_, (hdigits line (List.mem_of_getElem? hline)).1, ?_⟩
  · rw [hsplit, List.getElem?_append_left hplace, hline]
  · have hread : (readSignature ⟨#[0xDEADBEEF, 7]⟩ bordering)[1]? = some 0xDEADBEEF := by decide
    rw [hvalue, Option.some.inj (hw.symm.trans hread)]
    rfl

end RiscvSoc
