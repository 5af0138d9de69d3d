import Mathlib.Tactic.SplitIfs
import RiscvSoc.Json.Printer
import RiscvSoc.Proofs.Json.Reader
import RiscvSoc.Proofs.Text.Hex

/-! Every value has a text: the shortest, without blanks, in which only the characters that must be
escaped are. Reading it gives the value back. -/

namespace RiscvSoc.Json

/-- A string between its quotes; half of a surrogate pair stands for a string without a text. -/
def stringChars : Option String → List Char
  | some text => text.toList.flatMap escapeChar
  | none => ['\\', 'u', 'd', '8', '0', '0']

mutual

def compactChars : Json → List Char
  | .null => ['n', 'u', 'l', 'l']
  | .bool true => ['t', 'r', 'u', 'e']
  | .bool false => ['f', 'a', 'l', 's', 'e']
  | .natural n => Nat.toDigits 10 n
  | .otherNumber => ['-', '0']
  | .string text => '"' :: (stringChars text ++ ['"'])
  | .array items => '[' :: (itemsChars items ++ [']'])
  | .object members => '\x7b' :: (membersChars members ++ ['\x7d'])

def itemsChars : List Json → List Char
  | [] => []
  | [j] => j.compactChars
  | j :: js => j.compactChars ++ ',' :: itemsChars js

def membersChars : List (Option String × Json) → List Char
  | [] => []
  | [(key, j)] => '"' :: (stringChars key ++ '"' :: ':' :: j.compactChars)
  | (key, j) :: ms =>
    '"' :: (stringChars key ++ '"' :: ':' :: (j.compactChars ++ ',' :: membersChars ms))

end

def compact (j : Json) : String :=
  String.ofList j.compactChars

theorem hexValue_control : ∀ n < 0x20, Hex.value? (Hex.digits 4 n) = some n := by
  intro n hn
  rw [Hex.value?_digits, Nat.mod_eq_of_lt (Nat.lt_trans hn (by decide))]

theorem not_surrogate_of_lt {n : Nat} (h : n < 0xD800) :
    isHighSurrogate n = false ∧ isLowSurrogate n = false := by
  simp only [isHighSurrogate, isLowSurrogate, Bool.and_eq_false_iff, decide_eq_false_iff_not]
  omega

/-- A character is written as an escape of one letter, as a code, or as it is. -/
theorem escapeChar_cases (c : Char) :
    (∃ e, simpleEscape? e = some c ∧ escapeChar c = ['\\', e]) ∨
      (c.toNat < 0x20 ∧ escapeChar c = '\\' :: 'u' :: Hex.digits 4 c.toNat) ∨
      (0x20 ≤ c.toNat ∧ c ≠ '"' ∧ c ≠ '\\' ∧ escapeChar c = [c]) := by
  rw [escapeChar]
  split_ifs with hquote hescape hb hf hn hr ht hcontrol
  · exact .inl ⟨'"', by rw [hquote]; rfl, rfl⟩
  · exact .inl ⟨'\\', by rw [hescape]; rfl, rfl⟩
  · exact .inl ⟨'b', by rw [hb]; rfl, rfl⟩
  · exact .inl ⟨'f', by rw [hf]; rfl, rfl⟩
  · exact .inl ⟨'n', by rw [hn]; rfl, rfl⟩
  · exact .inl ⟨'r', by rw [hr]; rfl, rfl⟩
  · exact .inl ⟨'t', by rw [ht]; rfl, rfl⟩
  · exact .inr (.inl ⟨hcontrol, rfl⟩)
  · exact .inr (.inr ⟨Nat.le_of_not_lt hcontrol, hquote, hescape, rfl⟩)

theorem exists_units (cs : List Char) :
    ∃ units, SpellsUnits units (cs.flatMap escapeChar) ∧ Denotes units cs := by
  induction cs with
  | nil => exact ⟨[], .nil, .nil⟩
  | cons c cs ih =>
    obtain ⟨units, hspells, hdenotes⟩ := ih
    rw [List.flatMap_cons]
    rcases escapeChar_cases c with ⟨e, he, heq⟩ | ⟨hcontrol, heq⟩ | ⟨hcontrol, hquote, hescape, heq⟩
    · rw [heq]
      exact ⟨.char c :: units, .escape he hspells, .char hdenotes⟩
    · obtain ⟨hhigh, hlow⟩ := not_surrogate_of_lt (n := c.toNat) (by omega)
      have hcode : Denotes (.code c.toNat :: units) (Char.ofNat c.toNat :: cs) :=
        .code hhigh hlow hdenotes
      rw [Char.ofNat_toNat] at hcode
      rw [heq]
      exact ⟨.code c.toNat :: units, .code rfl (hexValue_control _ hcontrol) hspells, hcode⟩
    · rw [heq]
      exact ⟨.char c :: units, .char hcontrol hquote hescape hspells, .char hdenotes⟩

theorem spells_stringChars (text : Option String) : SpellsString text (stringChars text) := by
  cases text with
  | none =>
    have hspells : SpellsUnits [.code 0xD800] ('\\' :: 'u' :: (['d', '8', '0', '0'] ++ [])) :=
      .code rfl rfl .nil
    exact spellsString_of_units hspells
  | some text =>
    obtain ⟨units, hspells, hdenotes⟩ := exists_units text.toList
    have hstring := spellsString_of_units hspells
    rwa [textOfUnits_eq_some_iff.mpr hdenotes, Option.map_some, String.ofList_toList] at hstring

mutual

theorem spells_compactChars : ∀ j : Json, Spells (.value j) j.compactChars
  | .null => .null
  | .bool true => .true
  | .bool false => .false
  | .natural n => by
    have h : Spells (.value (.natural n)) ([] ++ (Nat.toDigits 10 n ++ ([] ++ []))) :=
      @Spells.number n false false false [] [] .missing .missing
    rwa [List.nil_append, List.append_nil, List.append_nil] at h
  | .otherNumber => @Spells.number 0 true false false [] [] .missing .missing
  | .string text => .string (spells_stringChars text)
  | .array [] => .emptyArray blank_nil
  | .array (j :: js) => .array (spells_itemsChars (j :: js) (List.cons_ne_nil j js))
  | .object [] => .emptyObject blank_nil
  | .object (m :: ms) => .object (spells_membersChars (m :: ms) (List.cons_ne_nil m ms))

theorem spells_itemsChars : ∀ js : List Json, js ≠ [] → Spells (.items js) (itemsChars js)
  | [], hne => absurd rfl hne
  | [j], _ => .lastItem (spells_compactChars j)
  | j :: k :: js, _ =>
    .item (spells_compactChars j) (spells_itemsChars (k :: js) (List.cons_ne_nil k js))

theorem spells_membersChars : ∀ ms : List (Option String × Json), ms ≠ [] →
    Spells (.members ms) (membersChars ms)
  | [], hne => absurd rfl hne
  | [(key, j)], _ =>
    .lastMember blank_nil (spells_stringChars key) blank_nil (spells_compactChars j)
  | (key, j) :: m :: ms, _ =>
    .member blank_nil (spells_stringChars key) blank_nil (spells_compactChars j)
      (spells_membersChars (m :: ms) (List.cons_ne_nil m ms))

end

theorem spelledBy_compact (j : Json) : SpelledBy j j.compact := by
  rw [SpelledBy, compact, String.toList_ofList]
  exact spells_compactChars j

/-- Any value is read back from its compact text. -/
theorem parse?_compact (j : Json) : parse? j.compact = some j :=
  parse?_of_spelledBy j.spelledBy_compact

end RiscvSoc.Json
