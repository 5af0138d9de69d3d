import Mathlib.Data.Nat.Digits.Defs
import Mathlib.Tactic.Ring
import RiscvSoc.Proofs.Text.Hex
import RiscvSoc.Text.Numeral

/-! Texts and the numbers that they denote: digits of either letter case behind at most one plus
sign, and in front of a hexadecimal number one marker. The readers of both notations take these
texts and no others, as far as the number fits. Among them are the texts that write a number: its
digits behind any zeros, with the marker if they are hexadecimal. The reader of decimal numbers
refuses the marker. -/

namespace RiscvSoc.Numeral

/-- The number that digits denote which come after digits of the number `acc`. -/
def valueFrom? (base acc : Nat) (cs : List Char) : Option Nat :=
  cs.foldlM (fun n c => (digit? base c).map (n * base + ·)) acc

/-- The character is the digit `d` of a base; a letter may have either case. -/
def IsDigit (base : Nat) (c : Char) (d : Nat) : Prop :=
  d < base ∧ c.toLower = d.digitChar

/-- One digit of a base or more, which denote `n`. -/
def Digits (base n : Nat) (cs : List Char) : Prop :=
  cs ≠ [] ∧ ∃ digits, List.Forall₂ (IsDigit base) cs digits ∧ Nat.ofDigits base digits.reverse = n

/-- Digits behind at most one plus sign. -/
def SignedDigits (base n : Nat) (cs : List Char) : Prop :=
  Digits base n cs ∨ ∃ digits, cs = '+' :: digits ∧ Digits base n digits

/-- The text denotes `n`. What starts with `0x` or `0X` cannot be decimal, for a marker is no
digit. -/
inductive Denotes (n : Nat) (text : String) : Prop where
  | decimal (h : SignedDigits 10 n text.toList)
  | hexadecimal (marker : Char) (cs : List Char) (hmarker : marker = 'x' ∨ marker = 'X')
    (htext : text.toList = '0' :: marker :: cs) (h : SignedDigits 16 n cs)

def Writes (base n : Nat) (cs : List Char) : Prop :=
  ∃ zeros, cs.map Char.toLower = List.replicate zeros '0' ++ Nat.toDigits base n

inductive Radix where
  | decimal
  | hexadecimal
  deriving DecidableEq

/-- The text is a way to write `n`; a hexadecimal one starts with `0x` or `0X`. -/
def Radix.Spells (n : Nat) (text : String) : Radix → Prop
  | .decimal => Writes 10 n text.toList
  | .hexadecimal => ∃ marker cs,
    (marker = 'x' ∨ marker = 'X') ∧ text.toList = '0' :: marker :: cs ∧ Writes 16 n cs

theorem digit?_digitChar {base digit : Nat} (h : digit < base) (hbase : base ≤ 16) :
    digit? base digit.digitChar = some digit := by
  rw [digit?, Hex.digitValue?_digitChar (Nat.lt_of_lt_of_le h hbase), Option.filter_some,
    if_pos (decide_eq_true h)]

theorem digit?_toLower (base : Nat) (c : Char) : digit? base c.toLower = digit? base c := by
  rw [digit?, digit?, Hex.digitValue?_toLower]

theorem digit?_eq_some_iff {base d : Nat} {c : Char} (hbase : base ≤ 16) :
    digit? base c = some d ↔ IsDigit base c d := by
  constructor
  · intro h
    rw [digit?, Option.filter_eq_some_iff] at h
    exact ⟨of_decide_eq_true h.2, Hex.toLower_of_digitValue? h.1⟩
  · rintro ⟨hd, hc⟩
    rw [← digit?_toLower, hc, digit?_digitChar hd hbase]

section valueFrom

variable {base acc n : Nat} {c : Char} {cs : List Char}

theorem valueFrom?_nil : valueFrom? base acc [] = some acc := rfl

theorem valueFrom?_cons : valueFrom? base acc (c :: cs) =
    (digit? base c).bind fun d => valueFrom? base (acc * base + d) cs := by
  cases h : digit? base c <;> simp [valueFrom?, h]

theorem valueFrom?_append (cs' : List Char) : valueFrom? base acc (cs ++ cs') =
    (valueFrom? base acc cs).bind fun n => valueFrom? base n cs' :=
  List.foldlM_append

theorem valueFrom?_toLower : valueFrom? base acc (cs.map Char.toLower) = valueFrom? base acc cs := by
  simp only [valueFrom?, List.foldlM_map, digit?_toLower]

theorem valueFrom?_zeros (hbase : 0 < base) (count : Nat) :
    valueFrom? base 0 (List.replicate count '0') = some 0 := by
  induction count with
  | zero => rfl
  | succ count ih =>
    have hzero : digit? base '0' = some 0 := by
      rw [digit?, show Hex.digitValue? '0' = some 0 from rfl, Option.filter_some,
        if_pos (decide_eq_true hbase)]
    rw [List.replicate_succ, valueFrom?_cons, hzero, Option.bind_some, Nat.zero_mul, Nat.add_zero, ih]

theorem valueFrom?_toDigits (hlow : 1 < base) (hhigh : base ≤ 16) (n : Nat) :
    valueFrom? base 0 (Nat.toDigits base n) = some n := by
  induction n using Nat.strongRecOn with
  | ind n ih =>
    rw [Nat.toDigits_eq_if hlow]
    split
    · rename_i hlt
      rw [valueFrom?_cons, digit?_digitChar hlt hhigh, Option.bind_some, Nat.zero_mul, Nat.zero_add,
        valueFrom?_nil]
    · rename_i hge
      have hquotient : n / base < n := Nat.div_lt_self (by omega) hlow
      have hdigit : n % base < base := Nat.mod_lt _ (by omega)
      rw [valueFrom?_append, ih _ hquotient, Option.bind_some, valueFrom?_cons,
        digit?_digitChar hdigit hhigh, Option.bind_some, valueFrom?_nil, Nat.div_add_mod']

/-- Digits only add to the number in front of them. -/
theorem le_of_valueFrom? (hbase : 0 < base) (h : valueFrom? base acc cs = some n) : acc ≤ n := by
  induction cs generalizing acc with
  | nil => exact Nat.le_of_eq (Option.some.inj h)
  | cons c cs ih =>
    rw [valueFrom?_cons] at h
    obtain ⟨d, -, h⟩ := Option.bind_eq_some_iff.mp h
    have hacc : acc ≤ acc * base := Nat.le_mul_of_pos_right acc hbase
    exact Nat.le_trans (by omega) (ih h)

/-- Reading with a bound finds exactly the numbers below it. -/
theorem accumulate_eq_ok_iff {bound : Nat} (hbase : 0 < base) (hacc : acc < bound) :
    accumulate base bound acc cs = .ok n ↔ valueFrom? base acc cs = some n ∧ n < bound := by
  induction cs generalizing acc with
  | nil =>
    rw [accumulate, valueFrom?_nil, Except.ok.injEq, Option.some.injEq]
    constructor
    · rintro rfl
      exact ⟨rfl, hacc⟩
    · exact And.left
  | cons c cs ih =>
    rw [accumulate, valueFrom?_cons]
    cases digit? base c with
    | none => simp
    | some d =>
      rw [Option.bind_some]
      dsimp only
      split
      · rename_i hlt
        exact ih hlt
      · rename_i hge
        constructor
        · intro h
          cases h
        · rintro ⟨h, hn⟩
          exact absurd (Nat.lt_of_le_of_lt (le_of_valueFrom? hbase h) hn) hge

theorem valueFrom?_eq_some_iff (hbase : base ≤ 16) : valueFrom? base acc cs = some n ↔
    ∃ digits, List.Forall₂ (IsDigit base) cs digits ∧
      acc * base ^ digits.length + Nat.ofDigits base digits.reverse = n := by
  induction cs generalizing acc with
  | nil =>
    rw [valueFrom?_nil]
    constructor
    · rintro ⟨⟩
      exact ⟨[], .nil, by simp⟩
    · rintro ⟨digits, hdigits, rfl⟩
      cases hdigits
      simp
  | cons c cs ih =>
    have hmore (d : Nat) (digits : List Nat) :
        acc * base ^ (d :: digits).length + Nat.ofDigits base (d :: digits).reverse =
          (acc * base + d) * base ^ digits.length + Nat.ofDigits base digits.reverse := by
      rw [List.length_cons, Nat.ofDigits_reverse_cons]
      ring
    simp only [valueFrom?_cons, Option.bind_eq_some_iff, digit?_eq_some_iff hbase, ih]
    constructor
    · rintro ⟨d, hd, digits, hdigits, rfl⟩
      exact ⟨d :: digits, .cons hd hdigits, hmore d digits⟩
    · rintro ⟨_, hdigits, rfl⟩
      cases hdigits with
      | cons hd hdigits => exact ⟨_, hd, _, hdigits, (hmore _ _).symm⟩

theorem digits_iff (hbase : base ≤ 16) :
    Digits base n cs ↔ cs ≠ [] ∧ valueFrom? base 0 cs = some n := by
  simp only [Digits, valueFrom?_eq_some_iff hbase, Nat.zero_mul, Nat.zero_add]

end valueFrom

section Grammar

variable {base n : Nat} {cs : List Char} {text : String}

theorem not_digits_nil : ¬ Digits base n [] :=
  fun h => h.1 rfl

theorem Digits.head {c : Char} (hbase : base ≤ 16) (h : Digits base n (c :: cs)) :
    ∃ d, digit? base c = some d := by
  obtain ⟨-, _, hdigits, -⟩ := h
  cases hdigits with
  | cons hc _ => exact ⟨_, (digit?_eq_some_iff hbase).mpr hc⟩

theorem not_digits_plus (hbase : base ≤ 16) : ¬ Digits base n ('+' :: cs) := by
  intro h
  obtain ⟨d, hd⟩ := h.head hbase
  rw [digit?, show Hex.digitValue? '+' = none from rfl] at hd
  cases hd

/-- Reading takes digits behind at most one sign and nothing else, as far as the bound allows. -/
theorem unsigned_eq_ok_iff {bound : Nat} (hlow : 0 < base) (hhigh : base ≤ 16)
    (hbound : 0 < bound) : unsigned base bound cs = .ok n ↔ SignedDigits base n cs ∧ n < bound := by
  have hread (cs : List Char) (hne : cs ≠ []) :
      accumulate base bound 0 cs = .ok n ↔ Digits base n cs ∧ n < bound := by
    rw [accumulate_eq_ok_iff hlow hbound, digits_iff hhigh, and_iff_right hne]
  unfold unsigned
  split
  · simp [SignedDigits, not_digits_nil]
  · simp [SignedDigits, not_digits_nil, not_digits_plus hhigh]
  · rename_i cs hne
    rw [hread cs (fun h => hne (h ▸ rfl))]
    simp [SignedDigits, not_digits_plus hhigh]
  · rename_i hnil hplus hsigned
    rw [hread cs hnil, SignedDigits]
    have hunsigned : ¬ ∃ digits, cs = '+' :: digits ∧ Digits base n digits :=
      fun ⟨digits, hcs, _⟩ => hsigned digits hcs
    rw [or_iff_left hunsigned]

theorem not_signedDigits_marker {marker : Char} (hmarker : marker = 'x' ∨ marker = 'X') :
    ¬ SignedDigits 10 n ('0' :: marker :: cs) := by
  rintro (⟨-, _, hdigits, -⟩ | ⟨_, hplus, -⟩)
  · cases hdigits with
    | cons _ hdigits => cases hdigits with
      | cons hdigit _ =>
        rw [← digit?_eq_some_iff (by decide)] at hdigit
        rcases hmarker with rfl | rfl <;> cases hdigit
  · cases hplus

/-- A marker in front makes the rest hexadecimal; without one, all of it is decimal. -/
theorem radix_cases (cs : List Char) :
    (∃ marker rest, (marker = 'x' ∨ marker = 'X') ∧ cs = '0' :: marker :: rest ∧
      radix cs = (16, rest)) ∨ radix cs = (10, cs) := by
  unfold radix
  split
  · exact .inl ⟨_, _, .inl rfl, rfl, rfl⟩
  · exact .inl ⟨_, _, .inr rfl, rfl, rfl⟩
  · exact .inr rfl

theorem denotes_iff :
    Denotes n text ↔ SignedDigits (radix text.toList).1 n (radix text.toList).2 := by
  rcases radix_cases text.toList with ⟨marker, rest, hmarker, htext, hradix⟩ | hradix
  · rw [hradix]
    constructor
    · rintro (h | ⟨marker', rest', -, htext', h⟩)
      · rw [htext] at h
        exact absurd h (not_signedDigits_marker hmarker)
      · rw [htext] at htext'
        cases htext'
        exact h
    · exact .hexadecimal marker rest hmarker htext
  · rw [hradix]
    constructor
    · rintro (h | ⟨marker, rest, hmarker, htext, h⟩)
      · exact h
      · rw [htext] at hradix
        rcases hmarker with rfl | rfl <;> cases hradix
    · exact .decimal

theorem parse64_eq_ok_iff {w : UInt64} : parse64 text = .ok w ↔ Denotes w.toNat text := by
  have hbase : 0 < (radix text.toList).1 ∧ (radix text.toList).1 ≤ 16 := by
    rcases radix_cases text.toList with ⟨_, _, -, -, hradix⟩ | hradix
    · simp [hradix]
    · simp [hradix]
  have hread (n : Nat) : unsigned (radix text.toList).1 UInt64.size (radix text.toList).2 = .ok n ↔
      SignedDigits (radix text.toList).1 n (radix text.toList).2 ∧ n < UInt64.size :=
    unsigned_eq_ok_iff hbase.1 hbase.2 (by decide)
  have hdenotes : unsigned (radix text.toList).1 UInt64.size (radix text.toList).2 = .ok w.toNat ↔
      Denotes w.toNat text := by
    rw [hread, denotes_iff]
    exact and_iff_left w.toNat_lt
  rw [← hdenotes, parse64]
  cases hresult : unsigned (radix text.toList).1 UInt64.size (radix text.toList).2 with
  | error fault => simp [hresult]
  | ok n =>
    have hn : n < UInt64.size := ((hread n).mp hresult).2
    have hback : n.toUInt64.toNat = n := UInt64.toNat_ofNat_of_lt' hn
    simp [hresult, ← UInt64.toNat_inj, hback]

theorem parse32_eq_ok_iff {w : UInt32} : parse32 text = .ok w ↔ Denotes w.toNat text := by
  rw [← UInt32.toNat_toUInt64, ← parse64_eq_ok_iff, parse32]
  cases parse64 text with
  | error refusal => simp
  | ok n =>
    dsimp only
    rw [Except.ok.injEq]
    split
    · rename_i hlt
      rw [Except.ok.injEq, ← UInt32.toNat_inj, ← UInt64.toNat_inj, UInt32.toNat_toUInt64,
        UInt64.toNat_toUInt32, Nat.mod_eq_of_lt hlt]
    · rename_i hge
      have hne : n ≠ w.toUInt64 := by
        rintro rfl
        exact hge w.toNat_lt
      simp [hne]

end Grammar

namespace Writes

variable {base n : Nat} {cs : List Char}

theorem valueFrom? (hlow : 1 < base) (hhigh : base ≤ 16) (h : Writes base n cs) :
    valueFrom? base 0 cs = some n := by
  obtain ⟨zeros, h⟩ := h
  rw [← valueFrom?_toLower, h, valueFrom?_append, valueFrom?_zeros (by omega), Option.bind_some,
    valueFrom?_toDigits hlow hhigh]

theorem ne_nil (h : Writes base n cs) : cs ≠ [] := by
  rintro rfl
  obtain ⟨zeros, h⟩ := h
  exact Nat.toDigits_ne_nil (List.append_eq_nil_iff.mp h.symm).2

theorem signedDigits (hlow : 1 < base) (hhigh : base ≤ 16) (h : Writes base n cs) :
    SignedDigits base n cs :=
  .inl ((digits_iff hhigh).mpr ⟨h.ne_nil, h.valueFrom? hlow hhigh⟩)

end Writes

section Spellings

variable {n : Nat} {text : String} {r : Radix}

theorem Radix.Spells.denotes (h : r.Spells n text) : Denotes n text := by
  cases r with
  | decimal => exact .decimal (Writes.signedDigits (by decide) (by decide) h)
  | hexadecimal =>
    obtain ⟨marker, cs, hmarker, htext, h⟩ := h
    exact .hexadecimal marker cs hmarker htext (h.signedDigits (by decide) (by decide))

theorem parse64_of_spells (h : r.Spells n text) (hn : n < UInt64.size) :
    parse64 text = .ok n.toUInt64 := by
  have hback : n.toUInt64.toNat = n := UInt64.toNat_ofNat_of_lt' hn
  rw [parse64_eq_ok_iff, hback]
  exact h.denotes

theorem parse32_of_spells (h : r.Spells n text) (hn : n < UInt64.size) :
    parse32 text = if n < UInt32.size then .ok n.toUInt32 else .error (.beyond32 text) := by
  have hback : n.toUInt64.toNat = n := UInt64.toNat_ofNat_of_lt' hn
  have hword : n.toUInt64.toUInt32 = n.toUInt32 := by
    apply UInt32.toNat_inj.mp
    simp
  rw [parse32, parse64_of_spells h hn]
  simp only [hback, hword]

theorem decimal64?_of_decimal (h : Radix.decimal.Spells n text) (hn : n < UInt64.size) :
    decimal64? text = some n.toUInt64 := by
  have hdigits : SignedDigits 10 n text.toList := Writes.signedDigits (by decide) (by decide) h
  rw [decimal64?, (unsigned_eq_ok_iff (by decide) (by decide) (by decide)).mpr ⟨hdigits, hn⟩]

theorem decimal64?_of_hexadecimal (h : Radix.hexadecimal.Spells n text) : decimal64? text = none := by
  obtain ⟨marker, cs, hmarker, htext, -⟩ := h
  rw [decimal64?, htext]
  rcases hmarker with rfl | rfl <;> rfl

end Spellings

theorem map_eq_ok_iff {ε α β : Type} {f : α → β} {result : Except ε α} {b : β} :
    result.map f = .ok b ↔ ∃ a, result = .ok a ∧ f a = b := by
  cases result <;> simp [Except.map]

/-- Each reader takes a text exactly if it denotes a number that fits, and answers that number. -/
theorem parsed_iff_denotes (text : String) (n : Nat) :
    ((parse64 text).map UInt64.toNat = .ok n ↔ Denotes n text ∧ n < 2 ^ 64) ∧
      ((parse32 text).map UInt32.toNat = .ok n ↔ Denotes n text ∧ n < 2 ^ 32) := by
  rw [map_eq_ok_iff, map_eq_ok_iff]
  refine ⟨⟨?_, ?_⟩, ?_, ?_⟩
  · rintro ⟨w, hread, rfl⟩
    exact ⟨parse64_eq_ok_iff.mp hread, w.toNat_lt⟩
  · rintro ⟨h, hn⟩
    have hback : n.toUInt64.toNat = n := UInt64.toNat_ofNat_of_lt' hn
    exact ⟨n.toUInt64, parse64_eq_ok_iff.mpr (hback.symm ▸ h), hback⟩
  · rintro ⟨w, hread, rfl⟩
    exact ⟨parse32_eq_ok_iff.mp hread, w.toNat_lt⟩
  · rintro ⟨h, hn⟩
    have hback : n.toUInt32.toNat = n := UInt32.toNat_ofNat_of_lt' hn
    exact ⟨n.toUInt32, parse32_eq_ok_iff.mpr (hback.symm ▸ h), hback⟩

example : parse64 "0X+00fF" = .ok 255 := by decide
example : (parse64 "0x0x1").toOption = none := by decide

end RiscvSoc.Numeral
