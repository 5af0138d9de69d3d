import Mathlib.Data.List.Induction
import Mathlib.Data.List.Shortlex
import RiscvSoc.Waveform.Identifier

/-! Identifiers of traced signals can be told apart, and read back: each is its index in digits that
count from one. They have no blank and no line break, and they leave out no string of printable
characters: longer ones follow when all shorter ones are used up. -/

namespace RiscvSoc.Waveform

theorem toNat_identifierChar {digit : Nat} (h : digit < alphabetSize) :
    (identifierChar digit).toNat = '!'.toNat + digit := by
  rw [alphabetSize] at h
  have hvalid : ('!'.toNat + digit).isValidChar :=
    .inl (Nat.lt_trans (Nat.add_lt_add_left h _) (by decide))
  rw [identifierChar, Char.ofNat, dif_pos hvalid]
  rfl

/-- The number that identifier characters denote, with digits from one to `alphabetSize`. -/
def identifierNumber (chars : List Char) : Nat :=
  chars.foldl (fun n c => alphabetSize * n + (c.toNat - '!'.toNat + 1)) 0

theorem identifierNumber_identifierChars (index : Nat) :
    identifierNumber (identifierChars index) = index + 1 := by
  induction index using identifierChars.induct with
  | case1 index hlt =>
    rw [identifierChars, if_pos hlt]
    simp [identifierNumber, toNat_identifierChar hlt]
  | case2 index hge ih =>
    have hdigit : index % alphabetSize < alphabetSize := Nat.mod_lt _ (by decide)
    rw [identifierNumber] at ih
    rw [identifierChars, if_neg hge, identifierNumber, List.foldl_append, ih,
      List.foldl_cons, List.foldl_nil, toNat_identifierChar hdigit, Nat.add_sub_cancel_left]
    rw [alphabetSize] at *
    omega

theorem toList_identifier (index : Nat) : (identifier index).toList = identifierChars index :=
  String.toList_ofList

theorem identifier_injective : Function.Injective identifier := by
  intro i j h
  have hchars : identifierChars i = identifierChars j := by
    have hlists := congrArg String.toList h
    rwa [toList_identifier, toList_identifier] at hlists
  have hnumber := congrArg identifierNumber hchars
  rw [identifierNumber_identifierChars, identifierNumber_identifierChars] at hnumber
  exact Nat.succ.inj hnumber

theorem printable_of_mem_identifierChars {index : Nat} {c : Char} (h : c ∈ identifierChars index) :
    '!'.toNat ≤ c.toNat ∧ c.toNat ≤ '~'.toNat := by
  have hchar : ∀ digit < alphabetSize, '!'.toNat ≤ (identifierChar digit).toNat ∧
      (identifierChar digit).toNat ≤ '~'.toNat := by
    intro digit hdigit
    rw [toNat_identifierChar hdigit]
    rw [alphabetSize] at hdigit
    exact ⟨Nat.le_add_right _ _, Nat.add_le_add_left (Nat.le_of_lt_succ hdigit) _⟩
  induction index using identifierChars.induct with
  | case1 index hlt =>
    rw [identifierChars, if_pos hlt, List.mem_singleton] at h
    rw [h]
    exact hchar index hlt
  | case2 index hge ih =>
    rw [identifierChars, if_neg hge, List.mem_append, List.mem_singleton] at h
    rcases h with h | rfl
    · exact ih h
    · exact hchar _ (Nat.mod_lt _ (by decide))

theorem not_mem_identifierChars (index : Nat) :
    ' ' ∉ identifierChars index ∧ '\n' ∉ identifierChars index :=
  ⟨fun h => absurd (printable_of_mem_identifierChars h).1 (by decide),
    fun h => absurd (printable_of_mem_identifierChars h).1 (by decide)⟩

/-- A string that can be an identifier: one or more printable characters, none of them a blank. -/
structure IsIdentifier (s : String) : Prop where
  ne_empty : s ≠ ""
  printable : ∀ c ∈ s.toList, '!' ≤ c ∧ c ≤ '~'

/-- How many identifiers have at most a given length: none is empty, and a longer one is a single
character or a shorter one with a character behind it. -/
def identifiersUpTo : Nat → Nat
  | 0 => 0
  | length + 1 => alphabetSize * (identifiersUpTo length + 1)

theorem identifierChars_digit {digit : Nat} (h : digit < alphabetSize) :
    identifierChars digit = [identifierChar digit] := by
  rw [identifierChars, if_pos h]

theorem identifierChars_concat {digit : Nat} (h : digit < alphabetSize) (index : Nat) :
    identifierChars (alphabetSize * (index + 1) + digit) =
      identifierChars index ++ [identifierChar digit] := by
  have hge : ¬ alphabetSize * (index + 1) + digit < alphabetSize := by
    rw [alphabetSize]
    omega
  have hfront : (alphabetSize * (index + 1) + digit) / alphabetSize - 1 = index := by
    rw [alphabetSize] at *
    omega
  rw [identifierChars, if_neg hge, hfront, Nat.mul_add_mod, Nat.mod_eq_of_lt h]

theorem identifierChars_ne_nil (index : Nat) : identifierChars index ≠ [] := by
  rw [identifierChars]
  split
  · exact List.cons_ne_nil _ _
  · exact List.append_ne_nil_of_right_ne_nil _ (List.cons_ne_nil _ _)

theorem identifierChar_lt {a b : Nat} (hab : a < b) (hb : b < alphabetSize) :
    identifierChar a < identifierChar b := by
  have hnumbers : (identifierChar a).toNat < (identifierChar b).toNat := by
    rw [toNat_identifierChar (Nat.lt_trans hab hb), toNat_identifierChar hb]
    exact Nat.add_lt_add_left hab _
  exact UInt32.lt_iff_toNat_lt.mpr hnumbers

theorem exists_identifierChar {c : Char} (h : '!' ≤ c ∧ c ≤ '~') :
    ∃ digit < alphabetSize, identifierChar digit = c := by
  have hlow : '!'.toNat ≤ c.toNat := UInt32.le_iff_toNat_le.mp h.1
  have hhigh : c.toNat < '!'.toNat + alphabetSize :=
    Nat.lt_succ_of_le (UInt32.le_iff_toNat_le.mp h.2)
  refine ⟨c.toNat - '!'.toNat, by omega, ?_⟩
  rw [identifierChar, Nat.add_sub_cancel' hlow, Char.ofNat_toNat]

/-- An identifier has as many characters as its index makes necessary. -/
theorem length_identifierChars_le_iff (index n : Nat) :
    (identifierChars index).length ≤ n ↔ index < identifiersUpTo n := by
  induction index using identifierChars.induct generalizing n with
  | case1 index hlt =>
    rw [identifierChars_digit hlt, List.length_singleton]
    cases n with
    | zero => simp [identifiersUpTo]
    | succ n =>
      have hfirst : alphabetSize ≤ identifiersUpTo (n + 1) :=
        Nat.le_mul_of_pos_right _ (Nat.succ_pos _)
      exact iff_of_true (Nat.succ_le_succ (Nat.zero_le n)) (Nat.lt_of_lt_of_le hlt hfirst)
  | case2 index hge ih =>
    rw [identifierChars, if_neg hge, List.length_append, List.length_singleton]
    cases n with
    | zero => simp [identifiersUpTo]
    | succ n =>
      rw [Nat.succ_le_succ_iff, ih, identifiersUpTo]
      rw [alphabetSize] at *
      omega

theorem shortlex_concat {α : Type} {r : α → α → Prop} {s t : List α} (h : List.Shortlex r s t)
    (a b : α) : List.Shortlex r (s ++ [a]) (t ++ [b]) := by
  rcases List.shortlex_def.mp h with hlength | ⟨hlength, hlex⟩
  · apply List.Shortlex.of_length_lt
    simpa using hlength
  · refine List.Shortlex.of_lex (by simpa using hlength) ?_
    clear h
    induction hlex with
    | nil => cases hlength
    | rel hitem => exact .rel hitem
    | cons _ ih => exact .cons (ih (Nat.succ.inj hlength))

theorem shortlex_identifierChars {i j : Nat} (h : i < j) :
    List.Shortlex (· < ·) (identifierChars i) (identifierChars j) := by
  induction j using identifierChars.induct generalizing i with
  | case1 j hj =>
    rw [identifierChars_digit (Nat.lt_trans h hj), identifierChars_digit hj,
      List.shortlex_singleton_iff]
    exact identifierChar_lt h hj
  | case2 j hj ih =>
    rw [identifierChars.eq_def j, if_neg hj]
    by_cases hi : i < alphabetSize
    · have hfront := List.length_pos_iff.mpr (identifierChars_ne_nil (j / alphabetSize - 1))
      apply List.Shortlex.of_length_lt
      rw [identifierChars_digit hi, List.length_append, List.length_singleton,
        List.length_singleton]
      omega
    · rw [identifierChars.eq_def i, if_neg hi]
      -- the characters in front decide, and the last one if they are the same
      have hsplit : i / alphabetSize - 1 < j / alphabetSize - 1 ∨
          i / alphabetSize - 1 = j / alphabetSize - 1 ∧ i % alphabetSize < j % alphabetSize := by
        rw [alphabetSize] at *
        omega
      rcases hsplit with hfront | ⟨hfront, hlast⟩
      · exact shortlex_concat (ih hfront) _ _
      · rw [hfront]
        have hchar := identifierChar_lt hlast (Nat.mod_lt j (by decide))
        exact ((List.shortlex_singleton_iff _ _).mpr hchar).append_left _

theorem exists_identifierChars {cs : List Char} (hne : cs ≠ [])
    (h : ∀ c ∈ cs, '!' ≤ c ∧ c ≤ '~') : ∃ index, identifierChars index = cs := by
  induction cs using List.reverseRecOn with
  | nil => exact absurd rfl hne
  | append_singleton cs c ih =>
    obtain ⟨digit, hdigit, rfl⟩ := exists_identifierChar (h c (by simp))
    by_cases hfront : cs = []
    · rw [hfront]
      exact ⟨digit, identifierChars_digit hdigit⟩
    · obtain ⟨index, rfl⟩ := ih hfront fun d hd => h d (List.mem_append_left _ hd)
      exact ⟨alphabetSize * (index + 1) + digit, identifierChars_concat hdigit index⟩

theorem isIdentifier_identifier (index : Nat) : IsIdentifier (identifier index) := by
  constructor
  · intro hempty
    have hnil := congrArg String.toList hempty
    rw [toList_identifier] at hnil
    exact identifierChars_ne_nil index hnil
  · intro c hc
    rw [toList_identifier] at hc
    have hprintable := printable_of_mem_identifierChars hc
    exact ⟨UInt32.le_iff_toNat_le.mpr hprintable.1, UInt32.le_iff_toNat_le.mpr hprintable.2⟩

theorem exists_identifier {s : String} (h : IsIdentifier s) : ∃ index, identifier index = s := by
  obtain ⟨index, hindex⟩ := exists_identifierChars (by simpa using h.ne_empty) h.printable
  exact ⟨index, by rw [identifier, hindex, String.ofList_toList]⟩

theorem shortlex_identifier_iff (i j : Nat) :
    List.Shortlex (· < ·) (identifier i).toList (identifier j).toList ↔ i < j := by
  rw [toList_identifier, toList_identifier]
  refine ⟨fun h => ?_, shortlex_identifierChars⟩
  rcases Nat.lt_trichotomy i j with hlt | rfl | hgt
  · exact hlt
  · exact absurd h (Std.Asymm.asymm _ _ h)
  · exact absurd h (Std.Asymm.asymm _ _ (shortlex_identifierChars hgt))

/-- The identifiers are all the strings of printable characters, each of them for one index. They
are numbered by length and, where that is the same, as in a dictionary. The first
`identifiersUpTo n` indices, and no others, need at most `n` characters, and every character is one
round of the recursion. -/
theorem identifier_enumerates :
    (∀ s, IsIdentifier s ↔ ∃ index, identifier index = s) ∧
      Function.Injective identifier ∧
      (∀ i j, List.Shortlex (· < ·) (identifier i).toList (identifier j).toList ↔ i < j) ∧
      ∀ index n, (identifier index).length ≤ n ↔ index < identifiersUpTo n := by
  refine ⟨fun s => ⟨exists_identifier, ?_⟩, identifier_injective, shortlex_identifier_iff,
    fun index n => ?_⟩
  · rintro ⟨index, rfl⟩
    exact isIdentifier_identifier index
  · rw [identifier, String.length_ofList]
    exact length_identifierChars_le_iff index n

/-- Ten characters are enough for every 64-bit index. -/
example : 2 ^ 64 ≤ identifiersUpTo 10 := by decide

end RiscvSoc.Waveform
