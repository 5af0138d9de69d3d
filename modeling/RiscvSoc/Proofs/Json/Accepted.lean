import Mathlib.Data.List.Induction
import RiscvSoc.Proofs.Json.Reader

/-! The reader takes in nothing but the texts of the grammar: what it has read spells the value that
it gives. The induction is on its fuel, over values, items and members at once. -/

namespace RiscvSoc.Json

theorem exists_blank (cs : List Char) : ∃ b, Blank b ∧ cs = b ++ skipBlanks cs :=
  ⟨cs.takeWhile isBlank, List.all_eq_true.mp List.all_takeWhile,
    List.takeWhile_append_dropWhile.symm⟩

theorem Spells.behind {j : Json} {a cs : List Char} (ha : Blank a) (h : Spells (.value j) cs) :
    Spells (.value j) (a ++ cs) := by
  have hpadded := Spells.padded ha blank_nil h
  rwa [List.append_nil] at hpadded

theorem Spells.before {j : Json} {b cs : List Char} (hb : Blank b) (h : Spells (.value j) cs) :
    Spells (.value j) (cs ++ b) :=
  .padded blank_nil hb h

theorem eq_append_of_expect {ws cs rest : List Char} (h : expect ws cs = some rest) :
    cs = ws ++ rest := by
  induction ws generalizing cs with
  | nil => exact Option.some.inj h
  | cons w ws ih =>
    cases cs with
    | nil => cases h
    | cons c cs =>
      rw [expect] at h
      split at h
      · rename_i hc
        rw [hc, ih h, List.cons_append]
      · cases h

theorem spells_of_readUnits {cs rest : List Char} {units : List TextUnit}
    (h : readUnits cs = some (units, rest)) :
    ∃ used, cs = used ++ '"' :: rest ∧ SpellsUnits units used := by
  fun_induction readUnits cs generalizing units rest with
  | case1 cs =>
    obtain ⟨rfl, rfl⟩ := Prod.mk.inj (Option.some.inj h)
    exact ⟨[], rfl, .nil⟩
  | case2 a b c d cs ih =>
    obtain ⟨n, hn, h⟩ := Option.bind_eq_some_iff.mp h
    obtain ⟨⟨us, r⟩, hread, heq⟩ := Option.bind_eq_some_iff.mp h
    obtain ⟨rfl, rfl⟩ := Prod.mk.inj (Option.some.inj heq)
    obtain ⟨used, rfl, hused⟩ := ih hread
    exact ⟨'\\' :: 'u' :: ([a, b, c, d] ++ used), rfl, .code rfl hn hused⟩
  | case3 e cs _ ih =>
    obtain ⟨c, hc, h⟩ := Option.bind_eq_some_iff.mp h
    obtain ⟨⟨us, r⟩, hread, heq⟩ := Option.bind_eq_some_iff.mp h
    obtain ⟨rfl, rfl⟩ := Prod.mk.inj (Option.some.inj heq)
    obtain ⟨used, rfl, hused⟩ := ih hread
    exact ⟨'\\' :: e :: used, rfl, .escape hc hused⟩
  | case4 => cases h
  | case5 c cs hquote _ hescape hcontrol ih =>
    obtain ⟨⟨us, r⟩, hread, heq⟩ := Option.map_eq_some_iff.mp h
    obtain ⟨rfl, rfl⟩ := Prod.mk.inj heq
    have hne : c ≠ '\\' := by
      intro hc
      cases cs with
      | nil => cases hread
      | cons e cs => exact hescape e cs hc rfl
    obtain ⟨used, rfl, hused⟩ := ih hread
    exact ⟨c :: used, rfl, .char (Nat.le_of_not_lt hcontrol) hquote hne hused⟩
  | case6 => cases h

theorem spells_of_readString {cs rest : List Char} {text : Option String}
    (h : readString cs = some (text, rest)) :
    ∃ used, cs = used ++ '"' :: rest ∧ SpellsString text used := by
  rw [readString, Option.map_eq_some_iff] at h
  obtain ⟨⟨units, r⟩, hunits, heq⟩ := h
  obtain ⟨rfl, rfl⟩ := Prod.mk.inj heq
  obtain ⟨used, hused, hspells⟩ := spells_of_readUnits hunits
  exact ⟨used, hused, spellsString_of_units hspells⟩

theorem eq_append_of_spanDigits {cs digits rest : List Char}
    (h : spanDigits cs = (digits, rest)) :
    cs = digits ++ rest ∧ ∀ c ∈ digits, c.isDigit = true := by
  obtain ⟨rfl, rfl⟩ := Prod.mk.inj h
  exact ⟨List.takeWhile_append_dropWhile.symm, List.all_eq_true.mp List.all_takeWhile⟩

theorem exists_digitChar {c : Char} (h : c.isDigit = true) :
    ∃ d < 10, c = Nat.digitChar d ∧ c.toNat - '0'.toNat = d := by
  have hbounds : 48 ≤ c.toNat ∧ c.toNat ≤ 57 := by
    simpa [Char.isDigit, UInt32.le_iff_toNat_le] using h
  have hd : c.toNat - 48 < 10 := by omega
  refine ⟨c.toNat - 48, hd, ?_, rfl⟩
  apply Char.toNat_inj.mp
  rw [Nat.toNat_digitChar_of_lt_ten hd]
  omega

theorem toDigits_decimal {digits : List Char} (h : Digits digits)
    (hzero : ∀ c ds, digits = c :: ds → c ≠ '0') :
    0 < decimal digits ∧ Nat.toDigits 10 (decimal digits) = digits := by
  obtain ⟨hne, hdigits⟩ := h
  induction digits using List.reverseRecOn with
  | nil => exact absurd rfl hne
  | append_singleton ds c ih =>
    obtain ⟨d, hd, hc, hvalue⟩ := exists_digitChar (hdigits c (by simp))
    have hdecimal : decimal (ds ++ [c]) = decimal ds * 10 + d := by
      rw [← hvalue, decimal, List.foldl_append]
      rfl
    rw [hdecimal]
    by_cases hnil : ds = []
    · subst hnil
      have hpos : d ≠ 0 := by
        rintro rfl
        exact hzero c [] rfl hc
      have hvalue : decimal [] * 10 + d = d := Nat.zero_add d
      rw [hvalue, Nat.toDigits_of_lt_base hd, ← hc]
      exact ⟨Nat.pos_of_ne_zero hpos, rfl⟩
    · have hfront : ∀ c' ds', ds = c' :: ds' → c' ≠ '0' := by
        rintro c' ds' rfl
        exact hzero c' (ds' ++ [c]) rfl
      obtain ⟨hpos, hds⟩ := ih hfront hnil fun c' hc' => hdigits c' (List.mem_append_left _ hc')
      refine ⟨by omega, ?_⟩
      rw [Nat.mul_comm, ← Nat.toDigits_append_toDigits (by decide) hpos hd, hds,
        Nat.toDigits_of_lt_base hd, hc]

theorem eq_toDigits_of_readInteger {cs rest : List Char} {n : Nat}
    (h : readInteger cs = some (n, rest)) : cs = Nat.toDigits 10 n ++ rest := by
  rw [readInteger] at h
  split at h
  · cases h
  · rename_i hspan
    obtain ⟨rfl, rfl⟩ := Prod.mk.inj (Option.some.inj h)
    rw [Nat.toDigits_zero]
    exact (eq_append_of_spanDigits hspan).1
  · cases h
  · rename_i digits r hnil _ hlong hspan
    obtain ⟨rfl, rfl⟩ := Prod.mk.inj (Option.some.inj h)
    obtain ⟨happend, hdigits⟩ := eq_append_of_spanDigits hspan
    have hfront : ∀ c ds, digits = c :: ds → c ≠ '0' := by
      rintro c ds hcons rfl
      exact hlong ds hcons
    rw [(toDigits_decimal ⟨hnil, hdigits⟩ hfront).2]
    exact happend

theorem spells_of_readFraction {cs rest : List Char} {fraction : Bool}
    (h : readFraction cs = some (fraction, rest)) :
    ∃ fs, cs = fs ++ rest ∧ SpellsFraction fraction fs := by
  rw [readFraction.eq_def] at h
  split at h
  · split at h
    · cases h
    · rename_i digits r hnil hspan
      obtain ⟨rfl, rfl⟩ := Prod.mk.inj (Option.some.inj h)
      obtain ⟨rfl, hdigits⟩ := eq_append_of_spanDigits hspan
      exact ⟨'.' :: digits, rfl, .given ⟨hnil, hdigits⟩⟩
  · obtain ⟨rfl, rfl⟩ := Prod.mk.inj (Option.some.inj h)
    exact ⟨[], rfl, .missing⟩

theorem digits_of_readExponentDigits {cs rest : List Char}
    (h : readExponentDigits cs = some rest) : ∃ digits, cs = digits ++ rest ∧ Digits digits := by
  rw [readExponentDigits] at h
  split at h
  · cases h
  · rename_i digits r hnil hspan
    obtain rfl := Option.some.inj h
    obtain ⟨happend, hdigits⟩ := eq_append_of_spanDigits hspan
    exact ⟨digits, happend, hnil, hdigits⟩

theorem spells_of_exponentDigits {mark : Char} {cs rest : List Char} {exponent : Bool}
    (hmark : mark = 'e' ∨ mark = 'E') (sign : List Char)
    (hsign : sign = [] ∨ sign = ['+'] ∨ sign = ['-'])
    (h : (readExponentDigits cs).map (fun rest => (true, rest)) = some (exponent, rest)) :
    ∃ es, mark :: (sign ++ cs) = es ++ rest ∧ SpellsExponent exponent es := by
  obtain ⟨r, hr, heq⟩ := Option.map_eq_some_iff.mp h
  obtain ⟨rfl, rfl⟩ := Prod.mk.inj heq
  obtain ⟨digits, rfl, hdigits⟩ := digits_of_readExponentDigits hr
  refine ⟨mark :: (sign ++ digits), ?_, .given hmark hsign hdigits⟩
  rw [List.cons_append, List.append_assoc]

theorem spells_of_readExponent {cs rest : List Char} {exponent : Bool}
    (h : readExponent cs = some (exponent, rest)) :
    ∃ es, cs = es ++ rest ∧ SpellsExponent exponent es := by
  rw [readExponent.eq_def] at h
  split at h
  case h_3 =>
    obtain ⟨rfl, rfl⟩ := Prod.mk.inj (Option.some.inj h)
    exact ⟨[], rfl, .missing⟩
  case' h_1 => have hmark : 'e' = 'e' ∨ 'e' = 'E' := .inl rfl
  case' h_2 => have hmark : 'E' = 'e' ∨ 'E' = 'E' := .inr rfl
  all_goals
    dsimp only at h
    split at h
    · exact spells_of_exponentDigits hmark ['+'] (.inr (.inl rfl)) h
    · exact spells_of_exponentDigits hmark ['-'] (.inr (.inr rfl)) h
    · exact spells_of_exponentDigits hmark [] (.inl rfl) h

theorem spells_of_readUnsigned {negative : Bool} {cs rest : List Char} {j : Json}
    (h : readUnsigned negative cs = some (j, rest)) :
    ∃ used, cs = used ++ rest ∧
      Spells (.value j) ((if negative then ['-'] else []) ++ used) := by
  obtain ⟨⟨n, r⟩, hn, h⟩ := Option.bind_eq_some_iff.mp h
  obtain ⟨⟨fraction, r'⟩, hfraction, h⟩ := Option.bind_eq_some_iff.mp h
  obtain ⟨⟨exponent, r''⟩, hexponent, h⟩ := Option.bind_eq_some_iff.mp h
  obtain ⟨rfl, rfl⟩ := Prod.mk.inj (Option.some.inj h)
  obtain ⟨fs, rfl, hfs⟩ := spells_of_readFraction hfraction
  obtain ⟨es, rfl, hes⟩ := spells_of_readExponent hexponent
  refine ⟨Nat.toDigits 10 n ++ (fs ++ es), ?_, .number hfs hes⟩
  rw [eq_toDigits_of_readInteger hn, List.append_assoc, List.append_assoc]

theorem spells_of_readNumber {cs rest : List Char} {j : Json}
    (h : readNumber cs = some (j, rest)) : ∃ used, cs = used ++ rest ∧ Spells (.value j) used := by
  rw [readNumber.eq_def] at h
  split at h
  · obtain ⟨used, rfl, hused⟩ := spells_of_readUnsigned h
    exact ⟨'-' :: used, rfl, hused⟩
  · exact spells_of_readUnsigned h

/-- What the readers take in with this much fuel. -/
structure TakesIn (fuel : Nat) : Prop where
  value {cs rest : List Char} {j : Json} (h : readValue fuel cs = some (j, rest)) :
    ∃ used, cs = used ++ rest ∧ Spells (.value j) used
  items {cs rest : List Char} {js : List Json} (h : readItems fuel cs = some (js, rest)) :
    ∃ used, cs = used ++ ']' :: rest ∧ Spells (.items js) used
  members {cs rest : List Char} {ms : List (Option String × Json)}
    (h : readMembers fuel cs = some (ms, rest)) :
    ∃ used, cs = used ++ '\x7d' :: rest ∧ Spells (.members ms) used

section

variable {fuel : Nat} {cs rest : List Char}

theorem takesIn_zero : TakesIn 0 where
  value h := by
    rw [readValue_zero] at h
    cases h
  items h := by
    rw [readItems_zero] at h
    cases h
  members h := by
    rw [readMembers_zero] at h
    cases h

theorem TakesIn.array (ih : TakesIn fuel) {j : Json}
    (h : readValue (fuel + 1) ('[' :: cs) = some (j, rest)) :
    ∃ used, '[' :: cs = used ++ rest ∧ Spells (.value j) used := by
  rw [readValue_bracket] at h
  split at h
  · rename_i r hclosed
    obtain ⟨rfl, rfl⟩ := Prod.mk.inj (Option.some.inj h)
    obtain ⟨b, hb, hcs⟩ := exists_blank cs
    rw [hclosed] at hcs
    exact ⟨'[' :: (b ++ [']']), by simp [hcs], .emptyArray hb⟩
  · rw [readItems_skipBlanks] at h
    obtain ⟨⟨js, r⟩, hread, heq⟩ := Option.map_eq_some_iff.mp h
    obtain ⟨rfl, rfl⟩ := Prod.mk.inj heq
    obtain ⟨used, rfl, hused⟩ := ih.items hread
    exact ⟨'[' :: (used ++ [']']), by simp, .array hused⟩

theorem TakesIn.object (ih : TakesIn fuel) {j : Json}
    (h : readValue (fuel + 1) ('\x7b' :: cs) = some (j, rest)) :
    ∃ used, '\x7b' :: cs = used ++ rest ∧ Spells (.value j) used := by
  rw [readValue_brace] at h
  split at h
  · rename_i r hclosed
    obtain ⟨rfl, rfl⟩ := Prod.mk.inj (Option.some.inj h)
    obtain ⟨b, hb, hcs⟩ := exists_blank cs
    rw [hclosed] at hcs
    exact ⟨'\x7b' :: (b ++ ['\x7d']), by simp [hcs], .emptyObject hb⟩
  · rw [readMembers_skipBlanks] at h
    obtain ⟨⟨ms, r⟩, hread, heq⟩ := Option.map_eq_some_iff.mp h
    obtain ⟨rfl, rfl⟩ := Prod.mk.inj heq
    obtain ⟨used, rfl, hused⟩ := ih.members hread
    exact ⟨'\x7b' :: (used ++ ['\x7d']), by simp, .object hused⟩

theorem spells_of_expect {c : Char} {ws : List Char} {value j : Json}
    (hspells : Spells (.value value) (c :: ws))
    (h : (expect ws cs).map (value, ·) = some (j, rest)) :
    ∃ used, c :: cs = used ++ rest ∧ Spells (.value j) used := by
  obtain ⟨r, hr, heq⟩ := Option.map_eq_some_iff.mp h
  obtain ⟨rfl, rfl⟩ := Prod.mk.inj heq
  rw [eq_append_of_expect hr]
  exact ⟨c :: ws, rfl, hspells⟩

theorem TakesIn.value_succ (ih : TakesIn fuel) {j : Json}
    (h : readValue (fuel + 1) cs = some (j, rest)) :
    ∃ used, cs = used ++ rest ∧ Spells (.value j) used := by
  obtain ⟨b, hb, hcs⟩ := exists_blank cs
  -- The blanks in front of the value belong to its text.
  suffices hskipped : ∃ used, skipBlanks cs = used ++ rest ∧ Spells (.value j) used by
    obtain ⟨used, hused, hspells⟩ := hskipped
    refine ⟨b ++ used, ?_, hspells.behind hb⟩
    rw [hcs, hused, List.append_assoc]
  have hfull := h
  rw [← readValue_skipBlanks] at hfull
  rw [readValue] at h
  generalize skipBlanks cs = ds at h hfull
  split at h
  · exact spells_of_expect .null h
  · exact spells_of_expect .true h
  · exact spells_of_expect .false h
  · obtain ⟨⟨text, r⟩, hr, heq⟩ := Option.map_eq_some_iff.mp h
    obtain ⟨rfl, rfl⟩ := Prod.mk.inj heq
    obtain ⟨used, rfl, hused⟩ := spells_of_readString hr
    exact ⟨'"' :: (used ++ ['"']), by simp, .string hused⟩
  · exact ih.array hfull
  · exact ih.object hfull
  · exact spells_of_readNumber h

theorem TakesIn.items_succ (ih : TakesIn fuel) {js : List Json}
    (h : readItems (fuel + 1) cs = some (js, rest)) :
    ∃ used, cs = used ++ ']' :: rest ∧ Spells (.items js) used := by
  rw [readItems] at h
  obtain ⟨⟨j, r⟩, hj, hbehind⟩ := Option.bind_eq_some_iff.mp h
  obtain ⟨used, rfl, hused⟩ := ih.value hj
  obtain ⟨b, hb, hr⟩ := exists_blank r
  dsimp only at hbehind
  split at hbehind
  · rename_i r' hcomma
    obtain ⟨⟨js', r''⟩, hjs, heq⟩ := Option.bind_eq_some_iff.mp hbehind
    obtain ⟨rfl, rfl⟩ := Prod.mk.inj (Option.some.inj heq)
    obtain ⟨used', rfl, hused'⟩ := ih.items hjs
    refine ⟨used ++ b ++ ',' :: used', ?_, .item (hused.before hb) hused'⟩
    rw [hr, hcomma]
    simp
  · rename_i r' hbracket
    obtain ⟨rfl, rfl⟩ := Prod.mk.inj (Option.some.inj hbehind)
    refine ⟨used ++ b, ?_, .lastItem (hused.before hb)⟩
    rw [hr, hbracket, List.append_assoc]
  · cases hbehind

theorem TakesIn.members_succ (ih : TakesIn fuel) {ms : List (Option String × Json)}
    (h : readMembers (fuel + 1) cs = some (ms, rest)) :
    ∃ used, cs = used ++ '\x7d' :: rest ∧ Spells (.members ms) used := by
  rw [readMembers] at h
  obtain ⟨a, ha, hcs⟩ := exists_blank cs
  split at h
  case h_2 => cases h
  rename_i ds hquote
  obtain ⟨⟨key, r⟩, hkey, hnamed⟩ := Option.bind_eq_some_iff.mp h
  obtain ⟨ks, rfl, hks⟩ := spells_of_readString hkey
  obtain ⟨b, hb, hr⟩ := exists_blank r
  dsimp only at hnamed
  split at hnamed
  case h_2 => cases hnamed
  rename_i ds hcolon
  obtain ⟨⟨j, r'⟩, hj, hbehind⟩ := Option.bind_eq_some_iff.mp hnamed
  obtain ⟨used, rfl, hused⟩ := ih.value hj
  obtain ⟨c, hc, hr'⟩ := exists_blank r'
  dsimp only at hbehind
  split at hbehind
  · rename_i ds hcomma
    obtain ⟨⟨ms', r''⟩, hms, heq⟩ := Option.bind_eq_some_iff.mp hbehind
    obtain ⟨rfl, rfl⟩ := Prod.mk.inj (Option.some.inj heq)
    obtain ⟨used', rfl, hused'⟩ := ih.members hms
    refine ⟨_, ?_, .member ha hks hb (hused.before hc) hused'⟩
    rw [hcs, hquote, hr, hcolon, hr', hcomma]
    simp
  · rename_i ds hbrace
    obtain ⟨rfl, rfl⟩ := Prod.mk.inj (Option.some.inj hbehind)
    refine ⟨_, ?_, .lastMember ha hks hb (hused.before hc)⟩
    rw [hcs, hquote, hr, hcolon, hr', hbrace]
    simp
  · cases hbehind

end

theorem takesIn (fuel : Nat) : TakesIn fuel := by
  induction fuel with
  | zero => exact takesIn_zero
  | succ fuel ih => exact ⟨ih.value_succ, ih.items_succ, ih.members_succ⟩

/-- The reader accepts the texts of the grammar, and each with the one value that it spells. -/
theorem parse?_eq_some_iff {j : Json} {text : String} : parse? text = some j ↔ SpelledBy j text := by
  refine ⟨fun h => ?_, parse?_of_spelledBy⟩
  rw [parse?] at h
  split at h
  · rename_i j' r hread
    split at h
    · rename_i hempty
      obtain rfl := Option.some.inj h
      obtain ⟨used, hused, hspells⟩ := (takesIn _).value hread
      obtain ⟨b, hb, hr⟩ := exists_blank r
      rw [List.isEmpty_iff.mp hempty, List.append_nil] at hr
      rw [SpelledBy, hused, hr]
      exact hspells.before hb
    · cases h
  · cases h

end RiscvSoc.Json
