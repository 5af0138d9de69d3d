import RiscvSoc.Proofs.Json.Grammar

/-! The reader takes in every text of the grammar, whatever blanks and escapes it has, and gives the
value that the text spells. The induction is on how the text is built up; its fuel lasts, since each
level of nesting and each item takes up characters. -/

namespace RiscvSoc.Json

variable {rest : List Char}

/-- What can stand behind a value: a blank, the end of the item, or nothing. -/
def Ends (rest : List Char) : Prop :=
  ∀ c ∈ rest.head?, isBlank c = true ∨ c = ',' ∨ c = ']' ∨ c = '\x7d'

theorem Ends.head (h : Ends rest) :
    ∀ c ∈ rest.head?, c.isDigit = false ∧ c ≠ '.' ∧ c ≠ 'e' ∧ c ≠ 'E' := by
  intro c hc
  rcases h c hc with hblank | rfl | rfl | rfl
  · simp only [isBlank, Bool.or_eq_true, beq_iff_eq] at hblank
    rcases hblank with ((rfl | rfl) | rfl) | rfl <;> decide
  all_goals decide

theorem Ends.blank_append {b : List Char} (hb : Blank b) (h : Ends rest) : Ends (b ++ rest) := by
  intro c hc
  cases b with
  | nil => exact h c hc
  | cons d b =>
    obtain rfl : d = c := by simpa using hc
    exact .inl (hb d List.mem_cons_self)

theorem skipBlanks_append {b : List Char} (hb : Blank b) (cs : List Char) :
    skipBlanks (b ++ cs) = skipBlanks cs :=
  List.dropWhile_append_of_pos hb

theorem skipBlanks_append_cons {b : List Char} {c : Char} (hb : Blank b) (hc : isBlank c = false)
    (cs : List Char) : skipBlanks (b ++ c :: cs) = c :: cs := by
  rw [skipBlanks_append hb, skipBlanks, List.dropWhile_cons, hc, if_neg Bool.false_ne_true]

theorem skipBlanks_skipBlanks (cs : List Char) : skipBlanks (skipBlanks cs) = skipBlanks cs := by
  induction cs with
  | nil => rfl
  | cons c cs ih =>
    cases hc : isBlank c with
    | true => simpa [skipBlanks, hc] using ih
    | false => simp [skipBlanks, hc]

theorem spanDigits_append {digits : List Char} (hdigits : ∀ c ∈ digits, c.isDigit = true)
    (hrest : ∀ c ∈ rest.head?, c.isDigit = false) :
    spanDigits (digits ++ rest) = (digits, rest) := by
  have htake : rest.takeWhile Char.isDigit = [] := by
    cases rest with
    | nil => rfl
    | cons c rest => rw [List.takeWhile_cons, hrest c rfl, if_neg Bool.false_ne_true]
  have hdrop : rest.dropWhile Char.isDigit = rest := by
    cases rest with
    | nil => rfl
    | cons c rest => rw [List.dropWhile_cons, hrest c rfl, if_neg Bool.false_ne_true]
  rw [spanDigits, List.takeWhile_append_of_pos hdigits, List.dropWhile_append_of_pos hdigits, htake,
    hdrop, List.append_nil]

theorem decimal_toDigits (n : Nat) : decimal (Nat.toDigits 10 n) = n := by
  have hfold : decimal (Nat.toDigits 10 n) = Nat.ofDigitChars 10 (Nat.toDigits 10 n) 0 := by
    simp only [decimal, Nat.ofDigitChars_eq_foldl, Nat.mul_comm 10]
  rw [hfold, Nat.ofDigitChars_ten_toDigits]

theorem toDigits_eq_cons {n : Nat} (hn : n ≠ 0) :
    ∃ c digits, Nat.toDigits 10 n = c :: digits ∧ c ≠ '0' := by
  induction n using Nat.strongRecOn with
  | ind n ih =>
    rw [Nat.toDigits_eq_if (by decide)]
    split
    · refine ⟨_, _, rfl, ?_⟩
      rwa [ne_eq, Nat.digitChar_eq_zero]
    · rename_i hge
      obtain ⟨c, digits, hdigits, hc⟩ := ih (n / 10) (by omega) (by omega)
      rw [hdigits]
      exact ⟨c, _, rfl, hc⟩

theorem readInteger_toDigits (n : Nat) (hrest : ∀ c ∈ rest.head?, c.isDigit = false) :
    readInteger (Nat.toDigits 10 n ++ rest) = some (n, rest) := by
  have hdigits : ∀ c ∈ Nat.toDigits 10 n, c.isDigit = true := by
    intro c hc
    exact Nat.isDigit_of_mem_toDigits (by decide) (by decide) hc
  rw [readInteger, spanDigits_append hdigits hrest]
  by_cases hn : n = 0
  · rw [hn, Nat.toDigits_zero]
    rfl
  · obtain ⟨c, digits, heq, hc⟩ := toDigits_eq_cons hn
    have hdecimal := decimal_toDigits n
    rw [heq] at hdecimal ⊢
    split
    · rename_i hnil
      cases hnil
    · rename_i hzero
      cases hzero
      exact absurd rfl hc
    · rename_i hzero
      cases hzero
      exact absurd rfl hc
    · rename_i hother
      cases hother
      rw [hdecimal]

theorem readFraction_of_spells {fraction : Bool} {fs : List Char} (h : SpellsFraction fraction fs)
    (hrest : ∀ c ∈ rest.head?, c.isDigit = false ∧ c ≠ '.') :
    readFraction (fs ++ rest) = some (fraction, rest) := by
  cases h with
  | missing =>
    cases rest with
    | nil => rfl
    | cons c rest =>
      rw [List.nil_append, readFraction]
      intro cs heq
      cases heq
      exact (hrest '.' rfl).2 rfl
  | given h =>
    rename_i digits
    obtain ⟨hne, hdigits⟩ := h
    rw [List.cons_append, readFraction, spanDigits_append hdigits fun c hc => (hrest c hc).1]
    cases digits with
    | nil => exact absurd rfl hne
    | cons c digits => rfl

theorem readExponentDigits_append {digits : List Char} (h : Digits digits)
    (hrest : ∀ c ∈ rest.head?, c.isDigit = false) :
    readExponentDigits (digits ++ rest) = some rest := by
  obtain ⟨hne, hdigits⟩ := h
  rw [readExponentDigits, spanDigits_append hdigits hrest]
  cases digits with
  | nil => exact absurd rfl hne
  | cons c digits => rfl

theorem readExponent_of_spells {exponent : Bool} {es : List Char} (h : SpellsExponent exponent es)
    (hrest : ∀ c ∈ rest.head?, c.isDigit = false ∧ c ≠ 'e' ∧ c ≠ 'E') :
    readExponent (es ++ rest) = some (exponent, rest) := by
  cases h with
  | missing =>
    cases rest with
    | nil => rfl
    | cons c rest =>
      rw [List.nil_append, readExponent]
      · intro cs heq
        cases heq
        exact (hrest 'e' rfl).2.1 rfl
      · intro cs heq
        cases heq
        exact (hrest 'E' rfl).2.2 rfl
  | given hmark hsign h =>
    rename_i mark sign digits
    have hread : readExponentDigits (digits ++ rest) = some rest :=
      readExponentDigits_append h fun c hc => (hrest c hc).1
    obtain ⟨c, ds, rfl⟩ := List.exists_cons_of_ne_nil h.1
    rw [List.cons_append] at hread
    have hdigit : c.isDigit = true := h.2 c List.mem_cons_self
    have hplus : c ≠ '+' := by
      rintro rfl
      cases hdigit
    have hminus : c ≠ '-' := by
      rintro rfl
      cases hdigit
    rcases hmark with rfl | rfl <;> rcases hsign with rfl | rfl | rfl <;>
      simp [readExponent, hread, hplus, hminus]

theorem readUnits_of_spells {units : List TextUnit} {cs : List Char} (h : SpellsUnits units cs) :
    readUnits (cs ++ '"' :: rest) = some (units, rest) := by
  induction h with
  | nil => simp [readUnits]
  | @char c units cs hcontrol hquote hescape h ih =>
    have hplain : ¬ c.toNat < 0x20 := by omega
    rw [List.cons_append, readUnits, if_neg hplain, ih]
    · rfl
    · exact hquote
    · intro a b c' d cs' hc
      exact absurd hc hescape
    · intro e cs' hc
      exact absurd hc hescape
  | @escape e c units cs he h ih =>
    have hu : e ≠ 'u' := by
      rintro rfl
      cases he
    rw [List.cons_append, List.cons_append, readUnits, he, ih]
    · rfl
    · intro a b c' d cs' hc
      exact absurd hc hu
  | @code n digits units cs hlength hn h ih =>
    obtain ⟨a, b, c, d, rfl⟩ : ∃ a b c d, digits = [a, b, c, d] := by
      match digits, hlength with
      | [a, b, c, d], _ => exact ⟨a, b, c, d, rfl⟩
    simp only [List.cons_append, List.nil_append]
    rw [readUnits, hn, ih]
    rfl

/-- Units have at most one text, which is the one that the reader finds. -/
theorem textOfUnits_eq_some_iff {units : List TextUnit} {cs : List Char} :
    textOfUnits units = some cs ↔ Denotes units cs := by
  fun_induction textOfUnits units generalizing cs with
  | case1 =>
    constructor
    · intro h
      cases h
      exact .nil
    · intro h
      cases h
      rfl
  | case2 c units ih =>
    rw [Option.map_eq_some_iff]
    constructor
    · rintro ⟨ds, hds, rfl⟩
      exact .char (ih.mp hds)
    · intro h
      cases h with
      | char h => exact ⟨_, ih.mpr h, rfl⟩
  | case3 high low units hhigh hlow ih =>
    rw [Option.map_eq_some_iff]
    constructor
    · rintro ⟨ds, hds, rfl⟩
      exact .pair hhigh hlow (ih.mp hds)
    · intro h
      cases h with
      | code hnot => exact absurd (hnot.symm.trans hhigh) Bool.false_ne_true
      | pair _ _ h => exact ⟨_, ih.mpr h, rfl⟩
  | case4 high low units hhigh hnot =>
    refine iff_of_false nofun fun h => ?_
    cases h with
    | code hlone => exact absurd (hlone.symm.trans hhigh) Bool.false_ne_true
    | pair _ hlow => exact hnot hlow
  | case5 n m units hnot hlow =>
    refine iff_of_false nofun fun h => ?_
    cases h with
    | code _ hlone => exact absurd (hlone.symm.trans hlow) Bool.false_ne_true
    | pair hhigh => exact hnot hhigh
  | case6 n m units hhigh hlow ih =>
    rw [Bool.not_eq_true] at hhigh hlow
    rw [Option.map_eq_some_iff]
    constructor
    · rintro ⟨ds, hds, rfl⟩
      exact .code hhigh hlow (ih.mp hds)
    · intro h
      cases h with
      | code _ _ h => exact ⟨_, ih.mpr h, rfl⟩
      | pair hpair => exact absurd (hhigh.symm.trans hpair) Bool.false_ne_true
  | case7 n units hlast hsurrogate =>
    refine iff_of_false nofun fun h => ?_
    cases h with
    | code hhigh hlow => rw [hhigh, hlow] at hsurrogate; cases hsurrogate
    | pair => exact hlast _ _ rfl
  | case8 n units hlast hsurrogate ih =>
    rw [Bool.or_eq_true, not_or, Bool.not_eq_true, Bool.not_eq_true] at hsurrogate
    rw [Option.map_eq_some_iff]
    constructor
    · rintro ⟨ds, hds, rfl⟩
      exact .code hsurrogate.1 hsurrogate.2 (ih.mp hds)
    · intro h
      cases h with
      | code _ _ h => exact ⟨_, ih.mpr h, rfl⟩
      | pair => exact (hlast _ _ rfl).elim

theorem stringOfUnits_eq_some_iff {units : List TextUnit} {t : String} :
    (textOfUnits units).map String.ofList = some t ↔ Denotes units t.toList := by
  rw [← textOfUnits_eq_some_iff, Option.map_eq_some_iff]
  constructor
  · rintro ⟨cs, hcs, rfl⟩
    rwa [String.toList_ofList]
  · intro ht
    exact ⟨_, ht, String.ofList_toList⟩

theorem spellsString_of_units {units : List TextUnit} {cs : List Char}
    (h : SpellsUnits units cs) : SpellsString ((textOfUnits units).map String.ofList) cs :=
  ⟨units, h, fun _ => stringOfUnits_eq_some_iff⟩

theorem readString_of_spells {text : Option String} {cs : List Char} (h : SpellsString text cs) :
    readString (cs ++ '"' :: rest) = some (text, rest) := by
  obtain ⟨units, hunits, htext⟩ := h
  have heq : (textOfUnits units).map String.ofList = text := by
    apply Option.ext
    intro t
    rw [stringOfUnits_eq_some_iff, htext]
  rw [readString, readUnits_of_spells hunits, Option.map_some]
  exact congrArg (fun text => some (text, rest)) heq

theorem readUnsigned_of_spells (negative : Bool) (n : Nat) {fraction exponent : Bool}
    {fs es : List Char} (hfraction : SpellsFraction fraction fs)
    (hexponent : SpellsExponent exponent es) (hrest : Ends rest) :
    readUnsigned negative (Nat.toDigits 10 n ++ (fs ++ (es ++ rest))) =
      some (if negative || fraction || exponent then .otherNumber else .natural n, rest) := by
  have hexponentHead : ∀ c ∈ (es ++ rest).head?, c.isDigit = false ∧ c ≠ '.' := by
    intro c hc
    cases hexponent with
    | missing => exact ⟨(hrest.head c hc).1, (hrest.head c hc).2.1⟩
    | given hmark =>
      obtain rfl : _ = c := Option.some.inj hc
      rcases hmark with rfl | rfl <;> decide
  have hfractionHead : ∀ c ∈ (fs ++ (es ++ rest)).head?, c.isDigit = false := by
    intro c hc
    cases hfraction with
    | missing => exact (hexponentHead c hc).1
    | given =>
      obtain rfl : '.' = c := Option.some.inj hc
      rfl
  have hend : ∀ c ∈ rest.head?, c.isDigit = false ∧ c ≠ 'e' ∧ c ≠ 'E' := by
    intro c hc
    obtain ⟨hdigit, -, he, hE⟩ := hrest.head c hc
    exact ⟨hdigit, he, hE⟩
  rw [readUnsigned, readInteger_toDigits n hfractionHead]
  simp only [Option.bind_eq_bind, Option.bind_some, readFraction_of_spells hfraction hexponentHead,
    readExponent_of_spells hexponent hend]
  rfl

section

attribute [local simp] readValue readItems readMembers

theorem readValue_zero (cs : List Char) : readValue 0 cs = none := by
  simp

theorem readItems_zero (cs : List Char) : readItems 0 cs = none := by
  simp

theorem readMembers_zero (cs : List Char) : readMembers 0 cs = none := by
  simp

end

theorem readValue_of_numeric (fuel : Nat) {c : Char} (h : c = '-' ∨ c.isDigit = true)
    (cs : List Char) : readValue (fuel + 1) (c :: cs) = readNumber (c :: cs) := by
  have hne : ∀ d : Char, d ≠ '-' → d.isDigit = false → c ≠ d := by
    rintro d hminus hdigit rfl
    rcases h with rfl | h
    · exact hminus rfl
    · exact Bool.false_ne_true (hdigit.symm.trans h)
  have hblank : isBlank c = false := by
    simp only [isBlank, Bool.or_eq_false_iff, beq_eq_false_iff_ne]
    exact ⟨⟨⟨hne ' ' (by decide) rfl, hne '\t' (by decide) rfl⟩, hne '\n' (by decide) rfl⟩,
      hne '\r' (by decide) rfl⟩
  have hskip : skipBlanks (c :: cs) = c :: cs := by
    rw [skipBlanks, List.dropWhile_cons, hblank, if_neg Bool.false_ne_true]
  rw [readValue, hskip]
  split
  case h_7 => rfl
  -- The other values are told by their first character.
  all_goals
    rename_i heq
    exact absurd (List.cons.inj heq).1 (hne _ (by decide) rfl)

theorem readNumber_of_spells {n : Nat} {negative fraction exponent : Bool} {fs es : List Char}
    (hfraction : SpellsFraction fraction fs) (hexponent : SpellsExponent exponent es)
    (hrest : Ends rest) (fuel : Nat) :
    readValue (fuel + 1)
        ((if negative then ['-'] else []) ++ (Nat.toDigits 10 n ++ (fs ++ (es ++ rest)))) =
      some (if negative || fraction || exponent then .otherNumber else .natural n, rest) := by
  have hunsigned := readUnsigned_of_spells negative n hfraction hexponent hrest
  cases negative with
  | true =>
    rw [if_pos rfl, List.singleton_append, readValue_of_numeric fuel (.inl rfl), readNumber]
    exact hunsigned
  | false =>
    rw [if_neg Bool.false_ne_true, List.nil_append]
    have hne : Nat.toDigits 10 n ≠ [] := Nat.toDigits_ne_nil
    obtain ⟨c, digits, hdigits⟩ := List.exists_cons_of_ne_nil hne
    have hdigit : c.isDigit = true := by
      apply Nat.isDigit_of_mem_toDigits (b := 10) (n := n) (by decide) (by decide)
      rw [hdigits]
      exact List.mem_cons_self
    rw [hdigits] at hunsigned ⊢
    rw [List.cons_append, readValue_of_numeric fuel (.inr hdigit), readNumber]
    · exact hunsigned
    · intro cs heq
      cases heq
      cases hdigit

theorem readValue_skipBlanks (fuel : Nat) (cs : List Char) :
    readValue fuel (skipBlanks cs) = readValue fuel cs := by
  cases fuel with
  | zero => rw [readValue_zero, readValue_zero]
  | succ fuel => rw [readValue, readValue, skipBlanks_skipBlanks]

theorem readItems_skipBlanks (fuel : Nat) (cs : List Char) :
    readItems fuel (skipBlanks cs) = readItems fuel cs := by
  cases fuel with
  | zero => rw [readItems_zero, readItems_zero]
  | succ fuel => rw [readItems, readItems, readValue_skipBlanks]

theorem readMembers_skipBlanks (fuel : Nat) (cs : List Char) :
    readMembers fuel (skipBlanks cs) = readMembers fuel cs := by
  cases fuel with
  | zero => rw [readMembers_zero, readMembers_zero]
  | succ fuel => rw [readMembers, readMembers, skipBlanks_skipBlanks]

theorem readItems_closed (fuel : Nat) (cs : List Char) : readItems fuel (']' :: cs) = none := by
  rcases fuel with _ | _ | fuel
  · rw [readItems_zero]
  · rw [readItems, readValue_zero]
    rfl
  · rw [readItems, readValue]
    rfl

theorem readMembers_closed (fuel : Nat) (cs : List Char) :
    readMembers fuel ('\x7d' :: cs) = none := by
  cases fuel with
  | zero => rw [readMembers_zero]
  | succ fuel =>
    rw [readMembers]
    rfl

theorem readValue_quote (fuel : Nat) (cs : List Char) :
    readValue (fuel + 1) ('"' :: cs) =
      (readString cs).map fun (text, rest) => (.string text, rest) := by
  rw [readValue]
  rfl

theorem readValue_bracket (fuel : Nat) (cs : List Char) :
    readValue (fuel + 1) ('[' :: cs) =
      match skipBlanks cs with
      | ']' :: rest => some (.array [], rest)
      | cs => (readItems fuel cs).map fun (items, rest) => (.array items, rest) := by
  rw [readValue]
  rfl

theorem readValue_brace (fuel : Nat) (cs : List Char) :
    readValue (fuel + 1) ('\x7b' :: cs) =
      match skipBlanks cs with
      | '\x7d' :: rest => some (.object [], rest)
      | cs => (readMembers fuel cs).map fun (members, rest) => (.object members, rest) := by
  rw [readValue]
  rfl

theorem readValue_array {fuel : Nat} {cs : List Char} {js : List Json}
    (h : readItems fuel cs = some (js, rest)) :
    readValue (fuel + 1) ('[' :: cs) = some (.array js, rest) := by
  rw [← readItems_skipBlanks] at h
  rw [readValue_bracket]
  split
  · rename_i hclosed
    rw [hclosed, readItems_closed] at h
    cases h
  · rw [h]
    rfl

theorem readValue_object {fuel : Nat} {cs : List Char} {ms : List (Option String × Json)}
    (h : readMembers fuel cs = some (ms, rest)) :
    readValue (fuel + 1) ('\x7b' :: cs) = some (.object ms, rest) := by
  rw [← readMembers_skipBlanks] at h
  rw [readValue_brace]
  split
  · rename_i hclosed
    rw [hclosed, readMembers_closed] at h
    cases h
  · rw [h]
    rfl

section

variable {fuel : Nat} {j : Json} {cs r ds : List Char}

theorem readItems_last (h : readValue fuel cs = some (j, r)) (hr : skipBlanks r = ']' :: rest) :
    readItems (fuel + 1) cs = some ([j], rest) := by
  rw [readItems, h]
  simp only [Option.bind_eq_bind, Option.bind_some, hr]
  rfl

theorem readItems_cons {js : List Json} (h : readValue fuel cs = some (j, r))
    (hr : skipBlanks r = ',' :: ds) (hs : readItems fuel ds = some (js, rest)) :
    readItems (fuel + 1) cs = some (j :: js, rest) := by
  rw [readItems, h]
  simp only [Option.bind_eq_bind, Option.bind_some, hr, hs]
  rfl

variable {a ks b : List Char} {key : Option String}

theorem readMembers_last (ha : Blank a) (hkey : SpellsString key ks) (hb : Blank b)
    (h : readValue fuel cs = some (j, r)) (hr : skipBlanks r = '\x7d' :: rest) :
    readMembers (fuel + 1) (a ++ '"' :: (ks ++ '"' :: (b ++ ':' :: cs))) =
      some ([(key, j)], rest) := by
  rw [readMembers, skipBlanks_append_cons ha rfl]
  simp only [readString_of_spells hkey, skipBlanks_append_cons (c := ':') hb rfl, h, hr,
    Option.bind_eq_bind, Option.bind_some]
  rfl

theorem readMembers_cons {ms : List (Option String × Json)} (ha : Blank a)
    (hkey : SpellsString key ks) (hb : Blank b) (h : readValue fuel cs = some (j, r))
    (hr : skipBlanks r = ',' :: ds) (hs : readMembers fuel ds = some (ms, rest)) :
    readMembers (fuel + 1) (a ++ '"' :: (ks ++ '"' :: (b ++ ':' :: cs))) =
      some ((key, j) :: ms, rest) := by
  rw [readMembers, skipBlanks_append_cons ha rfl]
  simp only [readString_of_spells hkey, skipBlanks_append_cons (c := ':') hb rfl, h, hr, hs,
    Option.bind_eq_bind, Option.bind_some]
  rfl

end

/-- What reading a part comes to, in front of whatever ends it. -/
def ReadsBack : Part → List Char → Prop
  | .value j, cs => ∀ fuel rest, 2 * cs.length ≤ fuel → Ends rest →
      ∃ r, readValue fuel (cs ++ rest) = some (j, r) ∧ skipBlanks r = skipBlanks rest
  | .items js, cs => ∀ fuel rest, 2 * cs.length < fuel →
      readItems fuel (cs ++ ']' :: rest) = some (js, rest)
  | .members ms, cs => ∀ fuel rest, 2 * cs.length < fuel →
      readMembers fuel (cs ++ '\x7d' :: rest) = some (ms, rest)

theorem ReadsBack.of_step {j : Json} {cs : List Char} (hne : cs ≠ [])
    (h : ∀ fuel rest, 2 * cs.length ≤ fuel + 1 → Ends rest →
      readValue (fuel + 1) (cs ++ rest) = some (j, rest)) : ReadsBack (.value j) cs := by
  intro fuel rest hfuel hrest
  have hpos : 0 < cs.length := List.length_pos_iff.mpr hne
  obtain ⟨k, rfl⟩ : ∃ k, fuel = k + 1 := ⟨fuel - 1, by omega⟩
  exact ⟨rest, h k rest hfuel hrest, rfl⟩

theorem ends_comma (ds : List Char) : Ends (',' :: ds) := by
  intro c hc
  obtain rfl := Option.some.inj hc
  exact .inr (.inl rfl)

theorem ends_bracket (ds : List Char) : Ends (']' :: ds) := by
  intro c hc
  obtain rfl := Option.some.inj hc
  exact .inr (.inr (.inl rfl))

theorem ends_brace (ds : List Char) : Ends ('\x7d' :: ds) := by
  intro c hc
  obtain rfl := Option.some.inj hc
  exact .inr (.inr (.inr rfl))

/-- Every text of the grammar reads back. -/
theorem Spells.readsBack {p : Part} {cs : List Char} (h : Spells p cs) : ReadsBack p cs := by
  induction h with
  | null | true | false =>
    refine .of_step (List.cons_ne_nil _ _) fun fuel rest _ _ => ?_
    rw [readValue]
    rfl
  | number hfraction hexponent =>
    refine .of_step ?_ fun fuel rest _ hrest => ?_
    · intro hnil
      have hdigits := (List.append_eq_nil_iff.mp (List.append_eq_nil_iff.mp hnil).2).1
      exact Nat.toDigits_ne_nil hdigits
    · simp only [List.append_assoc]
      exact readNumber_of_spells hfraction hexponent hrest fuel
  | string hstring =>
    refine .of_step (List.cons_ne_nil _ _) fun fuel rest _ _ => ?_
    rw [List.cons_append, List.append_assoc, List.singleton_append]
    rw [readValue_quote, readString_of_spells hstring]
    rfl
  | emptyArray hb =>
    refine .of_step (List.cons_ne_nil _ _) fun fuel rest _ _ => ?_
    rw [List.cons_append, List.append_assoc, List.singleton_append, readValue_bracket,
      skipBlanks_append hb]
    rfl
  | @array js cs _ ih =>
    refine .of_step (List.cons_ne_nil _ _) fun fuel rest hfuel _ => ?_
    simp only [List.length_cons, List.length_append, List.length_nil] at hfuel
    rw [List.cons_append, List.append_assoc, List.singleton_append]
    exact readValue_array (ih fuel rest (by omega))
  | emptyObject hb =>
    refine .of_step (List.cons_ne_nil _ _) fun fuel rest _ _ => ?_
    rw [List.cons_append, List.append_assoc, List.singleton_append, readValue_brace,
      skipBlanks_append hb]
    rfl
  | @object ms cs _ ih =>
    refine .of_step (List.cons_ne_nil _ _) fun fuel rest hfuel _ => ?_
    simp only [List.length_cons, List.length_append, List.length_nil] at hfuel
    rw [List.cons_append, List.append_assoc, List.singleton_append]
    exact readValue_object (ih fuel rest (by omega))
  | @padded j a b cs ha hb _ ih =>
    intro fuel rest hfuel hrest
    simp only [List.length_append] at hfuel
    obtain ⟨r, hread, hr⟩ := ih fuel (b ++ rest) (by omega) (hrest.blank_append hb)
    refine ⟨r, ?_, hr.trans (skipBlanks_append hb rest)⟩
    rw [List.append_assoc, ← readValue_skipBlanks, skipBlanks_append ha, readValue_skipBlanks,
      List.append_assoc]
    exact hread
  | lastItem _ ih =>
    intro fuel rest hfuel
    obtain ⟨k, rfl⟩ : ∃ k, fuel = k + 1 := ⟨fuel - 1, by omega⟩
    obtain ⟨r, hread, hr⟩ := ih k (']' :: rest) (by omega) (ends_bracket rest)
    exact readItems_last hread hr
  | @item j js cs ds _ _ ih ihs =>
    intro fuel rest hfuel
    simp only [List.length_append, List.length_cons] at hfuel
    obtain ⟨k, rfl⟩ : ∃ k, fuel = k + 1 := ⟨fuel - 1, by omega⟩
    obtain ⟨r, hread, hr⟩ := ih k (',' :: (ds ++ ']' :: rest)) (by omega) (ends_comma _)
    rw [List.append_assoc, List.cons_append]
    exact readItems_cons hread hr (ihs k rest (by omega))
  | @lastMember key j a ks b cs ha hkey hb _ ih =>
    intro fuel rest hfuel
    simp only [List.length_append, List.length_cons] at hfuel
    obtain ⟨k, rfl⟩ : ∃ k, fuel = k + 1 := ⟨fuel - 1, by omega⟩
    obtain ⟨r, hread, hr⟩ := ih k ('\x7d' :: rest) (by omega) (ends_brace rest)
    simp only [List.append_assoc, List.cons_append]
    exact readMembers_last ha hkey hb hread hr
  | @member key j ms a ks b cs ds ha hkey hb _ _ ih ihs =>
    intro fuel rest hfuel
    simp only [List.length_append, List.length_cons] at hfuel
    obtain ⟨k, rfl⟩ : ∃ k, fuel = k + 1 := ⟨fuel - 1, by omega⟩
    obtain ⟨r, hread, hr⟩ := ih k (',' :: (ds ++ '\x7d' :: rest)) (by omega) (ends_comma _)
    simp only [List.append_assoc, List.cons_append]
    exact readMembers_cons ha hkey hb hread hr (ihs k rest (by omega))

theorem parse?_of_spelledBy {j : Json} {text : String} (h : SpelledBy j text) :
    parse? text = some j := by
  have hback : ReadsBack (.value j) text.toList := h.readsBack
  obtain ⟨r, hread, hr⟩ := hback (2 * text.toList.length + 2) [] (by omega) nofun
  rw [List.append_nil] at hread
  rw [parse?]
  simp only [hread, hr]
  rfl

end RiscvSoc.Json
