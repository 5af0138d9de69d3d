import RiscvSoc.CommandLine.Options

/-! How a command line falls into options. An option with what belongs to it is taken at once, so a
command line that is read to its end is a sequence of such pieces, and it may be cut in front of any
argument that is no value. -/

namespace RiscvSoc.CommandLine

/-- The options after one more option, which stands in the arguments with what belongs to it. -/
inductive Takes (o : Options) : List (List Char) → Options → Prop where
  | flag {cs : List Char} {name : String} {o' : Options} (hcs : splitAttached cs = (name, none))
      (hname : name ∈ flagNames) (h : o.setFlag? name = some o') : Takes o ['-' :: '-' :: cs] o'
  | attached {cs : List Char} {name value : String} {o' : Options}
      (hcs : splitAttached cs = (name, some value)) (h : o.setValue? name value = some o') :
      Takes o ['-' :: '-' :: cs] o'
  | separate {cs value : List Char} {name : String} {o' : Options}
      (hcs : splitAttached cs = (name, none)) (hvalue : isValue value)
      (h : o.setValue? name (String.ofList value) = some o') : Takes o ['-' :: '-' :: cs, value] o'
  | signature {cs a b c : List Char} (hcs : splitAttached cs = ("signature", none))
      (ha : isValue a) (hb : isValue b) (hc : isValue c) :
      Takes o ['-' :: '-' :: cs, a, b, c]
        (o.addSignature [String.ofList a, String.ofList b, String.ofList c])

def endMark : List Char :=
  ['-', '-']

/-- The options after all of some arguments. -/
inductive Reads : Options → List (List Char) → Options → Prop where
  | nil (o : Options) : Reads o [] o
  | ended (o : Options) : Reads o [endMark] o
  | cons {o o' q : Options} {piece rest : List (List Char)} (hpiece : Takes o piece o')
      (hrest : Reads o' rest q) : Reads o (piece ++ rest) q

section Takes

variable {o o' q : Options} {piece rest : List (List Char)} {cs : List Char} {name : String}

theorem ne_nil_of_splitAttached {value : Option String} (hcs : splitAttached cs = (name, value))
    (hname : name ≠ "") : cs ≠ [] := by
  rintro rfl
  exact hname (congrArg Prod.fst hcs).symm

structure Ordinary (name : String) : Prop where
  ne_empty : name ≠ ""
  ne_version : name ≠ "version"
  ne_help : name ≠ "help"
  ne_signature : name ≠ "signature"
  not_flag : name ∉ flagNames
  plain : '=' ∉ name.toList

theorem ordinary_of_setValue? {value : String} (h : o.setValue? name value = some o') :
    Ordinary name := by
  unfold Options.setValue? at h
  split at h
  case h_12 => cases h
  all_goals constructor <;> decide

theorem ne_empty_of_flag (hname : name ∈ flagNames) : name ≠ "" := by
  rintro rfl
  exact absurd hname (by decide)

theorem readArguments_attached {value : String} (hname : Ordinary name)
    (hcs : splitAttached cs = (name, some value)) :
    readArguments o (('-' :: '-' :: cs) :: rest) =
      (o.setValue? name value).elim .badUsage fun o' => readArguments o' rest := by
  obtain ⟨hempty, hversion, hhelp, hsignature, hflag, -⟩ := hname
  obtain ⟨c, cs, rfl⟩ := List.exists_cons_of_ne_nil (ne_nil_of_splitAttached hcs hempty)
  rw [readArguments.eq_def]
  cases h : o.setValue? name value <;> simp [hcs, h, hsignature, hflag]

theorem readArguments_separate {value : List Char} (hname : Ordinary name)
    (hcs : splitAttached cs = (name, none)) (hvalue : isValue value) :
    readArguments o (('-' :: '-' :: cs) :: value :: rest) =
      (o.setValue? name (String.ofList value)).elim .badUsage fun o' => readArguments o' rest := by
  obtain ⟨hempty, hversion, hhelp, hsignature, hflag, -⟩ := hname
  obtain ⟨c, cs, rfl⟩ := List.exists_cons_of_ne_nil (ne_nil_of_splitAttached hcs hempty)
  rw [readArguments.eq_def]
  cases h : o.setValue? name (String.ofList value) <;> simp [hcs, h, hsignature, hflag, hvalue]

theorem Takes.readArguments (h : Takes o piece o') :
    readArguments o (piece ++ rest) = readArguments o' rest := by
  cases h with
  | flag hcs hname h =>
    have hne := ne_nil_of_splitAttached hcs (ne_empty_of_flag hname)
    obtain ⟨c, cs, rfl⟩ := List.exists_cons_of_ne_nil hne
    simp only [flagNames, List.mem_cons, List.not_mem_nil, or_false] at hname
    rcases hname with rfl | rfl | rfl
    all_goals
      rw [List.singleton_append, CommandLine.readArguments.eq_def]
      simp [hcs, h, flagNames]
  | attached hcs h =>
    rw [List.singleton_append, readArguments_attached (ordinary_of_setValue? h) hcs, h,
      Option.elim_some]
  | separate hcs hvalue h =>
    rw [List.cons_append, List.singleton_append,
      readArguments_separate (ordinary_of_setValue? h) hcs hvalue, h, Option.elim_some]
  | signature hcs ha hb hc =>
    obtain ⟨c, cs, rfl⟩ := List.exists_cons_of_ne_nil (ne_nil_of_splitAttached hcs (by decide))
    simp [CommandLine.readArguments, hcs, ha, hb, hc]

theorem Reads.readArguments (h : Reads o rest q) : readArguments o rest = .run q := by
  induction h with
  | nil o => rfl
  | ended o => rfl
  | cons hpiece _ ih => rw [hpiece.readArguments, ih]

theorem reads_of_readArguments (h : readArguments o rest = .run q) : Reads o rest q := by
  -- Two ways to end, then one for each kind of piece; everything else is answered at once.
  fun_induction readArguments o rest
  case case1 o =>
    cases h
    exact .nil _
  case case2 o rest hend =>
    cases h
    rw [List.isEmpty_iff.mp hend]
    exact .ended _
  case case9 o cs _ hcs a b c rest hvalues ih =>
    simp only [Bool.and_eq_true] at hvalues
    obtain ⟨⟨ha, hb⟩, hc⟩ := hvalues
    exact .cons (.signature hcs ha hb hc) (ih h)
  case case12 o cs rest _ name _ _ hname o' hflag _ _ hcs ih =>
    exact .cons (.flag hcs (List.contains_iff_mem.mp hname) hflag) (ih h)
  case case14 o cs _ name _ _ _ value rest o' hvalue _ _ hcs ih =>
    exact .cons (.attached hcs hvalue) (ih h)
  case case16 o cs _ name _ _ _ value rest hisValue o' hvalue _ _ hcs ih =>
    exact .cons (.separate hcs hisValue hvalue) (ih h)
  all_goals cases h

/-- The reader runs on exactly the command lines that fall into pieces. -/
theorem reads_iff : Reads o rest q ↔ readArguments o rest = .run q :=
  ⟨Reads.readArguments, reads_of_readArguments⟩

/-- Only the first argument of a piece can be anything but a value. -/
theorem Takes.exists_cons (h : Takes o piece o') :
    ∃ x tail, piece = x :: tail ∧ x ≠ endMark ∧ ∀ a ∈ tail, isValue a := by
  have hmark : ∀ {cs : List Char}, cs ≠ [] → '-' :: '-' :: cs ≠ endMark := by
    intro cs hcs heq
    exact hcs (List.cons.inj (List.cons.inj heq).2).2
  cases h with
  | flag hcs hname h =>
    have hne := ne_nil_of_splitAttached hcs (ne_empty_of_flag hname)
    exact ⟨_, [], rfl, hmark hne, by simp⟩
  | attached hcs h =>
    have hne := ne_nil_of_splitAttached hcs (ordinary_of_setValue? h).ne_empty
    exact ⟨_, [], rfl, hmark hne, by simp⟩
  | @separate cs value _ _ hcs hvalue h =>
    have hne := ne_nil_of_splitAttached hcs (ordinary_of_setValue? h).ne_empty
    exact ⟨_, [value], rfl, hmark hne, by simpa using hvalue⟩
  | @signature cs a b c hcs ha hb hc =>
    have hne := ne_nil_of_splitAttached hcs (by decide)
    exact ⟨_, [a, b, c], rfl, hmark hne, by simp [ha, hb, hc]⟩

theorem Takes.endMark_not_mem (h : Takes o piece o') : endMark ∉ piece := by
  obtain ⟨x, tail, rfl, hx, htail⟩ := h.exists_cons
  intro hmem
  rcases List.mem_cons.mp hmem with rfl | hmem
  · exact hx rfl
  · exact absurd (htail _ hmem) (by decide)

theorem Reads.readArguments_append {o₁ : Options} {before : List (List Char)}
    (h : Reads o before o₁) (hend : endMark ∉ before) (after : List (List Char)) :
    CommandLine.readArguments o (before ++ after) = CommandLine.readArguments o₁ after := by
  induction h with
  | nil o => rfl
  | ended o => exact absurd (List.mem_singleton_self _) hend
  | cons hpiece _ ih =>
    rw [List.append_assoc, hpiece.readArguments]
    exact ih (fun hmem => hend (List.mem_append_right _ hmem))

theorem Reads.append_iff {o₁ : Options} {before after : List (List Char)} (h : Reads o before o₁)
    (hend : endMark ∉ before) : Reads o (before ++ after) q ↔ Reads o₁ after q := by
  rw [reads_iff, reads_iff, h.readArguments_append hend]

/-- A command line may be cut in front of what is no value. -/
theorem Reads.cut {x : List Char} {before after : List (List Char)} (hx : isValue x = false)
    (h : Reads o (before ++ x :: after) q) :
    ∃ o₁, Reads o before o₁ ∧ endMark ∉ before ∧ Reads o₁ (x :: after) q := by
  generalize hargs : before ++ x :: after = args at h
  induction h generalizing before with
  | nil o => exact absurd hargs (by simp)
  | ended o =>
    cases before with
    | nil =>
      rw [List.nil_append] at hargs
      exact ⟨o, .nil o, List.not_mem_nil, hargs ▸ Reads.ended o⟩
    | cons b before => exact absurd (List.cons.inj hargs).2 (by simp)
  | @cons o o' q piece rest hpiece hrest ih =>
    cases before with
    | nil =>
      rw [List.nil_append] at hargs
      exact ⟨o, .nil o, List.not_mem_nil, hargs ▸ Reads.cons hpiece hrest⟩
    | cons b before =>
      have hmark := hpiece.endMark_not_mem
      obtain ⟨y, tail, rfl, -, htail⟩ := hpiece.exists_cons
      rw [List.cons_append, List.cons_append, List.cons.injEq] at hargs
      obtain ⟨rfl, hargs⟩ := hargs
      -- The piece cannot reach as far as `x`, whose place would be among its values.
      have hsplit : ∃ middle, before = tail ++ middle ∧ rest = middle ++ x :: after := by
        rcases List.append_eq_append_iff.mp hargs with ⟨middle, rfl, hmiddle⟩ | ⟨middle, h, h'⟩
        · cases middle with
          | nil => exact ⟨[], by simp, hmiddle.symm⟩
          | cons m middle =>
            obtain ⟨rfl, -⟩ := List.cons.inj hmiddle
            have hvalue := htail x (by simp)
            exact absurd (hx.symm.trans hvalue) Bool.false_ne_true
        · exact ⟨middle, h, h'⟩
      obtain ⟨middle, rfl, hrestEq⟩ := hsplit
      obtain ⟨o₁, hmiddle, hend, hafter⟩ := ih hrestEq.symm
      refine ⟨o₁, .cons hpiece hmiddle, ?_, hafter⟩
      intro hmem
      rw [← List.cons_append] at hmem
      rcases List.mem_append.mp hmem with hmem | hmem
      · exact hmark hmem
      · exact hend hmem

end Takes

section Signature

variable {o o' q : Options} {piece args : List (List Char)} {name : String}

theorem signature_of_setFlag? (h : o.setFlag? name = some o') : o'.signature = o.signature := by
  have hguard : ∀ {c : Bool} {a : Options}, (if c then none else some a) = some o' →
      a.signature = o.signature → o'.signature = o.signature := by
    intro c a h ha
    cases c with
    | true => cases h
    | false => exact Option.some.inj h ▸ ha
  unfold Options.setFlag? at h
  split at h
  case h_4 => cases h
  all_goals exact hguard h rfl

theorem signature_of_setValue? {value : String} (h : o.setValue? name value = some o') :
    o'.signature = o.signature := by
  have hmap : ∀ {α : Type} {x : Option α} {g : α → Options}, x.map g = some o' →
      (∀ a, (g a).signature = o.signature) → o'.signature = o.signature := by
    intro α x g h hg
    obtain ⟨a, -, rfl⟩ := Option.map_eq_some_iff.mp h
    exact hg a
  unfold Options.setValue? at h
  split at h
  case h_12 => cases h
  all_goals exact hmap h (fun _ => rfl)

theorem Reads.signature_ne_nil (h : Reads o args q) (ho : o.signature ≠ some []) :
    q.signature ≠ some [] := by
  induction h with
  | nil o => exact ho
  | ended o => exact ho
  | cons hpiece _ ih =>
    apply ih
    cases hpiece with
    | flag _ _ h => rwa [signature_of_setFlag? h]
    | attached _ h => rwa [signature_of_setValue? h]
    | separate _ _ h => rwa [signature_of_setValue? h]
    | signature => simp [Options.addSignature]

end Signature

/-- A number for an option that has one, or the values of one signature option. -/
inductive Entry where
  | time (n : UInt64)
  | memory (n : UInt64)
  | halt (n : UInt32)
  | quitAfter (n : UInt64)
  | signature (values : List String)

namespace Entry

def enter (e : Entry) (o : Options) : Options :=
  match e with
  | .time n => { o with time := some n }
  | .memory n => { o with memory := some n }
  | .halt n => { o with halt := some n }
  | .quitAfter n => { o with quitAfter := some n }
  | .signature values => { o with signature := some (values ++ o.signature.getD []) }

def fits (e : Entry) (o : Options) : Bool :=
  match e with
  | .time _ => o.time.isNone
  | .memory _ => o.memory.isNone
  | .halt _ => o.halt.isNone
  | .quitAfter _ => o.quitAfter.isNone
  | .signature _ => true

variable {e : Entry} {o o' : Options}

/-- Setting what the entry is not about may come before or after it. -/
theorem guard_commute {c : Bool} {a b : Options} (hab : a = e.enter b) (hb : e.fits b) :
    (if c then none else some a) = ((if c then none else some b).filter e.fits).map e.enter := by
  cases c with
  | true => rfl
  | false => simp [hab, hb, Option.filter_some]

theorem map_commute {α : Type} {x : Option α} {f g : α → Options} (hfg : ∀ a, f a = e.enter (g a))
    (hg : ∀ a, e.fits (g a)) : x.map f = ((x.map g).filter e.fits).map e.enter := by
  cases x with
  | none => rfl
  | some a => simp [hfg, hg, Option.filter_some]

/-- Setting what the entry is about leaves no room for it. -/
theorem filter_once {α : Type} {old new : Option α} {g : Option α → Options} (hold : old.isNone)
    (hg : ∀ a, e.fits (g (some a)) = false) :
    none = (((once old new).map g).filter e.fits).map e.enter := by
  rw [Option.isNone_iff_eq_none] at hold
  subst hold
  cases new with
  | none => rfl
  | some a => simp [once, hg, Option.filter_some]

theorem setFlag?_enter (h : e.fits o) (name : String) :
    (e.enter o).setFlag? name = ((o.setFlag? name).filter e.fits).map e.enter := by
  unfold Options.setFlag?
  cases e <;> split
  all_goals first
    | rfl
    | exact guard_commute rfl h

theorem setValue?_enter (h : e.fits o) (name value : String) :
    (e.enter o).setValue? name value = ((o.setValue? name value).filter e.fits).map e.enter := by
  unfold Options.setValue?
  -- The name is unknown, that of another option, or that of the entry itself, whose room is taken.
  cases e <;> split
  all_goals first
    | rfl
    | exact map_commute (fun _ => rfl) (fun _ => h)
    | exact filter_once h (fun _ => rfl)

theorem addSignature_enter (e : Entry) (o : Options) (values : List String) :
    (e.enter o).addSignature values = e.enter (o.addSignature values) := by
  cases e with
  | signature front =>
    simp only [enter, Options.addSignature, Option.getD_some, List.append_assoc]
  | _ => rfl

theorem fits_addSignature (e : Entry) (o : Options) (values : List String) :
    e.fits (o.addSignature values) = e.fits o := by
  cases e <;> rfl

end Entry

section Entering

variable {e : Entry} {o o' q : Options} {piece args : List (List Char)}

theorem Entry.enter_eq_some_iff {x : Option Options} :
    (x.filter e.fits).map e.enter = some q ↔ ∃ o', x = some o' ∧ e.fits o' ∧ q = e.enter o' := by
  rw [Option.map_eq_some_iff]
  constructor
  · rintro ⟨o', h, rfl⟩
    obtain ⟨h, ho'⟩ := Option.filter_eq_some_iff.mp h
    exact ⟨o', h, ho', rfl⟩
  · rintro ⟨o', h, ho', rfl⟩
    exact ⟨o', Option.filter_eq_some_iff.mpr ⟨h, ho'⟩, rfl⟩

theorem Takes.enter (h : Takes o piece o') (ho : e.fits o) (ho' : e.fits o') :
    Takes (e.enter o) piece (e.enter o') := by
  cases h with
  | flag hcs hname h =>
    have hset := (Entry.setFlag?_enter ho _).trans
      (Entry.enter_eq_some_iff.mpr ⟨o', h, ho', rfl⟩)
    exact .flag hcs hname hset
  | attached hcs h =>
    have hset := (Entry.setValue?_enter ho _ _).trans
      (Entry.enter_eq_some_iff.mpr ⟨o', h, ho', rfl⟩)
    exact .attached hcs hset
  | separate hcs hvalue h =>
    have hset := (Entry.setValue?_enter ho _ _).trans
      (Entry.enter_eq_some_iff.mpr ⟨o', h, ho', rfl⟩)
    exact .separate hcs hvalue hset
  | signature hcs ha hb hc =>
    rw [← Entry.addSignature_enter]
    exact .signature hcs ha hb hc

theorem Takes.of_enter (ho : e.fits o) (h : Takes (e.enter o) piece q) :
    ∃ o', Takes o piece o' ∧ e.fits o' ∧ q = e.enter o' := by
  cases h with
  | flag hcs hname h =>
    rw [Entry.setFlag?_enter ho, Entry.enter_eq_some_iff] at h
    obtain ⟨o', h, ho', rfl⟩ := h
    exact ⟨o', .flag hcs hname h, ho', rfl⟩
  | attached hcs h =>
    rw [Entry.setValue?_enter ho, Entry.enter_eq_some_iff] at h
    obtain ⟨o', h, ho', rfl⟩ := h
    exact ⟨o', .attached hcs h, ho', rfl⟩
  | separate hcs hvalue h =>
    rw [Entry.setValue?_enter ho, Entry.enter_eq_some_iff] at h
    obtain ⟨o', h, ho', rfl⟩ := h
    exact ⟨o', .separate hcs hvalue h, ho', rfl⟩
  | signature hcs ha hb hc =>
    exact ⟨_, .signature hcs ha hb hc, (Entry.fits_addSignature e o _).trans ho,
      Entry.addSignature_enter e o _⟩

theorem Reads.of_enter (ho : e.fits o) (h : Reads (e.enter o) args q) :
    ∃ r, Reads o args r ∧ e.fits r ∧ q = e.enter r := by
  generalize hstart : e.enter o = start at h
  induction h generalizing o with
  | nil => exact ⟨o, .nil o, ho, hstart.symm⟩
  | ended => exact ⟨o, .ended o, ho, hstart.symm⟩
  | cons hpiece _ ih =>
    subst hstart
    obtain ⟨o', hpiece', ho', rfl⟩ := hpiece.of_enter ho
    obtain ⟨r, hrest, hr, hq⟩ := ih ho' rfl
    exact ⟨r, .cons hpiece' hrest, hr, hq⟩

theorem Entry.exists_enter (h : e.fits o = false) :
    ∃ (e' : Entry) (o' : Options),
      o = e'.enter o' ∧ e'.fits o' ∧ ∀ r, e.fits (e'.enter r) = false := by
  cases e with
  | time =>
    obtain ⟨n, hn⟩ := Option.isSome_iff_exists.mp (by simpa [fits] using h)
    exact ⟨.time n, { o with time := none }, by simp [enter, ← hn], rfl, fun _ => rfl⟩
  | memory =>
    obtain ⟨n, hn⟩ := Option.isSome_iff_exists.mp (by simpa [fits] using h)
    exact ⟨.memory n, { o with memory := none }, by simp [enter, ← hn], rfl, fun _ => rfl⟩
  | halt =>
    obtain ⟨n, hn⟩ := Option.isSome_iff_exists.mp (by simpa [fits] using h)
    exact ⟨.halt n, { o with halt := none }, by simp [enter, ← hn], rfl, fun _ => rfl⟩
  | quitAfter =>
    obtain ⟨n, hn⟩ := Option.isSome_iff_exists.mp (by simpa [fits] using h)
    exact ⟨.quitAfter n, { o with quitAfter := none }, by simp [enter, ← hn], rfl, fun _ => rfl⟩
  | signature => cases h

/-- Reading on never makes room. -/
theorem Reads.fits (h : Reads o args q) (hq : e.fits q) : e.fits o := by
  cases ho : e.fits o with
  | true => rfl
  | false =>
    obtain ⟨e', o', rfl, ho', hfull⟩ := Entry.exists_enter ho
    obtain ⟨r, -, -, rfl⟩ := h.of_enter ho'
    exact absurd (hq.symm.trans (hfull r)) (by decide)

theorem Reads.enter (h : Reads o args q) (hq : e.fits q) : Reads (e.enter o) args (e.enter q) := by
  induction h with
  | nil o => exact .nil _
  | ended o => exact .ended _
  | cons hpiece hrest ih =>
    have ho := (Reads.cons hpiece hrest).fits hq
    exact .cons (hpiece.enter ho (hrest.fits hq)) (ih hq)

/-- An entry that has been made does not matter to what is read later, except that it takes room. -/
theorem reads_enter_iff (ho : e.fits o) :
    Reads (e.enter o) args q ↔ ∃ r, Reads o args r ∧ e.fits r ∧ q = e.enter r := by
  constructor
  · exact Reads.of_enter ho
  · rintro ⟨r, h, hr, rfl⟩
    exact h.enter hr

end Entering

end RiscvSoc.CommandLine
