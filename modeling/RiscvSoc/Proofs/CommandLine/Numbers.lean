import Mathlib.Data.List.Basic
import Mathlib.Data.List.TakeWhile
import RiscvSoc.CommandLine.Execute
import RiscvSoc.Proofs.CommandLine.Reading
import RiscvSoc.Proofs.Text.Numeral

/-! Numbers on the command line. However a number is written, the option that it is given for does
the same as the number in the settings of the configuration file would do, as long as it fits; only
the option for a number of frames does not know hexadecimal numbers. -/

namespace RiscvSoc.CommandLine

/-- The settings that the options make out of those of a configuration file. -/
def Options.settings (o : Options) (base : Config) : Option Config :=
  (o.overrideSignature base.signature).toOption.map fun signature =>
    { general := o.overrideGeneral base.general
      memory := o.overrideMemory base.memory
      devices := o.overrideDevices base.devices
      signature }

def settings (arguments : List String) (base : Config) : Option Config :=
  match Request.ofArguments arguments with
  | .run o => o.settings base
  | _ => none

/-- The effective configuration, unless the command line is refused. -/
def effective (arguments : List String) (base : Config) : Option Config :=
  match Request.ofArguments arguments with
  | .run o => (o.configure base).toOption
  | _ => none

/-- An option whose value is a number; a bound of the signature comes with the other bound and the
file. -/
inductive NumericOption where
  | time
  | memory
  | halt
  | quitAfter
  | signatureStart (stop file : String)
  | signatureStop (start file : String)
  deriving DecidableEq

def valueForms (name text : String) : List (List String) :=
  [["--" ++ name, text], ["--" ++ name ++ "=" ++ text]]

/-- The settings of a signature, if the bounds and the file can be given on the command line. -/
def signed? (base : Config) (start stop : Option UInt32) (file : String) : Option Config := do
  let start ← start
  let stop ← stop
  if isValue file.toList then
    some { base with signature :=
      { base.signature with start := some start, stop := some stop, output := some file } }
  else none

def Entry.put (base : Config) : Entry → Config
  | .time n => { base with general := { base.general with cycleBudget := n } }
  | .memory n => { base with memory := { words := n } }
  | .halt n => { base with general := { base.general with haltAddress := n } }
  | .quitAfter n => { base with devices := { base.devices with
      vga := { base.devices.vga with quitAfterFrames := some n } } }
  | .signature _ => base

/-- The arguments are in order, and others may follow them. -/
def whole (arguments : List String) : Bool :=
  match Request.ofArguments arguments with
  | .run _ => !arguments.contains "--"
  | _ => false

namespace NumericOption

def width : NumericOption → Nat
  | .time | .memory | .quitAfter => 64
  | .halt | .signatureStart .. | .signatureStop .. => 32

def forms (text : String) : NumericOption → List (List String)
  | .time => valueForms "time" text
  | .memory => valueForms "memory" text
  | .halt => valueForms "halt" text
  | .quitAfter => valueForms "quit-after" text
  | .signatureStart stop file => [["--signature", text, stop, file]]
  | .signatureStop start file => [["--signature", start, text, file]]

def value (c : Config) : NumericOption → Option Nat
  | .time => some c.general.cycleBudget.toNat
  | .memory => some c.memory.words.toNat
  | .halt => some c.general.haltAddress.toNat
  | .quitAfter => c.devices.vga.quitAfterFrames.map UInt64.toNat
  | .signatureStart .. => c.signature.start.map UInt32.toNat
  | .signatureStop .. => c.signature.stop.map UInt32.toNat

/-- The settings with the number among them. -/
def put? (n : Nat) (base : Config) : NumericOption → Option Config
  | .time => some ((Entry.time n.toUInt64).put base)
  | .memory => some ((Entry.memory n.toUInt64).put base)
  | .halt => some ((Entry.halt n.toUInt32).put base)
  | .quitAfter => some ((Entry.quitAfter n.toUInt64).put base)
  | .signatureStart stop file => signed? base (some n.toUInt32) (number32? stop) file
  | .signatureStop start file => signed? base (number32? start) (some n.toUInt32) file

def unset (o : Options) : NumericOption → Bool
  | .time => o.time.isNone
  | .memory => o.memory.isNone
  | .halt => o.halt.isNone
  | .quitAfter => o.quitAfter.isNone
  | .signatureStart .. | .signatureStop .. => o.signature.isNone

def absent (x : NumericOption) (arguments : List String) : Bool :=
  match Request.ofArguments arguments with
  | .run o => x.unset o
  | _ => true

/-- What the number means for a command line: with it among the settings, the other arguments make
the effective configuration. The option must be given between other ones, once only. -/
def outcome (x : NumericOption) (n : Nat) (before after : List String) (base : Config) :
    Option Config :=
  if n < 2 ^ x.width ∧ whole before ∧ x.absent (before ++ after) then
    ((x.put? n base).bind (settings (before ++ after))).filter (·.validate.isOk)
  else none

end NumericOption

section Outcome

variable {q : Options} {base c : Config} {arguments : List String}

theorem isOk_validate : c.validate.isOk ↔ c.validate = .ok () := by
  cases h : c.validate <;> simp [Except.isOk, Except.toBool]

theorem toOption_configure (o : Options) :
    (o.configure base).toOption = (o.settings base).filter (·.validate.isOk) := by
  have hcheck : ∀ c : Config, (do c.validate; return c : Except Error Config).toOption =
      (some c).filter (·.validate.isOk) := by
    intro c
    rw [Option.filter_some]
    cases c.validate <;> rfl
  unfold Options.configure Options.settings
  cases o.overrideSignature base.signature with
  | error fault => rfl
  | ok signature => exact hcheck _

/-- What a run does with the settings it reads is the effective configuration: it goes on with that
one, or fails where there is none. -/
theorem toOption_effectiveConfig {m : Type → Type} [Monad m] [LawfulMonad m] [FileStore m]
    (h : Request.ofArguments arguments = .run q) :
    Except.toOption <$> (effectiveConfig (m := m) q).run =
      (fun base => base.toOption.bind (effective arguments)) <$> (baseConfig q).run := by
  have heffective : ∀ base, effective arguments base = (q.configure base).toOption := by
    intro base
    rw [effective, h]
  rw [effectiveConfig, ExceptT.run_bind, map_bind, ← bind_pure_comp]
  refine bind_congr fun base => ?_
  cases base with
  | error e => exact map_pure _ _
  | ok base => exact (map_pure _ _).trans (congrArg pure (heffective base).symm)

theorem reads_ofArguments_iff :
    Reads .empty (arguments.map String.toList) q ↔ Request.ofArguments arguments = .run q :=
  reads_iff

theorem settings_eq_some_iff : settings arguments base = some c ↔
    ∃ q, Reads .empty (arguments.map String.toList) q ∧ q.settings base = some c := by
  simp only [reads_ofArguments_iff]
  unfold settings
  cases Request.ofArguments arguments <;> simp

theorem effective_eq_some_iff : effective arguments base = some c ↔
    (∃ q, Reads .empty (arguments.map String.toList) q ∧ q.settings base = some c) ∧
      c.validate.isOk := by
  simp only [reads_ofArguments_iff]
  unfold effective
  cases Request.ofArguments arguments <;> simp [toOption_configure, Option.filter_eq_some_iff]

theorem whole_iff : whole arguments ↔
    ∃ q, Reads .empty (arguments.map String.toList) q ∧ endMark ∉ arguments.map String.toList := by
  have hmark : endMark ∈ arguments.map String.toList ↔ "--" ∈ arguments := by
    rw [show endMark = "--".toList from rfl]
    exact List.mem_map_of_injective fun _ _ => String.toList_injective
  simp only [reads_ofArguments_iff, hmark]
  unfold whole
  cases Request.ofArguments arguments <;> simp

theorem settings_nil (base : Config) : settings [] base = some base := by
  have hread : Reads .empty (([] : List String).map String.toList) .empty := .nil _
  refine settings_eq_some_iff.mpr ⟨.empty, hread, ?_⟩
  have hdevices : Options.empty.overrideDevices base.devices = base.devices := by
    simp [Options.overrideDevices, Options.empty]
  have hsignature : (Options.empty.overrideSignature base.signature).toOption =
      some base.signature := rfl
  rw [Options.settings, hdevices, hsignature]
  rfl

theorem absent_iff {x : NumericOption} (h : Reads .empty (arguments.map String.toList) q) :
    x.absent arguments ↔ x.unset q := by
  rw [NumericOption.absent, reads_ofArguments_iff.mp h]

end Outcome

section Value

variable {o o' q r : Options} {rest : List (List Char)} {name text : String} {given : List String}

/-- A number does not look like an option. -/
theorem isValue_of_parse64 {n : UInt64} (h : Numeral.parse64 text = .ok n) :
    isValue text.toList := by
  unfold isValue
  split
  · rename_i c cs htext
    have hdash : Numeral.digit? 10 '-' = none := rfl
    simp [Numeral.parse64, htext, Numeral.radix, Numeral.unsigned, Numeral.accumulate, hdash] at h
  · rfl

theorem isValue_of_number32? {n : UInt32} (h : number32? text = some n) : isValue text.toList := by
  unfold number32? Numeral.parse32 at h
  cases hparse : Numeral.parse64 text with
  | ok n => exact isValue_of_parse64 hparse
  | error refusal =>
    rw [hparse] at h
    cases h

theorem Ordinary.ne_equals (hname : Ordinary name) : ∀ c ∈ name.toList, (c != '=') = true := by
  intro c hc
  exact bne_iff_ne.mpr (fun heq => hname.plain (heq ▸ hc))

theorem splitAttached_name (hname : Ordinary name) : splitAttached name.toList = (name, none) := by
  have htake : name.toList.takeWhile (· != '=') = name.toList :=
    List.takeWhile_eq_self_iff.mpr hname.ne_equals
  have hdrop : name.toList.dropWhile (· != '=') = [] :=
    List.dropWhile_eq_nil_iff.mpr hname.ne_equals
  rw [splitAttached, hdrop, htake, String.ofList_toList]

theorem splitAttached_value (hname : Ordinary name) :
    splitAttached (name.toList ++ '=' :: text.toList) = (name, some text) := by
  rw [splitAttached, List.takeWhile_append_of_pos hname.ne_equals,
    List.dropWhile_append_of_pos hname.ne_equals]
  simp

theorem reads_valueForms_iff (hname : Ordinary name) (htext : isValue text.toList)
    (hgiven : given ∈ valueForms name text) :
    Reads o (given.map String.toList ++ rest) q ↔
      ∃ o', o.setValue? name text = some o' ∧ Reads o' rest q := by
  have hset : readArguments o (given.map String.toList ++ rest) =
      (o.setValue? name text).elim .badUsage fun o' => readArguments o' rest := by
    rw [valueForms, List.mem_cons, List.mem_singleton] at hgiven
    rcases hgiven with rfl | rfl
    · have hargs : ["--" ++ name, text].map String.toList ++ rest =
          ('-' :: '-' :: name.toList) :: text.toList :: rest := by simp
      rw [hargs, readArguments_separate hname (splitAttached_name hname) htext,
        String.ofList_toList]
    · have hargs : ["--" ++ name ++ "=" ++ text].map String.toList ++ rest =
          ('-' :: '-' :: (name.toList ++ '=' :: text.toList)) :: rest := by simp
      rw [hargs, readArguments_attached hname (splitAttached_value hname)]
  rw [reads_iff, hset]
  cases o.setValue? name text <;> simp [reads_iff]

/-- A number that is set where there is room is an entry in front of all that follows. -/
theorem reads_entry_iff {e : Entry}
    (hset : o.setValue? name text = if e.fits o then some (e.enter o) else none) :
    (∃ o', o.setValue? name text = some o' ∧ Reads o' rest q) ↔
      ∃ r, Reads o rest r ∧ e.fits r ∧ q = e.enter r := by
  rw [hset]
  cases ho : e.fits o with
  | true => simp [reads_enter_iff ho]
  | false =>
    constructor
    · rintro ⟨o', h, -⟩
      cases h
    · rintro ⟨r, h, hr, -⟩
      exact absurd (ho.symm.trans (h.fits hr)) Bool.false_ne_true

inductive Entry.OfText (text : String) : Entry → String → Prop where
  | time {n : UInt64} (h : number64? text = some n) : OfText text (.time n) "time"
  | memory {n : UInt64} (h : number64? text = some n) : OfText text (.memory n) "memory"
  | halt {n : UInt32} (h : number32? text = some n) : OfText text (.halt n) "halt"
  | quitAfter {n : UInt64} (h : Numeral.decimal64? text = some n) :
      OfText text (.quitAfter n) "quit-after"

namespace Entry.OfText

variable {e : Entry}

theorem ordinary (h : e.OfText text name) : Ordinary name := by
  cases h <;> constructor <;> decide

theorem setValue? (h : e.OfText text name) (o : Options) :
    o.setValue? name text = if e.fits o then some (e.enter o) else none := by
  have honce : ∀ {α : Type} {old new : Option α} {a : α} {set : Option α → Options},
      new = some a → (once old new).map set = if old.isNone then some (set (some a)) else none := by
    rintro α old _ a set rfl
    cases old <;> rfl
  cases h with
  | time h => exact honce h
  | memory h => exact honce h
  | halt h => exact honce h
  | quitAfter h => exact honce h

/-- A number that is given once might as well be among the settings. -/
theorem settings (h : e.OfText text name) (hr : e.fits r) (base : Config) :
    (e.enter r).settings base = r.settings (e.put base) := by
  cases h
  all_goals
    have hr := Option.isNone_iff_eq_none.mp hr
    simp only [Options.settings, Options.overrideGeneral, Options.overrideMemory,
      Options.overrideDevices, enter, put, hr]
    rfl

end Entry.OfText

theorem not_reads_of_setValue? (hname : Ordinary name) (htext : isValue text.toList)
    (hgiven : given ∈ valueForms name text)
    (hset : o.setValue? name text = none) (rest : List (List Char)) (q : Options) :
    ¬ Reads o (given.map String.toList ++ rest) q := by
  rw [reads_valueForms_iff hname htext hgiven, hset]
  rintro ⟨o', h, -⟩
  cases h

end Value

section Signature

variable {o q : Options} {base c : Config} {rest : List (List Char)} {start stop file : String}

theorem reads_signature_iff :
    Reads o (["--signature", start, stop, file].map String.toList ++ rest) q ↔
      (isValue start.toList ∧ isValue stop.toList ∧ isValue file.toList) ∧
        Reads (o.addSignature [start, stop, file]) rest q := by
  have hread : readArguments o (["--signature", start, stop, file].map String.toList ++ rest) =
      if isValue start.toList ∧ isValue stop.toList ∧ isValue file.toList then
        readArguments (o.addSignature [start, stop, file]) rest
      else .badUsage := by
    simp [readArguments, splitAttached, and_assoc]
  rw [reads_iff, hread]
  split
  · rename_i hvalues
    simp [reads_iff, hvalues]
  · rename_i hvalues
    simp [hvalues]

theorem toOption_signatureBound (text : String) :
    (signatureBound text).toOption = number32? text := by
  unfold signatureBound number32?
  cases Numeral.parse32 text <;> rfl

theorem toOption_overrideSignature {s : SignatureConfig}
    (hsignature : o.signature = some [start, stop, file]) :
    (o.overrideSignature s).toOption = (number32? start).bind fun start =>
      (number32? stop).map fun stop =>
        { output := o.signatureOut <|> some file, start := some start, stop := some stop
          elf := o.signatureElf <|> s.elf } := by
  rw [← toOption_signatureBound, ← toOption_signatureBound, Options.overrideSignature, hsignature]
  cases hstart : signatureBound start with
  | error fault => simp [hstart]; rfl
  | ok n => cases hstop : signatureBound stop <;> simp [hstart, hstop] <;> rfl

theorem signed?_eq_some_iff {b : Config} {start stop : Option UInt32} :
    signed? base start stop file = some b ↔
      ∃ n m, start = some n ∧ stop = some m ∧ isValue file.toList ∧ { base with signature :=
        { base.signature with start := some n, stop := some m, output := some file } } = b := by
  cases start with
  | none => simp [signed?]
  | some n =>
    cases stop with
    | none => simp [signed?]
    | some m => cases hfile : isValue file.toList <;> simp [signed?, hfile]

/-- The bounds and the file of one signature option might as well be settings. -/
theorem settings_signature (hsignature : q.signature = none) (hfile : isValue file.toList) :
    ((Entry.signature [start, stop, file]).enter q).settings base =
      (signed? base (number32? start) (number32? stop) file).bind q.settings := by
  have hone : ((Entry.signature [start, stop, file]).enter q).signature =
      some [start, stop, file] := by
    rw [Entry.enter, hsignature]
    rfl
  rw [Options.settings, toOption_overrideSignature hone]
  cases number32? start with
  | none => rfl
  | some n =>
    cases number32? stop with
    | none => rfl
    | some m =>
      rw [signed?_eq_some_iff.mpr ⟨n, m, rfl, rfl, hfile, rfl⟩, Option.bind_some, Option.bind_some,
        Option.map_some, Option.map_some, Options.settings, Options.overrideSignature, hsignature]
      rfl

/-- Signature options add up, and more than one are too many. -/
theorem length_of_settings {values : List String} (hsignature : q.signature = some values)
    (hq : q.settings base = some c) : values.length = 3 := by
  rw [Options.settings, Options.overrideSignature, hsignature] at hq
  match values with
  | [_, _, _] => rfl
  | [] | [_] | [_, _] | _ :: _ :: _ :: _ :: _ => cases hq

theorem Reads.signature_append {values : List String} (hsignature : o.signature = some values)
    (h : Reads o rest q) : ∃ more, q.signature = some (values ++ more) := by
  have hfront : o = (Entry.signature values).enter { o with signature := none } := by
    simp [Entry.enter, ← hsignature]
  rw [hfront] at h
  obtain ⟨r, -, -, rfl⟩ := h.of_enter rfl
  exact ⟨r.signature.getD [], rfl⟩

/-- Where an effective configuration comes of it, the signature option is given once, and then it
might as well be among the settings. -/
theorem settings_signature_iff (ho : o.signature ≠ some []) :
    (∃ q, Reads o (["--signature", start, stop, file].map String.toList ++ rest) q ∧
        q.settings base = some c) ↔
      ∃ q, Reads o rest q ∧ q.signature.isNone ∧
        ∃ b, signed? base (number32? start) (number32? stop) file = some b ∧
          q.settings b = some c := by
  cases hsignature : o.signature with
  | none =>
    have hadd : o.addSignature [start, stop, file] =
        (Entry.signature [start, stop, file]).enter o := by
      rw [Options.addSignature, Entry.enter, hsignature]
      rfl
    simp only [reads_signature_iff, hadd, reads_enter_iff (e := .signature _) rfl]
    constructor
    · rintro ⟨q, ⟨hvalues, r, h, -, rfl⟩, hq⟩
      have hnone : r.signature = none := by
        cases hr : r.signature with
        | none => rfl
        | some more =>
          have hboth : ((Entry.signature [start, stop, file]).enter r).signature =
              some ([start, stop, file] ++ more) := by
            rw [Entry.enter, hr]
            rfl
          have hempty : more = [] := by simpa using length_of_settings hboth hq
          exact absurd (hempty ▸ hr) (h.signature_ne_nil ho)
      refine ⟨r, h, Option.isNone_iff_eq_none.mpr hnone, ?_⟩
      rw [settings_signature hnone hvalues.2.2] at hq
      exact Option.bind_eq_some_iff.mp hq
    · rintro ⟨r, h, hnone, b, hsigned, hr⟩
      obtain ⟨n, m, hn, hm, hfile, -⟩ := signed?_eq_some_iff.mp hsigned
      refine ⟨_, ⟨⟨isValue_of_number32? hn, isValue_of_number32? hm, hfile⟩, r, h, rfl, rfl⟩, ?_⟩
      rw [settings_signature (Option.isNone_iff_eq_none.mp hnone) hfile, hsigned,
        Option.bind_some, hr]
  | some values =>
    constructor
    · rintro ⟨q, h, hq⟩
      obtain ⟨-, h⟩ := reads_signature_iff.mp h
      obtain ⟨more, hmore⟩ := h.signature_append rfl
      have hlength := length_of_settings hmore hq
      have hempty : values = [] := by
        rw [hsignature, Option.getD_some, List.length_append, List.length_append] at hlength
        exact List.length_eq_zero_iff.mp (by simp at hlength; omega)
      exact absurd (hempty ▸ hsignature) ho
    · rintro ⟨q, h, hnone, -⟩
      obtain ⟨more, hmore⟩ := h.signature_append hsignature
      rw [hmore] at hnone
      cases hnone

end Signature

namespace NumericOption

variable {n : Nat} {r : Numeral.Radix} {text : String} {given : List String} {o : Options}
  {base c : Config} {rest : List (List Char)} {x : NumericOption}

theorem settings_value_iff {e : Entry} {name : String} (h : e.OfText text name)
    (htext : isValue text.toList) (hgiven : given ∈ valueForms name text)
    (hunset : ∀ q, x.unset q = e.fits q) (hput : x.put? n base = some (e.put base)) :
    (∃ q, Reads o (given.map String.toList ++ rest) q ∧ q.settings base = some c) ↔
      ∃ q, Reads o rest q ∧ x.unset q ∧ ∃ b, x.put? n base = some b ∧ q.settings b = some c := by
  simp only [reads_valueForms_iff h.ordinary htext hgiven, reads_entry_iff (h.setValue? _),
    hunset, hput]
  constructor
  · rintro ⟨q, ⟨r, hread, hr, rfl⟩, hq⟩
    exact ⟨r, hread, hr, e.put base, rfl, (h.settings hr base).symm.trans hq⟩
  · rintro ⟨r, hread, hr, b, hb, hq⟩
    cases hb
    exact ⟨e.enter r, ⟨r, hread, hr, rfl⟩, (h.settings hr base).trans hq⟩

/-- Only the number of frames is refused for how it is written. -/
theorem settings_forms_iff (hn : n < 2 ^ 64) (htext : r.Spells n text)
    (hgiven : given ∈ x.forms text) (ho : o.signature ≠ some []) :
    (∃ q, Reads o (given.map String.toList ++ rest) q ∧ q.settings base = some c) ↔
      ¬ (x = .quitAfter ∧ r = .hexadecimal) ∧ n < 2 ^ x.width ∧ ∃ q, Reads o rest q ∧ x.unset q ∧
        ∃ b, x.put? n base = some b ∧ q.settings b = some c := by
  have h64 : number64? text = some n.toUInt64 := by
    rw [number64?, Numeral.parse64_of_spells htext hn]
    rfl
  have h32 : number32? text = if n < 2 ^ 32 then some n.toUInt32 else none := by
    rw [number32?, Numeral.parse32_of_spells htext hn, show UInt32.size = 2 ^ 32 from rfl]
    split <;> rfl
  have hvalue : isValue text.toList := isValue_of_parse64 (Numeral.parse64_of_spells htext hn)
  -- Either bound of the signature: one that does not fit makes no settings.
  have hbound : ∀ sign : Option UInt32 → Option Config, sign none = none →
      ((∃ q, Reads o rest q ∧ q.signature.isNone ∧
          ∃ b, sign (number32? text) = some b ∧ q.settings b = some c) ↔
        n < 2 ^ 32 ∧ ∃ q, Reads o rest q ∧ q.signature.isNone ∧
          ∃ b, sign (some n.toUInt32) = some b ∧ q.settings b = some c) := by
    intro sign hsign
    rw [h32]
    by_cases hfits : n < 2 ^ 32
    · rw [if_pos hfits, and_iff_right hfits]
    · rw [if_neg hfits, hsign]
      refine iff_of_false ?_ (fun h => hfits h.1)
      rintro ⟨q, -, -, b, h, -⟩
      cases h
  cases x with
  | time =>
    rw [settings_value_iff (x := .time) (.time h64) hvalue hgiven (fun _ => rfl) rfl]
    exact ⟨fun h => ⟨by simp, hn, h⟩, fun h => h.2.2⟩
  | memory =>
    rw [settings_value_iff (x := .memory) (.memory h64) hvalue hgiven (fun _ => rfl) rfl]
    exact ⟨fun h => ⟨by simp, hn, h⟩, fun h => h.2.2⟩
  | halt =>
    by_cases hfits : n < 2 ^ 32
    · rw [if_pos hfits] at h32
      rw [settings_value_iff (x := .halt) (.halt h32) hvalue hgiven (fun _ => rfl) rfl]
      exact ⟨fun h => ⟨by simp, hfits, h⟩, fun h => h.2.2⟩
    · have hset : o.setValue? "halt" text = none := by
        rw [Options.setValue?, h32, if_neg hfits]
        cases o.halt <;> rfl
      have hname : Ordinary "halt" := by constructor <;> decide
      have hrefused := not_reads_of_setValue? hname hvalue hgiven hset rest
      exact iff_of_false (fun ⟨q, h, _⟩ => hrefused q h) (fun h => hfits h.2.1)
  | quitAfter =>
    cases r with
    | decimal =>
      have hdecimal := Numeral.decimal64?_of_decimal htext hn
      rw [settings_value_iff (x := .quitAfter) (.quitAfter hdecimal) hvalue hgiven
        (fun _ => rfl) rfl]
      exact ⟨fun h => ⟨by simp, hn, h⟩, fun h => h.2.2⟩
    | hexadecimal =>
      have hset : o.setValue? "quit-after" text = none := by
        rw [Options.setValue?, Numeral.decimal64?_of_hexadecimal htext]
        cases o.quitAfter <;> rfl
      have hname : Ordinary "quit-after" := by constructor <;> decide
      have hrefused := not_reads_of_setValue? hname hvalue hgiven hset rest
      exact iff_of_false (fun ⟨q, h, _⟩ => hrefused q h) (fun h => h.1 ⟨rfl, rfl⟩)
  | signatureStart stop file =>
    cases List.mem_singleton.mp hgiven
    rw [settings_signature_iff ho, hbound (signed? base · (number32? stop) file) rfl]
    exact ⟨fun h => ⟨by simp, h⟩, And.right⟩
  | signatureStop start file =>
    cases List.mem_singleton.mp hgiven
    have hnone : signed? base (number32? start) none file = none := by
      cases number32? start <;> rfl
    rw [settings_signature_iff ho, hbound (signed? base (number32? start) · file) hnone]
    exact ⟨fun h => ⟨by simp, h⟩, And.right⟩

theorem exists_of_mem_forms (hgiven : given ∈ x.forms text) :
    ∃ first tail, given.map String.toList = first :: tail ∧ isValue first = false := by
  have hvalueForms : ∀ name, given ∈ valueForms name text →
      ∃ first tail, given.map String.toList = first :: tail ∧ isValue first = false := by
    intro name hgiven
    rw [valueForms, List.mem_cons, List.mem_singleton] at hgiven
    rcases hgiven with rfl | rfl
    · exact ⟨_, _, rfl, by simp [isValue]⟩
    · exact ⟨_, _, rfl, by simp [isValue]⟩
  cases x with
  | signatureStart stop file =>
    cases List.mem_singleton.mp hgiven
    exact ⟨_, _, rfl, rfl⟩
  | signatureStop start file =>
    cases List.mem_singleton.mp hgiven
    exact ⟨_, _, rfl, rfl⟩
  | _ => exact hvalueForms _ hgiven

theorem outcome_eq_some_iff {before after : List String} : x.outcome n before after base = some c ↔
    (∃ o, Reads .empty (before.map String.toList) o ∧ endMark ∉ before.map String.toList ∧
      n < 2 ^ x.width ∧ ∃ q, Reads o (after.map String.toList) q ∧ x.unset q ∧
        ∃ b, x.put? n base = some b ∧ q.settings b = some c) ∧ c.validate.isOk := by
  have hjoin : ∀ {o q}, Reads .empty (before.map String.toList) o →
      endMark ∉ before.map String.toList →
      (Reads .empty ((before ++ after).map String.toList) q ↔
        Reads o (after.map String.toList) q) := by
    intro o q hbefore hend
    rw [List.map_append]
    exact hbefore.append_iff hend
  constructor
  · intro h
    unfold outcome at h
    split at h
    · rename_i hgiven
      obtain ⟨hfits, hwhole, habsent⟩ := hgiven
      obtain ⟨o, hbefore, hend⟩ := whole_iff.mp hwhole
      obtain ⟨h, hvalid⟩ := Option.filter_eq_some_iff.mp h
      obtain ⟨b, hput, h⟩ := Option.bind_eq_some_iff.mp h
      obtain ⟨q, hread, hq⟩ := settings_eq_some_iff.mp h
      have hunset := (absent_iff hread).mp habsent
      have hafter := (hjoin hbefore hend).mp hread
      exact ⟨⟨o, hbefore, hend, hfits, q, hafter, hunset, b, hput, hq⟩, hvalid⟩
    · cases h
  · rintro ⟨⟨o, hbefore, hend, hfits, q, hafter, hunset, b, hput, hq⟩, hvalid⟩
    have hread := (hjoin hbefore hend).mpr hafter
    have hgiven : n < 2 ^ x.width ∧ whole before ∧ x.absent (before ++ after) :=
      ⟨hfits, whole_iff.mpr ⟨o, hbefore, hend⟩, (absent_iff hread).mpr hunset⟩
    rw [outcome, if_pos hgiven, hput, Option.bind_some, settings_eq_some_iff.mpr ⟨q, hread, hq⟩,
      Option.filter_some, if_pos hvalid]

theorem effective_forms {before after : List String} (hn : n < 2 ^ 64) (htext : r.Spells n text)
    (hgiven : given ∈ x.forms text) : effective (before ++ given ++ after) base = some c ↔
      ¬ (x = .quitAfter ∧ r = .hexadecimal) ∧ x.outcome n before after base = some c := by
  obtain ⟨first, tail, hforms, hfirst⟩ := exists_of_mem_forms hgiven
  have hne : Options.empty.signature ≠ some [] := by
    intro h
    cases h
  -- The form starts with an option, so what stands in front of it is read by itself.
  have hcut : ∀ q, Reads .empty ((before ++ given ++ after).map String.toList) q ↔
      ∃ o, Reads .empty (before.map String.toList) o ∧ endMark ∉ before.map String.toList ∧
        Reads o (given.map String.toList ++ after.map String.toList) q := by
    intro q
    rw [List.map_append, List.map_append, List.append_assoc]
    constructor
    · intro h
      rw [hforms, List.cons_append] at h ⊢
      exact h.cut hfirst
    · rintro ⟨o, hbefore, hend, h⟩
      exact (hbefore.append_iff hend).mpr h
  rw [effective_eq_some_iff, outcome_eq_some_iff]
  simp only [hcut]
  constructor
  · rintro ⟨⟨q, ⟨o, hbefore, hend, hread⟩, hq⟩, hvalid⟩
    obtain ⟨hwritten, h⟩ := (settings_forms_iff hn htext hgiven (hbefore.signature_ne_nil hne)).mp
      ⟨q, hread, hq⟩
    exact ⟨hwritten, ⟨o, hbefore, hend, h⟩, hvalid⟩
  · rintro ⟨hwritten, ⟨o, hbefore, hend, h⟩, hvalid⟩
    obtain ⟨q, hread, hq⟩ := (settings_forms_iff hn htext hgiven (hbefore.signature_ne_nil hne)).mpr
      ⟨hwritten, h⟩
    exact ⟨⟨q, ⟨o, hbefore, hend, hread⟩, hq⟩, hvalid⟩

/-- A number that is put among the settings, and that no option overrides, is in effect. -/
theorem value_of_settings {b : Config} {q : Options} (hn : n < 2 ^ x.width) (hunset : x.unset q)
    (hput : x.put? n base = some b) (hq : q.settings b = some c) : x.value c = some n := by
  obtain ⟨signature, hsignature, rfl⟩ := Option.map_eq_some_iff.mp hq
  have h64 : n < 2 ^ 64 → n.toUInt64.toNat = n := UInt64.toNat_ofNat_of_lt'
  have h32 : n < 2 ^ 32 → n.toUInt32.toNat = n := UInt32.toNat_ofNat_of_lt'
  cases x with
  | time =>
    cases hput
    have hnone : q.time = none := Option.isNone_iff_eq_none.mp hunset
    simp [value, Entry.put, Options.overrideGeneral, hnone, h64 hn]
  | memory =>
    cases hput
    have hnone : q.memory = none := Option.isNone_iff_eq_none.mp hunset
    simp [value, Entry.put, Options.overrideMemory, hnone, h64 hn]
  | halt =>
    cases hput
    have hnone : q.halt = none := Option.isNone_iff_eq_none.mp hunset
    simp [value, Entry.put, Options.overrideGeneral, hnone, h32 hn]
  | quitAfter =>
    cases hput
    have hnone : q.quitAfter = none := Option.isNone_iff_eq_none.mp hunset
    simp [value, Entry.put, Options.overrideDevices, hnone, h64 hn]
  | signatureStart stop file =>
    obtain ⟨_, m, hstart, -, -, rfl⟩ := signed?_eq_some_iff.mp hput
    cases hstart
    have hnone : q.signature = none := Option.isNone_iff_eq_none.mp hunset
    rw [Options.overrideSignature, hnone] at hsignature
    cases hsignature
    simp [value, h32 hn]
  | signatureStop start file =>
    obtain ⟨m, _, -, hstop, -, rfl⟩ := signed?_eq_some_iff.mp hput
    cases hstop
    have hnone : q.signature = none := Option.isNone_iff_eq_none.mp hunset
    rw [Options.overrideSignature, hnone] at hsignature
    cases hsignature
    simp [value, h32 hn]

theorem outcome_alone : x.outcome n [] [] base =
    if n < 2 ^ x.width then (x.put? n base).filter (·.validate.isOk) else none := by
  have hwhole : whole [] = true := rfl
  have habsent : x.absent ([] ++ []) = true := by
    cases x <;> rfl
  have hsettings : settings ([] ++ []) = some := funext settings_nil
  rw [outcome, hwhole, habsent, hsettings, Option.bind_fun_some]
  simp

/-- However a number is written and given, and whatever stands around it on the command line, the
effective configuration depends on the number alone: it is the one that the other arguments make
with the number among the settings, if the number has no more bits than the option takes and the
whole is valid. Where nothing else is given, these are the settings of the configuration file with
the number among them. A hexadecimal number of frames is refused. -/
theorem effective_number (x : NumericOption) (hn : n < 2 ^ 64) (htext : r.Spells n text)
    (hgiven : given ∈ x.forms text) (before after : List String) (base : Config) :
    effective (before ++ given ++ after) base =
        (if x = .quitAfter ∧ r = .hexadecimal then none else x.outcome n before after base) ∧
      (∀ c, x.outcome n before after base = some c →
        n < 2 ^ x.width ∧ x.value c = some n ∧ c.validate = .ok ()) ∧
      x.outcome n [] [] base =
        if n < 2 ^ x.width then (x.put? n base).filter (·.validate.isOk) else none := by
  refine ⟨?_, ?_, outcome_alone⟩
  · apply Option.ext
    intro c
    rw [effective_forms hn htext hgiven]
    split
    · rename_i hframes
      simp [hframes]
    · rename_i hframes
      simp [hframes]
  · intro c h
    obtain ⟨⟨o, -, -, hfits, q, -, hunset, b, hput, hq⟩, hvalid⟩ := outcome_eq_some_iff.mp h
    exact ⟨hfits, value_of_settings hfits hunset hput hq, isOk_validate.mp hvalid⟩

/-- A size of memory with zeros and letters of both cases. -/
theorem effective_number_memory :
    Numeral.Radix.hexadecimal.Spells 2748 "0X00aBc" ∧
      effective (["--time", "20"] ++ ["--memory=0X00aBc"] ++ ["--vga"]) .standard =
        NumericOption.memory.outcome 2748 ["--time", "20"] ["--vga"] .standard ∧
      (NumericOption.memory.outcome 2748 ["--time", "20"] ["--vga"] .standard).map
        (fun c => (c.general.cycleBudget, c.memory.words, c.devices.vga.enabled)) =
          some (20, 2748, true) := by
  have hspells : Numeral.Radix.hexadecimal.Spells 2748 "0X00aBc" :=
    ⟨'X', "00aBc".toList, .inr rfl, rfl, 2, by decide⟩
  have hform : ["--memory=0X00aBc"] ∈ NumericOption.memory.forms "0X00aBc" := by decide +kernel
  have hnumber := effective_number .memory (by decide) hspells hform ["--time", "20"] ["--vga"]
    .standard
  rw [if_neg (by simp)] at hnumber
  exact ⟨hspells, hnumber.1, by decide +kernel⟩

/-- One frame is the same number in both notations, but only the decimal one is accepted. -/
theorem frames_not_alike :
    ¬ ∀ (x : NumericOption) (n : Nat) (r r' : Numeral.Radix) (text text' : String), n < 2 ^ 64 →
      r.Spells n text → r'.Spells n text' → ∀ g ∈ x.forms text, ∀ g' ∈ x.forms text', ∀ base,
        effective g base = effective g' base := by
  intro halike
  have hhexadecimal : Numeral.Radix.hexadecimal.Spells 1 "0x1" :=
    ⟨'x', ['1'], .inl rfl, rfl, 0, by decide⟩
  have hdecimal : Numeral.Radix.decimal.Spells 1 "1" := ⟨0, by decide⟩
  have hsame := halike .quitAfter 1 _ _ _ _ (by decide) hhexadecimal hdecimal
    ["--quit-after", "0x1"] (by decide +kernel) ["--quit-after", "1"] (by decide +kernel) .standard
  exact absurd hsame (by decide +kernel)

end NumericOption

end RiscvSoc.CommandLine
