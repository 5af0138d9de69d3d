import RiscvSoc.Proofs.Config.Layout
import RiscvSoc.Proofs.Json.Accepted
import RiscvSoc.Proofs.Json.Writer

/-! Configurations are read as they are written. An object that shows a layout gives each field of
each record what stands under its name; the text of the object is then read back by the grammar, so
neither the order of the members nor the way their strings are escaped matters. -/

namespace RiscvSoc

namespace Json

theorem natBelow?_natural {bound n : Nat} (h : n < bound) :
    natBelow? bound (.natural n) = some n := by
  rw [natBelow?, if_pos h]

theorem word32?_word32 (w : UInt32) : word32? (.word32 w) = some w := by
  rw [word32?, word32, natBelow?_natural w.toNat_lt, Option.map_some]
  exact congrArg some (UInt32.ofNat_toNat)

theorem word64?_word64 (w : UInt64) : word64? (.word64 w) = some w := by
  rw [word64?, word64, natBelow?_natural w.toNat_lt, Option.map_some]
  exact congrArg some (UInt64.ofNat_toNat)

theorem optional?_optional {α : Type} {read : Json → Option α} {write : α → Json}
    (h : ∀ a, read (write a) = some a) (hnull : ∀ a, write a ≠ .null) (o : Option α) :
    optional? read (.optional write o) = some o := by
  cases o with
  | none => rfl
  | some a =>
    rw [optional, optional?]
    · rw [h, Option.map_some]
    · exact hnull a

theorem optional?_text (o : Option String) : optional? text? (.optional .text o) = some o := by
  have hread : ∀ t, text? (text t) = some t := fun _ => rfl
  exact optional?_optional hread nofun o

theorem optional?_word32 (o : Option UInt32) :
    optional? word32? (.optional .word32 o) = some o := by
  exact optional?_optional word32?_word32 nofun o

theorem optional?_word64 (o : Option UInt64) :
    optional? word64? (.optional .word64 o) = some o := by
  exact optional?_optional word64?_word64 nofun o

theorem bool?_bool (b : Bool) : bool? (.bool b) = some b := rfl

/-- The named members of an object, if all of its keys are proper text. -/
theorem namedMembers_eq {members : List (Option String × Json)}
    (h : ∀ m ∈ members, ∃ name, m.1 = some name) :
    ∃ named : List (String × Json), namedMembers members = some named ∧
      members = named.map fun m => (some m.1, m.2) := by
  induction members with
  | nil => exact ⟨[], rfl, rfl⟩
  | cons m members ih =>
    obtain ⟨name, hname⟩ := h m List.mem_cons_self
    obtain ⟨named, hnamed, hmembers⟩ := ih fun m hm => h m (List.mem_cons_of_mem _ hm)
    obtain ⟨key, j⟩ := m
    cases hname
    refine ⟨(name, j) :: named, ?_, ?_⟩
    · rw [namedMembers, List.mapM_cons]
      rw [namedMembers] at hnamed
      simp only [Option.map_some, Option.bind_eq_bind, Option.bind_some, hnamed]
      rfl
    · rw [List.map_cons, hmembers]

end Json

namespace Layout

variable {S : Selection}

def Found (S : Selection) (l : Layout) : Option Json → Prop
  | some j => l.Shows S j
  | none => l.Lacks S

/-- A record is read from what is found under the names of its fields. -/
theorem Shows.given {fields : List (String × Layout)} {j : Json}
    (h : (Layout.record fields).Shows S j) (names : List String)
    (hnames : fields.map Prod.fst = names) :
    ∃ g, j.given? names = some g ∧ ∀ f ∈ fields, f.2.Found S (g f.1) := by
  subst hnames
  cases h with
  | @record _ members named once shown absent =>
    obtain ⟨ms, hms, rfl⟩ := Json.namedMembers_eq named
    have hmem : ∀ name j, (name, j) ∈ ms ↔
        (some name, j) ∈ ms.map fun m => (some m.1, m.2) := by
      intro name j
      simp
    have hcount : ∀ name, (ms.filter (·.1 == name)).length =
        (ms.map fun m => (some m.1, m.2)).countP (·.1 = some name) := by
      intro name
      rw [List.countP_map, ← List.countP_eq_length_filter]
      apply List.countP_congr
      intro m _
      simp
    have hguard : ((fields.map Prod.fst).all fun name =>
        (ms.filter (·.1 == name)).length ≤ 1) = true := by
      rw [List.all_map, List.all_eq_true]
      intro f hf
      simpa [hcount] using once f hf
    refine ⟨fun name => ms.lookup name, ?_, ?_⟩
    · rw [Json.given?, Json.givenByName, hms, Option.bind_eq_bind, Option.bind_some, guard,
        if_pos hguard]
      rfl
    · intro f hf
      dsimp only
      cases hlookup : ms.lookup f.1 with
      | some j =>
        obtain ⟨front, back, rfl, -⟩ := List.lookup_eq_some_iff.mp hlookup
        refine shown f hf j ((hmem f.1 j).mp ?_)
        simp
      | none =>
        refine absent f hf fun j hj => ?_
        have hne := List.lookup_eq_none_iff.mp hlookup _ ((hmem f.1 j).mpr hj)
        simp at hne

variable {g : Json.Given} {name : String} {α : Type}

/-- A field of one setting is read if the setting is selected, and else takes the standard value. -/
theorem Found.field_setting {s : Setting} {value : Json} {read : Json → Option α} {a d : α}
    (h : (Layout.setting s value).Found S (g name)) (hread : read value = some a) :
    Json.field g name read d = some (S.pick s a d) := by
  rw [Json.field, Selection.pick]
  cases hg : g name with
  | none =>
    rw [hg] at h
    have hunselected : S s = false := h s List.mem_cons_self
    rw [hunselected, if_neg Bool.false_ne_true]
  | some j =>
    rw [hg] at h
    cases h with
    | setting hselected =>
      rw [hselected, if_pos rfl]
      exact hread

/-- A field that holds a record is read if it is given. If it is not, the standard record is what
the empty object gives. -/
theorem Found.field_record {fields : List (String × Layout)} {read : Json → Option α} {a d : α}
    (h : (record fields).Found S (g name))
    (hread : ∀ j, (record fields).Shows S j → read j = some a)
    (hstandard : read (.object []) = some d) : Json.field g name read d = some a := by
  rw [Json.field]
  cases hg : g name with
  | none =>
    rw [hg] at h
    rw [← hread _ (Shows.empty h), hstandard]
  | some j =>
    rw [hg] at h
    exact hread j h

end Layout

open Layout (Found)

section

variable {S : Selection} {j : Json}

theorem VgaTiming.ofJson?_of_shows {t : VgaTiming} (h : t.layout.Shows S j) :
    VgaTiming.ofJson? j = some (t.overriding S .standard) := by
  obtain ⟨g, hgiven, hfields⟩ := h.given fieldNames rfl
  simp only [List.forall_mem_cons] at hfields
  obtain ⟨hActive, hFrontPorch, hSync, hBackPorch, vActive, vFrontPorch, vSync, vBackPorch, -⟩ :=
    hfields
  simp only [ofJson?, hgiven, Option.bind_eq_bind, Option.bind_some,
    hActive.field_setting (Json.word32?_word32 _),
    hFrontPorch.field_setting (Json.word32?_word32 _),
    hSync.field_setting (Json.word32?_word32 _),
    hBackPorch.field_setting (Json.word32?_word32 _),
    vActive.field_setting (Json.word32?_word32 _),
    vFrontPorch.field_setting (Json.word32?_word32 _),
    vSync.field_setting (Json.word32?_word32 _),
    vBackPorch.field_setting (Json.word32?_word32 _)]
  rfl

theorem GeneralConfig.ofJson?_of_shows {v : GeneralConfig} (h : v.layout.Shows S j) :
    GeneralConfig.ofJson? j = some (v.overriding S .standard) := by
  obtain ⟨g, hgiven, hfields⟩ := h.given fieldNames rfl
  simp only [List.forall_mem_cons] at hfields
  obtain ⟨hbudget, hdivider, hreset, hentry, hload, haddress, hvalue, himage, htrace, -⟩ := hfields
  simp only [ofJson?, hgiven, Option.bind_eq_bind, Option.bind_some,
    hbudget.field_setting (Json.word64?_word64 _), hdivider.field_setting (Json.word32?_word32 _),
    hreset.field_setting (Json.word64?_word64 _), hentry.field_setting (Json.word32?_word32 _),
    hload.field_setting (Json.word32?_word32 _), haddress.field_setting (Json.word32?_word32 _),
    hvalue.field_setting (Json.word32?_word32 _), himage.field_setting (Json.optional?_text _),
    htrace.field_setting (Json.optional?_text _)]
  rfl

theorem MemoryConfig.ofJson?_of_shows {v : MemoryConfig} (h : v.layout.Shows S j) :
    MemoryConfig.ofJson? j = some (v.overriding S .standard) := by
  obtain ⟨g, hgiven, hfields⟩ := h.given ["words"] rfl
  simp only [List.forall_mem_cons] at hfields
  obtain ⟨hwords, -⟩ := hfields
  simp only [ofJson?, hgiven, Option.bind_eq_bind, Option.bind_some,
    hwords.field_setting (Json.word64?_word64 _)]
  rfl

theorem VgaConfig.ofJson?_of_shows {v : VgaConfig} (h : v.layout.Shows S j) :
    VgaConfig.ofJson? j = some (v.overriding S .standard) := by
  obtain ⟨g, hgiven, hfields⟩ := h.given fieldNames rfl
  simp only [List.forall_mem_cons] at hfields
  obtain ⟨henabled, hdivider, htiming, hquit, hstages, hdump, -⟩ := hfields
  simp only [ofJson?, hgiven, Option.bind_eq_bind, Option.bind_some,
    henabled.field_setting (Json.bool?_bool _), hdivider.field_setting (Json.word32?_word32 _),
    htiming.field_record (d := standard.timing) (fun _ => VgaTiming.ofJson?_of_shows) rfl,
    hquit.field_setting (Json.optional?_word64 _), hstages.field_setting (Json.word64?_word64 _),
    hdump.field_setting (Json.optional?_text _)]
  rfl

theorem DeviceConfig.ofJson?_of_shows {v : DeviceConfig} (h : v.layout.Shows S j) :
    DeviceConfig.ofJson? j = some (v.overriding S .standard) := by
  obtain ⟨g, hgiven, hfields⟩ := h.given ["uart_echo", "uart_stdin", "vga"] rfl
  simp only [List.forall_mem_cons] at hfields
  obtain ⟨hecho, hstdin, hvga, -⟩ := hfields
  simp only [ofJson?, hgiven, Option.bind_eq_bind, Option.bind_some,
    hecho.field_setting (Json.bool?_bool _), hstdin.field_setting (Json.bool?_bool _),
    hvga.field_record (d := standard.vga) (fun _ => VgaConfig.ofJson?_of_shows) rfl]
  rfl

theorem SignatureConfig.ofJson?_of_shows {v : SignatureConfig} (h : v.layout.Shows S j) :
    SignatureConfig.ofJson? j = some (v.overriding S .standard) := by
  obtain ⟨g, hgiven, hfields⟩ := h.given ["output", "begin", "end", "elf"] rfl
  simp only [List.forall_mem_cons] at hfields
  obtain ⟨houtput, hstart, hstop, helf, -⟩ := hfields
  simp only [ofJson?, hgiven, Option.bind_eq_bind, Option.bind_some,
    houtput.field_setting (Json.optional?_text _), hstart.field_setting (Json.optional?_word32 _),
    hstop.field_setting (Json.optional?_word32 _), helf.field_setting (Json.optional?_text _)]
  rfl

theorem Config.ofJson?_of_shows {c : Config} (h : c.layout.Shows S j) :
    Config.ofJson? j = some (c.overriding S .standard) := by
  obtain ⟨g, hgiven, hfields⟩ := h.given ["general", "memory", "devices", "signature"] rfl
  simp only [List.forall_mem_cons] at hfields
  obtain ⟨hgeneral, hmemory, hdevices, hsignature, -⟩ := hfields
  simp only [ofJson?, hgiven, Option.bind_eq_bind, Option.bind_some,
    hgeneral.field_record (d := standard.general) (fun _ => GeneralConfig.ofJson?_of_shows) rfl,
    hmemory.field_record (d := standard.memory) (fun _ => MemoryConfig.ofJson?_of_shows) rfl,
    hdevices.field_record (d := standard.devices) (fun _ => DeviceConfig.ofJson?_of_shows) rfl,
    hsignature.field_record (d := standard.signature)
      (fun _ => SignatureConfig.ofJson?_of_shows) rfl]
  rfl

end

namespace Layout

def isShown (S : Selection) : Layout → Bool
  | .setting s _ => S s
  | .record _ => true

mutual

/-- The fields of each record have names of their own. -/
def isProper : Layout → Bool
  | .setting _ _ => true
  | .record fields => (fields.map Prod.fst).Nodup && areProper fields

def areProper : List (String × Layout) → Bool
  | [] => true
  | (_, l) :: fields => l.isProper && areProper fields

end

mutual

/-- The selected settings as a value, in the order of the layout. -/
def json (S : Selection) : Layout → Json
  | .setting _ value => value
  | .record fields => .object (members S fields)

def members (S : Selection) : List (String × Layout) → List (Option String × Json)
  | [] => []
  | (name, l) :: fields =>
    if l.isShown S then (some name, l.json S) :: members S fields else members S fields

end

variable {S : Selection} {fields : List (String × Layout)}

theorem mem_members {m : Option String × Json} :
    m ∈ members S fields ↔ ∃ f ∈ fields, f.2.isShown S = true ∧ m = (some f.1, f.2.json S) := by
  induction fields with
  | nil => simp [members]
  | cons f fields ih =>
    obtain ⟨name, l⟩ := f
    rw [members]
    split
    · rename_i hshown
      simp [ih, hshown]
    · rename_i hshown
      simp [ih, hshown]

theorem countP_members_le (name : String) :
    (members S fields).countP (·.1 = some name) ≤ (fields.map Prod.fst).count name := by
  induction fields with
  | nil => exact Nat.le_refl 0
  | cons f fields ih =>
    obtain ⟨name', l⟩ := f
    rw [members, List.map_cons, List.count_cons]
    split
    · rw [List.countP_cons]
      simp only [Option.some_inj, decide_eq_true_iff, beq_iff_eq]
      omega
    · omega

theorem lacks_of_isShown {l : Layout} (h : l.isShown S = false) : l.Lacks S := by
  cases l with
  | setting s value =>
    intro s' hs'
    rwa [List.mem_singleton.mp hs']
  | record fields => cases h

mutual

theorem shows_json : ∀ l : Layout, l.isProper = true → l.isShown S = true → l.Shows S (l.json S)
  | .setting _ _, _, hshown => .setting hshown
  | .record fields, hproper, _ => by
    rw [isProper, Bool.and_eq_true, decide_eq_true_iff] at hproper
    obtain ⟨hnodup, hfields⟩ := hproper
    refine .record ?_ ?_ ?_ ?_
    · intro m hm
      obtain ⟨f, -, -, rfl⟩ := mem_members.mp hm
      exact ⟨f.1, rfl⟩
    · intro f _
      exact Nat.le_trans (countP_members_le f.1) (List.nodup_iff_count_le_one.mp hnodup f.1)
    · intro f hf j hj
      obtain ⟨f', hf', hshown, heq⟩ := mem_members.mp hj
      obtain ⟨hname, rfl⟩ := Prod.mk.inj heq
      obtain rfl : f = f' := List.inj_on_of_nodup_map hnodup hf hf' (Option.some.inj hname)
      exact shows_fields fields hfields f hf hshown
    · intro f hf hnone
      apply lacks_of_isShown
      rw [← Bool.not_eq_true]
      intro hshown
      exact hnone _ (mem_members.mpr ⟨f, hf, hshown, rfl⟩)

theorem shows_fields : ∀ fields : List (String × Layout), areProper fields = true →
    ∀ f ∈ fields, f.2.isShown S = true → f.2.Shows S (f.2.json S)
  | [], _, _, hf, _ => absurd hf List.not_mem_nil
  | (name, l) :: fields, hproper, f, hf, hshown => by
    rw [areProper, Bool.and_eq_true] at hproper
    rcases List.mem_cons.mp hf with rfl | hf
    · exact shows_json l hproper.1 hshown
    · exact shows_fields fields hproper.2 f hf hshown

end

end Layout

namespace Config

def text (S : Selection) (c : Config) : String :=
  (c.layout.json S).compact

/-- A text gives a configuration exactly if it spells a value that holds one. -/
theorem ofText_eq_ok_iff {text : String} {c : Config} :
    Config.ofText text = .ok c ↔ ∃ j, Json.SpelledBy j text ∧ ofJson? j = some c := by
  simp only [← Json.parse?_eq_some_iff, ← Option.bind_eq_some_iff, ofText]
  cases (Json.parse? text).bind ofJson? <;> simp

theorem isProper_layout (c : Config) : c.layout.isProper = true := rfl

/-- Whatever text is given of the selected settings of a configuration, in whatever order, with
whatever escapes and among whatever other members, reading it gives the standard configuration with
just these settings replaced. There is such a text for every selection; the text of all settings
gives the configuration back. -/
theorem ofText_overriding (c : Config) (S : Selection) :
    (∀ j text, c.layout.Shows S j → Json.SpelledBy j text →
        Config.ofText text = .ok (c.overriding S .standard)) ∧
      Config.ofText (c.text S) = .ok (c.overriding S .standard) ∧
      Config.ofText (c.text .all) = .ok c := by
  have hread : ∀ S j text, c.layout.Shows S j → Json.SpelledBy j text →
      Config.ofText text = .ok (c.overriding S .standard) := by
    intro S j text hshows hspelled
    exact ofText_eq_ok_iff.mpr ⟨j, hspelled, ofJson?_of_shows hshows⟩
  have hwritten : ∀ S, Config.ofText (c.text S) = .ok (c.overriding S .standard) := by
    intro S
    exact hread S _ _ (Layout.shows_json c.layout c.isProper_layout rfl) (Json.spelledBy_compact _)
  refine ⟨hread S, hwritten S, ?_⟩
  rw [hwritten, overriding_all]

/-- A small memory, and a signature whose path has a quote in it. -/
def small : Config :=
  { standard with
    memory := { words := 16 }
    signature := { SignatureConfig.standard with output := some "a\"b" } }

/-- These two settings, in the other order and among members that are no settings. -/
def smallJson : Json :=
  .object
    [(some "signature", .object [(some "output", .text "a\"b")]),
      (some "memory",
        .object [(some "note", .array [.null, .otherNumber]), (some "words", .natural 16)]),
      (some "comment", .string none)]

theorem ofText_overriding_small :
    let S : Selection := fun s => s = .words || s = .output
    small.layout.Shows S smallJson ∧ Json.SpelledBy smallJson smallJson.compact ∧
      Config.ofText smallJson.compact = .ok small := by
  intro S
  have hmemory : small.memory.layout.Shows S
      (.object [(some "note", .array [.null, .otherNumber]), (some "words", .natural 16)]) := by
    have hwords : (Layout.setting .words (.word64 small.memory.words)).Shows S (.natural 16) :=
      .setting rfl
    exact .record (by simp) (by simp) (by simpa using hwords) (by simp)
  have hsignature : small.signature.layout.Shows S (.object [(some "output", .text "a\"b")]) := by
    have houtput : (Layout.setting .output (.optional .text small.signature.output)).Shows S
        (.text "a\"b") := .setting rfl
    have hothers : (Layout.setting .start (.optional .word32 small.signature.start)).Lacks S ∧
        (Layout.setting .stop (.optional .word32 small.signature.stop)).Lacks S ∧
        (Layout.setting .elf (.optional .text small.signature.elf)).Lacks S := by decide
    exact .record (by simp) (by simp) (by simpa using houtput) (by simpa using hothers)
  have hshows : small.layout.Shows S smallJson := by
    have hothers : small.general.layout.Lacks S ∧ small.devices.layout.Lacks S := by decide
    exact .record (by simp) (by simp) (by simpa using ⟨hmemory, hsignature⟩)
      (by simpa using hothers)
  have hspelled : Json.SpelledBy smallJson smallJson.compact := Json.spelledBy_compact smallJson
  exact ⟨hshows, hspelled, (ofText_overriding small S).1 smallJson _ hshows hspelled⟩

end Config

end RiscvSoc
