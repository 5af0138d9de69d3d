import RiscvSoc.Proofs.Waveform.Pieces
import RiscvSoc.Proofs.Waveform.Reader

/-! A dump reads back as what was sampled. It names the signals, starts them from zero, and then
gives each sample that changes anything with just the changes, so that playing the changes back
restores every value. -/

namespace RiscvSoc.Waveform

def declared (signals : List Signal) : List Declaration :=
  signals.mapIdx fun i s => { id := identifier i, width := s.width, name := s.name }

/-- All values, of signals numbered from `first`. -/
def valuesFrom (first : Nat) (values : List Nat) : List Change :=
  (values.zipIdx first).map fun (v, i) => ⟨identifier i, v⟩

/-- The values that differ from those before them, of signals numbered from `first`. -/
def changesFrom (first : Nat) (before after : List Nat) : List Change :=
  ((before.zip after).zipIdx first).filterMap fun ((old, new), i) =>
    if old = new then none else some ⟨identifier i, new⟩

/-- All signals are zero before the first sample. -/
def Sample.zero (signals : List Signal) : Sample :=
  { time := 0, values := List.replicate signals.length 0 }

/-- What a sample that follows another has to say, if anything. -/
def Section.between? (before after : Sample) : Option Section :=
  let changes := changesFrom 0 before.values after.values
  if changes = [] then none else some { time := after.time, changes }

/-- What samples say that follow another. -/
def sectionsAfter (before : Sample) (samples : List Sample) : List Section :=
  (List.zipWith Section.between? (before :: samples) samples).flatMap Option.toList

def Sample.Fits (signals : List Signal) (s : Sample) : Prop :=
  List.Forall₂ (fun signal v => v < 2 ^ signal.width) signals s.values

@[simp] theorem changesFrom_nil (first : Nat) (before : List Nat) :
    changesFrom first before [] = [] := by
  rw [changesFrom, List.zip_nil_right]
  rfl

theorem changesFrom_cons (first old new : Nat) (before after : List Nat) :
    changesFrom first (old :: before) (new :: after) =
      (if old = new then [] else [⟨identifier first, new⟩]) ++
        changesFrom (first + 1) before after := by
  by_cases hsame : old = new <;> simp [changesFrom, hsame]

theorem sectionsAfter_cons (before s : Sample) (samples : List Sample) :
    sectionsAfter before (s :: samples) =
      (Section.between? before s).toList ++ sectionsAfter s samples := by
  rw [sectionsAfter, List.zipWith_cons_cons, List.flatMap_cons, sectionsAfter]

def tracesFrom (first : Nat) (signals : List Signal) (values : List Nat) : List Trace :=
  ((signals.zip values).zipIdx first).map fun ((s, v), i) =>
    { id := identifier i, width := s.width, value := v }

theorem declare_eq (signals : List Signal) :
    declare signals = tracesFrom 0 signals (Sample.zero signals).values := by
  have hfrom : ∀ first, (signals.zipIdx first).map (fun (s, i) =>
      ({ id := identifier i, width := s.width, value := 0 } : Trace)) =
        tracesFrom first signals (List.replicate signals.length 0) := by
    induction signals with
    | nil => exact fun _ => rfl
    | cons s signals ih => exact fun first => congrArg (_ :: ·) (ih (first + 1))
  rw [declare, List.mapIdx_eq_zipIdx_map]
  exact hfrom 0

theorem advance_tracesFrom {signals : List Signal} {before after : List Nat}
    (hbefore : before.length = signals.length) (hafter : after.length = signals.length)
    (first : Nat) :
    advance (tracesFrom first signals before) after = tracesFrom first signals after := by
  induction signals generalizing first before after with
  | nil => cases before <;> rfl
  | cons s signals ih =>
    cases before with
    | nil => cases hbefore
    | cons old before =>
      cases after with
      | nil => cases hafter
      | cons new after =>
        exact congrArg (_ :: ·) (ih (Nat.succ.inj hbefore) (Nat.succ.inj hafter) (first + 1))

/-- The value lines of a sample read as its changes. -/
theorem spells_changes {signals : List Signal} {before after : List Nat}
    (hbefore : before.length = signals.length)
    (hafter : List.Forall₂ (fun signal v => v < 2 ^ signal.width) signals after) (first : Nat) :
    List.Forall₂ (fun text line => Spells text [line])
      (changes (tracesFrom first signals before) after)
      ((changesFrom first before after).map .change) := by
  induction hafter generalizing first before with
  | nil =>
    cases before with
    | nil => exact .nil
    | cons old before => cases hbefore
  | @cons s new signals after hfits _ ih =>
    cases before with
    | nil => cases hbefore
    | cons old before =>
      have hrest := ih (Nat.succ.inj hbefore) (first + 1)
      by_cases hsame : old = new
      · have htexts : changes (tracesFrom first (s :: signals) (old :: before)) (new :: after) =
            changes (tracesFrom (first + 1) signals before) after := if_pos hsame
        rwa [htexts, changesFrom_cons, if_pos hsame]
      · have htexts : changes (tracesFrom first (s :: signals) (old :: before)) (new :: after) =
            valueLine s.width new (identifier first) ::
              changes (tracesFrom (first + 1) signals before) after := if_neg hsame
        rw [htexts, changesFrom_cons, if_neg hsame]
        exact .cons (spells_valueLine hfits first) hrest

theorem spells_sampleText {signals : List Signal} {before s : Sample}
    (hbefore : before.values.length = signals.length) (hfits : s.Fits signals) :
    Spells (sampleText (tracesFrom 0 signals before.values) s.time s.values)
      ((Section.between? before s).toList.flatMap Section.lines) := by
  have hlines := spells_changes hbefore hfits 0
  rw [sampleText, Section.between?]
  cases htexts : changes (tracesFrom 0 signals before.values) s.values with
  | nil =>
    rw [htexts, List.forall₂_nil_left_iff, List.map_eq_nil_iff] at hlines
    rw [hlines]
    exact Spells.empty
  | cons text texts =>
    have hsome : changesFrom 0 before.values s.values ≠ [] := by
      intro hnil
      rw [htexts, hnil] at hlines
      cases hlines
    rw [if_neg hsome, Option.toList_some, List.flatMap_singleton, Section.lines]
    rw [htexts] at hlines
    exact (spells_timeLine s.time).append (.join hlines)

theorem spells_sampleTexts {signals : List Signal} {before : Sample} {samples : List Sample}
    (hbefore : before.values.length = signals.length) (hfits : ∀ s ∈ samples, s.Fits signals) :
    Spells (String.join (sampleTexts (tracesFrom 0 signals before.values) samples))
      ((sectionsAfter before samples).flatMap Section.lines) := by
  induction samples generalizing before with
  | nil => exact Spells.empty
  | cons s samples ih =>
    have hfirst := hfits s List.mem_cons_self
    have hlength : s.values.length = signals.length := hfirst.length_eq.symm
    rw [sampleTexts, String.join_cons, sectionsAfter_cons, List.flatMap_append,
      advance_tracesFrom hbefore hlength]
    exact (spells_sampleText hbefore hfirst).append
      (ih hlength fun s hs => hfits s (List.mem_cons_of_mem _ hs))

def headerLines (signals : List Signal) : List Line :=
  [.other, .other] ++ (declared signals).map .declaration ++ [.other, .other, .time 0, .other] ++
    (valuesFrom 0 (Sample.zero signals).values).map .change ++ [.other]

theorem spells_declarations {signals : List Signal}
    (hnames : ∀ s ∈ signals, ' ' ∉ s.name.toList ∧ '\n' ∉ s.name.toList) :
    Spells (String.join (signals.mapIdx declarationLine))
      ((declared signals).map .declaration) := by
  refine .join (List.forall₂_iff_get.mpr ⟨by simp [declared], fun i htext hline => ?_⟩)
  simp only [List.length_mapIdx] at htext
  obtain ⟨hblank, hbreak⟩ := hnames signals[i] (List.getElem_mem htext)
  simpa [declared] using spells_declarationLine hblank hbreak i

theorem spells_zeros (signals : List Signal) :
    Spells (String.join ((declare signals).map fun t => valueLine t.width t.value t.id))
      ((valuesFrom 0 (Sample.zero signals).values).map .change) := by
  refine .join (List.forall₂_iff_get.mpr ⟨?_, fun i htext hline => ?_⟩)
  · simp [declare, valuesFrom, Sample.zero]
  · simpa [declare, valuesFrom, Sample.zero] using spells_valueLine (Nat.two_pow_pos _) i

theorem spells_header {signals : List Signal}
    (hnames : ∀ s ∈ signals, ' ' ∉ s.name.toList ∧ '\n' ∉ s.name.toList) :
    Spells (header signals) (headerLines signals) := by
  have hscope : Spells "$timescale 1ns $end\n$scope module soc $end\n" [.other, .other] :=
    @Spells.ofLines _ [("$timescale 1ns $end", .other), ("$scope module soc $end", .other)] rfl
      (by decide)
  have hstart : Spells "$upscope $end\n$enddefinitions $end\n#0\n$dumpvars\n"
      [.other, .other, .time 0, .other] :=
    @Spells.ofLines _ [("$upscope $end", .other), ("$enddefinitions $end", .other), ("#0", .time 0),
      ("$dumpvars", .other)] rfl (by decide)
  have hend : Spells "$end\n" [.other] := @Spells.ofLines _ [("$end", .other)] rfl (by decide)
  exact (((hscope.append (spells_declarations hnames)).append hstart).append
    (spells_zeros signals)).append hend

section HeaderLines

variable (signals : List Signal) (rest : List Line)

/-- A header in front of other lines, with the brackets moved to the right. -/
private theorem headerLines_append :
    headerLines signals ++ rest =
      .other :: .other :: ((declared signals).map .declaration ++
        (.other :: .other :: .time 0 :: .other ::
          ((valuesFrom 0 (Sample.zero signals).values).map .change ++ .other :: rest))) := by
  simp [headerLines]

theorem changesBefore_header : changesBefore (headerLines signals ++ rest) = [] := by
  rw [headerLines_append]
  exact changesBefore_declarations _ _

theorem sections_header :
    sections (headerLines signals ++ rest) =
      ⟨0, valuesFrom 0 (Sample.zero signals).values ++ changesBefore rest⟩ :: sections rest := by
  rw [headerLines_append]
  refine (sections_declarations _ _).trans ?_
  exact congr (congrArg (fun cs secs => ⟨0, cs⟩ :: secs) (changesBefore_append _ _))
    (sections_changes _ _)

theorem declarations_header :
    declarations (headerLines signals ++ rest) = declared signals ++ declarations rest := by
  rw [headerLines, declarations_append, declarations_append, declarations_append,
    declarations_append, declarations_append, declarations_map, declarations_changes]
  simp [declarations]

end HeaderLines

theorem spells_dump {signals : List Signal} {samples : List Sample}
    (hnames : ∀ s ∈ signals, ' ' ∉ s.name.toList ∧ '\n' ∉ s.name.toList)
    (hfits : ∀ s ∈ samples, s.Fits signals) :
    Spells (dump signals samples)
      (headerLines signals ++
        (sectionsAfter (.zero signals) samples).flatMap Section.lines) := by
  rw [dump, pieces, String.join_cons, declare_eq]
  exact (spells_header hnames).append (spells_sampleTexts List.length_replicate hfits)

/-- What a reader gets out of a dump. -/
theorem read?_dump {signals : List Signal} {samples : List Sample}
    (hnames : ∀ s ∈ signals, ' ' ∉ s.name.toList ∧ '\n' ∉ s.name.toList)
    (hfits : ∀ s ∈ samples, s.Fits signals) :
    read? (dump signals samples) = some
      { declared := declared signals
        sections := { time := 0, changes := valuesFrom 0 (Sample.zero signals).values } ::
          sectionsAfter (.zero signals) samples } := by
  rw [read?, (spells_dump hnames hfits).lines?_eq, List.append_assoc]
  have hnone := changesBefore_header signals
    ((sectionsAfter (.zero signals) samples).flatMap Section.lines ++ [.other])
  rw [Option.filter_some, if_pos (decide_eq_true hnone), Option.map_some, sections_header,
    declarations_header, changesBefore_sections, sections_sections, declarations_sections,
    List.append_nil, List.append_nil]

theorem replay_of_ne {id : String} {cs : List Change} (h : ∀ c ∈ cs, c.id ≠ id)
    (value : Option Nat) : replay id value cs = value := by
  induction cs with
  | nil => rfl
  | cons c cs ih =>
    rw [replay, List.foldl_cons, if_neg (h c List.mem_cons_self)]
    exact ih fun c hc => h c (List.mem_cons_of_mem _ hc)

theorem replay_append (id : String) (value : Option Nat) (cs cs' : List Change) :
    replay id value (cs ++ cs') = replay id (replay id value cs) cs' :=
  List.foldl_append

/-- Changes of signals numbered from `first` leave those below it alone. -/
theorem replay_below {cs : List Change} {first i : Nat} (hi : i < first)
    (h : ∀ c ∈ cs, ∃ j, first ≤ j ∧ c.id = identifier j) (value : Option Nat) :
    replay (identifier i) value cs = value := by
  refine replay_of_ne (fun c hc hid => ?_) value
  obtain ⟨j, hj, hname⟩ := h c hc
  have hij : j = i := identifier_injective (hname.symm.trans hid)
  omega

theorem numbered_changesFrom (first : Nat) (before after : List Nat) :
    ∀ c ∈ changesFrom first before after, ∃ j, first ≤ j ∧ c.id = identifier j := by
  intro c hc
  rw [changesFrom, List.mem_filterMap] at hc
  obtain ⟨⟨⟨old, new⟩, j⟩, hmem, hsome⟩ := hc
  have hj := List.le_snd_of_mem_zipIdx hmem
  simp only [Option.ite_none_left_eq_some, Option.some.injEq] at hsome
  exact ⟨j, hj, congrArg Change.id hsome.2.symm⟩

theorem numbered_valuesFrom (first : Nat) (values : List Nat) :
    ∀ c ∈ valuesFrom first values, ∃ j, first ≤ j ∧ c.id = identifier j := by
  intro c hc
  rw [valuesFrom, List.mem_map] at hc
  obtain ⟨⟨v, j⟩, hmem, rfl⟩ := hc
  exact ⟨j, List.le_snd_of_mem_zipIdx hmem, rfl⟩

theorem replay_single (i j : Nat) (value : Option Nat) (v : Nat) :
    replay (identifier i) value [⟨identifier j, v⟩] = if j = i then some v else value := by
  simp only [replay, List.foldl_cons, List.foldl_nil, identifier_injective.eq_iff]

/-- Playing changes back takes each signal from its value before them to its value after them. -/
theorem replay_changesFrom {before after : List Nat} (hlength : before.length = after.length)
    (first i : Nat) :
    replay (identifier (first + i)) before[i]? (changesFrom first before after) = after[i]? := by
  induction after generalizing before first i with
  | nil =>
    rw [List.length_nil, List.length_eq_zero_iff] at hlength
    rw [hlength, changesFrom_nil]
    rfl
  | cons new after ih =>
    cases before with
    | nil => cases hlength
    | cons old before =>
      rw [changesFrom_cons, replay_append]
      cases i with
      | zero =>
        -- The first signal: the changes of the others come later and leave it alone.
        rw [Nat.add_zero, replay_below (Nat.lt_succ_self first) (numbered_changesFrom _ _ _)]
        by_cases hsame : old = new
        · rw [if_pos hsame, hsame]
          rfl
        · rw [if_neg hsame, replay_single, if_pos rfl]
          rfl
      | succ i =>
        have hother : replay (identifier (first + (i + 1))) before[i]?
            (if old = new then [] else [⟨identifier first, new⟩]) = before[i]? := by
          split
          · rfl
          · rw [replay_single, if_neg (by omega)]
        rw [List.getElem?_cons_succ, List.getElem?_cons_succ, hother, Nat.add_comm i,
          ← Nat.add_assoc]
        exact ih (Nat.succ.inj hlength) (first + 1) i

theorem replay_valuesFrom (values : List Nat) (first i : Nat) :
    replay (identifier (first + i)) none (valuesFrom first values) = values[i]? := by
  induction values generalizing first i with
  | nil => rfl
  | cons v values ih =>
    have hsplit : valuesFrom first (v :: values) =
        [⟨identifier first, v⟩] ++ valuesFrom (first + 1) values := rfl
    rw [hsplit, replay_append, replay_single]
    cases i with
    | zero =>
      rw [if_pos (Nat.add_zero first).symm]
      exact replay_below (Nat.lt_succ_self first) (numbered_valuesFrom _ _) (some v)
    | succ i =>
      rw [if_neg (by omega), List.getElem?_cons_succ, Nat.add_comm i, ← Nat.add_assoc]
      exact ih (first + 1) i

/-- Playing back what a sample says takes each signal to its sampled value. -/
theorem replay_between? {before after : Sample}
    (hlength : before.values.length = after.values.length) (i : Nat) :
    replay (identifier i) before.values[i]?
      ((Section.between? before after).toList.flatMap (·.changes)) = after.values[i]? := by
  have hreplay := replay_changesFrom hlength 0 i
  rw [Nat.zero_add] at hreplay
  rw [Section.between?]
  split
  · rename_i hnone
    rwa [hnone] at hreplay
  · rwa [Option.toList_some, List.flatMap_singleton]

theorem time_of_mem_between? {before after : Sample} {s : Section}
    (h : s ∈ (Section.between? before after).toList) : s.time = after.time := by
  rw [Option.mem_toList, Section.between?] at h
  split at h
  · cases h
  · cases h
    rfl

theorem time_of_mem_sectionsAfter {before : Sample} {samples : List Sample} {s : Section}
    (h : s ∈ sectionsAfter before samples) : ∃ sample ∈ samples, s.time = sample.time := by
  induction samples generalizing before with
  | nil => cases h
  | cons sample samples ih =>
    rw [sectionsAfter_cons, List.mem_append] at h
    rcases h with h | h
    · exact ⟨sample, List.mem_cons_self, time_of_mem_between? h⟩
    · obtain ⟨later, hmem, htime⟩ := ih h
      exact ⟨later, List.mem_cons_of_mem _ hmem, htime⟩

/-- Playing back up to the time of a sample takes each signal to its value in it. -/
theorem replay_sectionsAfter {before : Sample} {samples : List Sample}
    (hlength : ∀ s ∈ samples, s.values.length = before.values.length)
    (htimes : (samples.map (·.time)).Pairwise (· < ·)) {s : Sample} (hs : s ∈ samples) (i : Nat) :
    replay (identifier i) before.values[i]?
      (((sectionsAfter before samples).filter (·.time ≤ s.time)).flatMap (·.changes)) =
        s.values[i]? := by
  induction samples generalizing before with
  | nil => cases hs
  | cons first samples ih =>
    rw [List.map_cons, List.pairwise_cons] at htimes
    have hfirst := hlength first List.mem_cons_self
    have hlater : ∀ later ∈ samples, first.time < later.time := fun later hmem =>
      htimes.1 _ (List.mem_map_of_mem hmem)
    have hle : first.time ≤ s.time := by
      rcases List.mem_cons.mp hs with rfl | hs
      · exact le_rfl
      · exact (hlater s hs).le
    have hkept : (Section.between? before first).toList.filter (·.time ≤ s.time) =
        (Section.between? before first).toList :=
      List.filter_eq_self.mpr fun sec hsec =>
        decide_eq_true ((time_of_mem_between? hsec).trans_le hle)
    rw [sectionsAfter_cons, List.filter_append, hkept, List.flatMap_append, replay_append,
      replay_between? hfirst.symm]
    rcases List.mem_cons.mp hs with rfl | hs
    · -- What later samples say lies after the time of this one.
      have hnone : (sectionsAfter s samples).filter (·.time ≤ s.time) = [] := by
        refine List.filter_eq_nil_iff.mpr fun sec hsec => ?_
        obtain ⟨later, hmem, htime⟩ := time_of_mem_sectionsAfter hsec
        rw [decide_eq_true_iff, htime, Nat.not_le]
        exact hlater later hmem
      rw [hnone]
      rfl
    · exact ih (fun later hmem =>
        (hlength later (List.mem_cons_of_mem _ hmem)).trans hfirst.symm) htimes.2 hs

/-- The text reads as the samples: as a declaration of the signals under different identifiers, all
zero, and then the samples that bring changes, each with its time and just the changes. Played back,
it gives each signal the value it has in each sample. -/
def ReadsAs (text : String) (signals : List Signal) (samples : List Sample) : Prop :=
  ∃ d, read? text = some d ∧
    d.declared = declared signals ∧ (d.declared.map (·.id)).Nodup ∧
    d.sections = { time := 0, changes := valuesFrom 0 (Sample.zero signals).values } ::
      sectionsAfter (.zero signals) samples ∧
    ∀ s ∈ samples, ∀ (i : Nat) (declaration : Declaration), d.declared[i]? = some declaration →
      d.valueAt declaration.id s.time = s.values[i]?

theorem readsAs_dump {signals : List Signal} {samples : List Sample}
    (hnames : ∀ s ∈ signals, ' ' ∉ s.name.toList ∧ '\n' ∉ s.name.toList)
    (hfits : ∀ s ∈ samples, s.Fits signals)
    (htimes : (samples.map (·.time)).Pairwise (· < ·)) :
    ReadsAs (dump signals samples) signals samples := by
  refine ⟨_, read?_dump hnames hfits, rfl, ?_, rfl, fun s hs i declaration hdeclared => ?_⟩
  · have hids : (declared signals).map (·.id) = (List.range signals.length).map identifier := by
      refine List.ext_getElem (by simp [declared]) fun i hi _ => ?_
      simp [declared]
    rw [hids]
    exact List.nodup_range.map identifier_injective
  · have hid : declaration.id = identifier i := by
      simp only [declared, List.getElem?_mapIdx, Option.map_eq_some_iff] at hdeclared
      obtain ⟨signal, -, rfl⟩ := hdeclared
      rfl
    have hzero := replay_valuesFrom (Sample.zero signals).values 0 i
    rw [Nat.zero_add] at hzero
    have hlength : ∀ s ∈ samples, s.values.length = (Sample.zero signals).values.length :=
      fun s hs => (hfits s hs).length_eq.symm.trans List.length_replicate.symm
    have hkept : ∀ (sec : Section) (secs : List Section), sec.time = 0 →
        (sec :: secs).filter (·.time ≤ s.time) = sec :: secs.filter (·.time ≤ s.time) :=
      fun sec secs htime => List.filter_cons_of_pos (by simp [htime])
    rw [hid, Dump.valueAt, hkept _ _ rfl, List.flatMap_cons, replay_append, hzero]
    exact replay_sectionsAfter hlength htimes hs i

namespace Tracer

def feed (t : Tracer) (samples : List Sample) : Tracer :=
  samples.foldl (fun t s => t.sample s.time s.values) t

/-- Finishing leaves the dump of all samples in a sink without a limit. -/
theorem finish_feed {path : String} {signals : List Signal} {start : Tracer}
    (hstart : start? path (.empty none) signals = some start) (samples : List Sample) :
    (start.feed samples).finish.1.sink.contents = dump signals samples := by
  have hfeed : start.feed samples = (samples.map .sample).foldl answer start := by
    rw [feed, List.foldl_map]
    rfl
  have hsamples : samplesOf (samples.map .sample) = samples := by
    rw [samplesOf, List.filterMap_map]
    exact List.filterMap_some
  have hsound := (sound_start hstart).foldl (samples.map .sample)
  rw [List.nil_append, hsamples] at hsound
  rw [hfeed]
  exact hsound.finish_recording (recording_foldl (recording_start? rfl hstart) (by simp))

theorem start?_unlimited (path : String) (signals : List Signal) :
    ∃ start, start? path (.empty none) signals = some start := by
  have hunlimited : (BufferedSink.ofSink (.empty none)).Unlimited := rfl
  obtain ⟨out, hwrite, -⟩ := hunlimited.write (header signals)
  rw [start?, hwrite]
  exact ⟨_, rfl⟩

end Tracer

end RiscvSoc.Waveform
