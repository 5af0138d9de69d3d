import RiscvSoc.Proofs.Machine.Recording

/-! A dump in its pieces: the header, and the text of each sample. A piece goes whole to the sink or
to the buffer in front of it, and the buffer goes whole to the sink. A sink that refuses a write
therefore holds the first pieces and never a part of one, and finishing says whether it holds them
all. -/

namespace RiscvSoc.Waveform

/-- Values for the traced signals at a time. -/
structure Sample where
  time : Nat
  values : List Nat
  deriving DecidableEq

def sampleTexts : List Trace → List Sample → List String
  | _, [] => []
  | traces, s :: samples =>
    sampleText traces s.time s.values :: sampleTexts (advance traces s.values) samples

/-- The header of a dump and the text of each sample. -/
def pieces (signals : List Signal) (samples : List Sample) : List String :=
  header signals :: sampleTexts (declare signals) samples

def dump (signals : List Signal) (samples : List Sample) : String :=
  String.join (pieces signals samples)

def advanceAll (traces : List Trace) (samples : List Sample) : List Trace :=
  samples.foldl (fun traces s => advance traces s.values) traces

theorem sampleTexts_concat (traces : List Trace) (samples : List Sample) (s : Sample) :
    sampleTexts traces (samples ++ [s]) =
      sampleTexts traces samples ++ [sampleText (advanceAll traces samples) s.time s.values] := by
  induction samples generalizing traces with
  | nil => rfl
  | cons first samples ih =>
    rw [List.cons_append, sampleTexts, ih, sampleTexts, List.cons_append]
    rfl

theorem pieces_concat (signals : List Signal) (samples : List Sample) (s : Sample) :
    pieces signals (samples ++ [s]) =
      pieces signals samples ++
        [sampleText (advanceAll (declare signals) samples) s.time s.values] := by
  rw [pieces, sampleTexts_concat]
  rfl

theorem advance_of_changes_eq_nil {traces : List Trace} {values : List Nat}
    (h : changes traces values = []) : advance traces values = traces := by
  induction traces generalizing values with
  | nil => rfl
  | cons t traces ih =>
    cases values with
    | nil => rfl
    | cons v values =>
      rw [changes] at h
      split at h
      · rename_i hsame
        rw [advance, ih h, ← hsame]
      · exact absurd h (List.cons_ne_nil _ _)

theorem sampleText_eq_empty_iff {traces : List Trace} {time : Nat} {values : List Nat} :
    sampleText traces time values = "" ↔ changes traces values = [] := by
  rw [sampleText]
  cases changes traces values with
  | nil => simp
  | cons line lines => simp [timeLine]

namespace BufferedSink

variable {b b' : BufferedSink} {ps : List String} {chunk : String}

/-- The first of the pieces are in the sink, and the others wait in the buffer. -/
def Holds (ps : List String) (b : BufferedSink) : Prop :=
  ∃ before after, ps = before ++ after ∧ b.sink.contents = String.join before ∧
    b.buffer = String.join after

/-- With nothing in the buffer, the sink holds all pieces. -/
theorem Holds.contents_eq (h : b.Holds ps) (hbuffer : b.buffer = "") :
    b.sink.contents = String.join ps := by
  obtain ⟨before, after, rfl, hsink, hafter⟩ := h
  rw [String.join_append, ← hafter, hbuffer, String.append_empty, hsink]

theorem Holds.sink (h : b.Holds ps) :
    ∃ before, before <+: ps ∧ b.sink.contents = String.join before := by
  obtain ⟨before, after, rfl, hsink, -⟩ := h
  exact ⟨before, List.prefix_append before after, hsink⟩

theorem Holds.concat_empty (h : b.Holds ps) : b.Holds (ps ++ [""]) := by
  obtain ⟨before, after, rfl, hsink, hbuffer⟩ := h
  refine ⟨before, after ++ [""], List.append_assoc _ _ _, hsink, ?_⟩
  rw [String.join_append, hbuffer]
  simp

/-- A buffer is handed over whole, or kept with something in it. -/
theorem Holds.flush (h : b.Holds ps) :
    (∃ b', b.flush = (b', true) ∧ b'.buffer = "" ∧ b'.Holds ps) ∨
      (b.flush = (b, false) ∧ b.buffer ≠ "") := by
  rw [BufferedSink.flush]
  by_cases hempty : b.buffer = ""
  · rw [if_pos (String.isEmpty_iff.mpr hempty)]
    exact .inl ⟨b, rfl, hempty, h⟩
  · rw [if_neg (mt String.isEmpty_iff.mp hempty), Sink.write?]
    by_cases haccepts : b.sink.accepts b.buffer = true
    · rw [if_pos haccepts]
      obtain ⟨before, after, hps, hsink, hbuffer⟩ := h
      refine .inl ⟨_, rfl, rfl, ps, [], (List.append_nil ps).symm, ?_, rfl⟩
      rw [hps, String.join_append, ← hsink, ← hbuffer]
    · rw [if_neg haccepts]
      exact .inr ⟨rfl, hempty⟩

/-- A chunk that finds room in the buffer, or an empty one in front of it, is taken whole, or refused
with nothing in the buffer. -/
private theorem Holds.store (h : b.Holds ps)
    (hroom : chunk.utf8ByteSize < bufferCapacity ∨ b.buffer = "") :
    (∃ b', b.store chunk = (b', true) ∧ b'.Holds (ps ++ [chunk])) ∨
      (b.store chunk = (b, false) ∧ b.buffer = "") := by
  rw [BufferedSink.store]
  split
  · obtain ⟨before, after, rfl, hsink, hbuffer⟩ := h
    refine .inl ⟨_, rfl, before, after ++ [chunk], List.append_assoc _ _ _, hsink, ?_⟩
    rw [String.join_append, ← hbuffer]
    simp
  · rename_i hlarge
    have hempty : b.buffer = "" := hroom.resolve_left hlarge
    rw [Sink.write?]
    by_cases haccepts : b.sink.accepts chunk = true
    · rw [if_pos haccepts]
      refine .inl ⟨_, rfl, ps ++ [chunk], [], (List.append_nil _).symm, ?_, hempty⟩
      rw [String.join_append, ← h.contents_eq hempty]
      simp
    · rw [if_neg haccepts]
      exact .inr ⟨rfl, hempty⟩

theorem release_of_buffer_eq_empty (h : b.buffer = "") : b.release = b.sink := by
  rw [release, BufferedSink.flush, if_pos (String.isEmpty_iff.mpr h)]

/-- A write is taken whole. If it is refused, giving the buffer up adds nothing to the sink. -/
theorem Holds.write (h : b.Holds ps) (chunk : String) :
    ∃ b', (b.write chunk = (b', true) ∧ b'.Holds (ps ++ [chunk])) ∨
      (b.write chunk = (b', false) ∧ b'.Holds ps ∧ b'.release = b'.sink) := by
  rw [BufferedSink.write]
  split
  · rename_i hfits
    have hroom : chunk.utf8ByteSize < bufferCapacity ∨ b.buffer = "" := by
      rw [← String.utf8ByteSize_eq_zero_iff]
      omega
    rcases h.store hroom with ⟨b', hstore, hholds⟩ | ⟨hstore, hempty⟩
    · exact ⟨b', .inl ⟨hstore, hholds⟩⟩
    · exact ⟨b, .inr ⟨hstore, h, release_of_buffer_eq_empty hempty⟩⟩
  · rcases h.flush with ⟨flushed, hflush, hempty, hheld⟩ | ⟨hflush, -⟩
    · rw [hflush]
      rcases hheld.store (.inr hempty) with ⟨b', hstore, hholds⟩ | ⟨hstore, -⟩
      · exact ⟨b', .inl ⟨hstore, hholds⟩⟩
      · exact ⟨flushed, .inr ⟨hstore, hheld, release_of_buffer_eq_empty hempty⟩⟩
    · rw [hflush]
      refine ⟨b, .inr ⟨rfl, h, ?_⟩⟩
      rw [release, hflush]

/-- Whatever becomes of the buffer, the sink holds the first of the pieces. -/
theorem Holds.release (h : b.Holds ps) :
    ∃ before, before <+: ps ∧ b.release.contents = String.join before := by
  rw [BufferedSink.release]
  rcases h.flush with ⟨b', hflush, hempty, hheld⟩ | ⟨hflush, -⟩
  · rw [hflush]
    exact ⟨ps, List.prefix_refl ps, hheld.contents_eq hempty⟩
  · rw [hflush]
    exact h.sink

end BufferedSink

namespace Progress

def sink : Progress → Sink
  | .active out => out.sink
  | .failed sink => sink
  | .closed sink => sink

/-- The pieces are where they belong. After a failure some of them are missing. -/
def Keeps (ps : List String) : Progress → Prop
  | .active out => out.Holds ps
  | .failed sink => ∃ before after, ps = before ++ after ∧ sink.contents = String.join before ∧
      String.join after ≠ ""
  | .closed sink => ∃ before, before <+: ps ∧ sink.contents = String.join before

theorem Keeps.sink {p : Progress} {ps : List String} (h : p.Keeps ps) :
    ∃ before, before <+: ps ∧ p.sink.contents = String.join before := by
  cases p with
  | active out => exact BufferedSink.Holds.sink h
  | failed sink =>
    obtain ⟨before, after, rfl, hsink, -⟩ := h
    exact ⟨before, List.prefix_append before after, hsink⟩
  | closed sink => exact h

/-- Further pieces never reach a tracer that has failed or been closed. -/
theorem Keeps.concat {p : Progress} {ps : List String} (h : p.Keeps ps)
    (hactive : ∀ out, p ≠ .active out) (piece : String) : p.Keeps (ps ++ [piece]) := by
  cases p with
  | active out => exact absurd rfl (hactive out)
  | failed sink =>
    obtain ⟨before, after, rfl, hsink, hafter⟩ := h
    refine ⟨before, after ++ [piece], List.append_assoc _ _ _, hsink, ?_⟩
    simp [String.join_append, hafter]
  | closed sink =>
    obtain ⟨before, hprefix, hsink⟩ := h
    exact ⟨before, hprefix.trans (List.prefix_append ps [piece]), hsink⟩

end Progress

namespace Tracer

inductive Request where
  | sample (s : Sample)
  | finish

def answer (t : Tracer) : Request → Tracer
  | .sample s => t.sample s.time s.values
  | .finish => t.finish.1

def samplesOf (requests : List Request) : List Sample :=
  requests.filterMap fun
    | .sample s => some s
    | .finish => none

def isClosed (t : Tracer) : Bool :=
  match t.progress with
  | .closed _ => true
  | _ => false

/-- What the sink holds at a moment. -/
def sink (t : Tracer) : Sink :=
  t.progress.sink

/-- The write of the sample is refused, and `left` is what it leaves of sink and buffer. -/
def Refuses (t : Tracer) (s : Sample) (left : BufferedSink) : Prop :=
  ∃ out, t.progress = .active out ∧ sampleText t.traces s.time s.values ≠ "" ∧
    out.write (sampleText t.traces s.time s.values) = (left, false)

/-- Nothing that is asked of the tracer any more, nor giving it up, changes what the sink holds. -/
def Silent (t : Tracer) : Prop :=
  ∀ requests : List Request,
    (requests.foldl answer t).sink = t.sink ∧ (requests.foldl answer t).release = t.sink

/-- The tracer has been given the samples, and their pieces are where they belong. -/
structure Sound (path : String) (signals : List Signal) (samples : List Sample) (t : Tracer) :
    Prop where
  path : t.path = path
  traces : t.isActive = true → t.traces = advanceAll (declare signals) samples
  progress : t.progress.Keeps (pieces signals samples)

variable {path : String} {signals : List Signal} {samples : List Sample} {t : Tracer}
  {out out' : BufferedSink} {time : Nat} {values : List Nat}

theorem isActive_iff : t.isActive = true ↔ ∃ out, t.progress = .active out := by
  rw [isActive]
  cases t.progress <;> simp

theorem isClosed_iff : t.isClosed = true ↔ ∃ sink, t.progress = .closed sink := by
  rw [isClosed]
  cases t.progress <;> simp

theorem sample_of_empty (h : t.progress = .active out)
    (htext : sampleText t.traces time values = "") : t.sample time values = t := by
  obtain ⟨path, traces, progress⟩ := t
  cases h
  rw [Tracer.sample, if_pos (String.isEmpty_iff.mpr htext)]

theorem sample_of_taken (h : t.progress = .active out) (htext : sampleText t.traces time values ≠ "")
    (hwrite : out.write (sampleText t.traces time values) = (out', true)) :
    t.sample time values =
      { t with traces := advance t.traces values, progress := .active out' } := by
  obtain ⟨path, traces, progress⟩ := t
  cases h
  rw [Tracer.sample, if_neg (mt String.isEmpty_iff.mp htext)]
  simp only [hwrite]

theorem sample_of_refused (h : t.progress = .active out)
    (htext : sampleText t.traces time values ≠ "")
    (hwrite : out.write (sampleText t.traces time values) = (out', false)) :
    t.sample time values = { t with progress := .failed out'.release } := by
  obtain ⟨path, traces, progress⟩ := t
  cases h
  rw [Tracer.sample, if_neg (mt String.isEmpty_iff.mp htext)]
  simp only [hwrite]

theorem sample_of_not_active (h : t.isActive = false) : t.sample time values = t := by
  obtain ⟨path, traces, progress⟩ := t
  cases progress with
  | active out => cases h
  | failed sink => rfl
  | closed sink => rfl

theorem finish_of_handed (h : t.progress = .active out) (hflush : out.flush = (out', true)) :
    t.finish = ({ t with progress := .closed out'.sink }, .ok ()) := by
  rw [finish, h]
  simp only [hflush]

theorem finish_of_kept (h : t.progress = .active out) (hflush : out.flush = (out, false)) :
    t.finish = ({ t with progress := .closed out.sink }, .error t.refused) := by
  rw [finish, h]
  simp only [hflush, BufferedSink.release]

theorem finish_of_failed {sink : Sink} (h : t.progress = .failed sink) :
    t.finish = ({ t with progress := .closed sink }, .error t.refused) := by
  rw [finish, h]

theorem finish_of_closed {sink : Sink} (h : t.progress = .closed sink) : t.finish = (t, .ok ()) := by
  rw [finish, h]

theorem Sound.holds (h : Sound path signals samples t) (hprogress : t.progress = .active out) :
    out.Holds (pieces signals samples) := by
  have hkeeps := h.progress
  rwa [hprogress] at hkeeps

theorem sound_start {limit : Option Nat} (h : start? path (.empty limit) signals = some t) :
    Sound path signals [] t := by
  have hempty : (BufferedSink.ofSink (.empty limit)).Holds [] := ⟨[], [], rfl, rfl, rfl⟩
  obtain ⟨out, ⟨hwrite, hholds⟩ | ⟨hwrite, -, -⟩⟩ := hempty.write (header signals)
  · rw [start?, hwrite] at h
    cases h
    exact ⟨rfl, fun _ => rfl, hholds⟩
  · rw [start?, hwrite] at h
    cases h

/-- A sample that is taken comes to the end of the pieces, and one that is refused stays away. -/
theorem Sound.sample (h : Sound path signals samples t) (s : Sample) :
    Sound path signals (samples ++ [s]) (t.sample s.time s.values) := by
  cases hactive : t.isActive with
  | false =>
    rw [sample_of_not_active hactive]
    refine ⟨h.path, fun htrue => absurd (hactive.symm.trans htrue) Bool.false_ne_true, ?_⟩
    rw [pieces_concat]
    refine h.progress.concat (fun out hout => ?_) _
    exact Bool.false_ne_true (hactive.symm.trans (isActive_iff.mpr ⟨out, hout⟩))
  | true =>
    obtain ⟨out, hprogress⟩ := isActive_iff.mp hactive
    have hholds := h.holds hprogress
    have htraces := h.traces hactive
    have hpieces := pieces_concat signals samples s
    have htraced : advance t.traces s.values = advanceAll (declare signals) (samples ++ [s]) := by
      rw [advanceAll, List.foldl_concat, htraces, advanceAll]
    rw [← htraces] at hpieces
    by_cases htext : sampleText t.traces s.time s.values = ""
    · -- The piece of a sample without changes is empty: holding it is holding the ones before it.
      rw [sample_of_empty hprogress htext]
      refine ⟨h.path, fun _ => ?_, ?_⟩
      · rw [← htraced, advance_of_changes_eq_nil (sampleText_eq_empty_iff.mp htext)]
      · rw [hprogress, hpieces, htext]
        exact hholds.concat_empty
    · obtain ⟨out', ⟨hwrite, hheld⟩ | ⟨hwrite, hheld, hrelease⟩⟩ :=
        hholds.write (sampleText t.traces s.time s.values)
      · rw [sample_of_taken hprogress htext hwrite]
        exact ⟨h.path, fun _ => htraced, hpieces ▸ hheld⟩
      · rw [sample_of_refused hprogress htext hwrite]
        obtain ⟨before, after, hsplit, hsink, -⟩ := hheld
        refine ⟨h.path, fun htrue => absurd htrue Bool.false_ne_true, before,
          after ++ [sampleText t.traces s.time s.values], ?_, ?_, ?_⟩
        · rw [hpieces, hsplit, List.append_assoc]
        · rw [hrelease, hsink]
        · simp [String.join_append, htext]

/-- Whoever lacks some text of the last pieces lacks some of the dump. -/
private theorem join_ne_dump {before after : List String}
    (hsplit : pieces signals samples = before ++ after) (hafter : String.join after ≠ "") :
    String.join before ≠ dump signals samples := by
  intro hall
  rw [dump, hsplit, String.join_append] at hall
  have hlength := congrArg String.length hall
  rw [String.length_append] at hlength
  have hzero : (String.join after).length = 0 := by omega
  exact hafter (String.length_eq_zero_iff.mp hzero)

private theorem Sound.closed (h : Sound path signals samples t) {sink : Sink}
    (hsink : ∃ before, before <+: pieces signals samples ∧ sink.contents = String.join before) :
    Sound path signals samples { t with progress := .closed sink } :=
  ⟨h.path, nofun, hsink⟩

/-- Whether finishing succeeds tells whether the sink holds all pieces. If not, it adds nothing. -/
private theorem Sound.finish (h : Sound path signals samples t) (hopen : t.isClosed = false) :
    Sound path signals samples t.finish.1 ∧
      (t.finish.2 = .ok () ∧ t.finish.1.sink.contents = dump signals samples ∨
        t.finish.2 = .error t.refused ∧ t.finish.1.sink = t.sink ∧
          t.sink.contents ≠ dump signals samples) := by
  cases hprogress : t.progress with
  | active out =>
    have hholds := h.holds hprogress
    rcases hholds.flush with ⟨out', hflush, hempty, hheld⟩ | ⟨hflush, hkept⟩
    · rw [finish_of_handed hprogress hflush]
      exact ⟨h.closed hheld.sink, .inl ⟨rfl, hheld.contents_eq hempty⟩⟩
    · rw [finish_of_kept hprogress hflush, Tracer.sink, Tracer.sink, hprogress]
      refine ⟨h.closed hholds.sink, .inr ⟨rfl, rfl, ?_⟩⟩
      obtain ⟨before, after, hsplit, hbefore, hbuffer⟩ := hholds
      exact hbefore ▸ join_ne_dump hsplit (hbuffer ▸ hkept)
  | failed sink =>
    have hkeeps := h.progress
    rw [hprogress] at hkeeps
    rw [finish_of_failed hprogress, Tracer.sink, Tracer.sink, hprogress]
    refine ⟨h.closed hkeeps.sink, .inr ⟨rfl, rfl, ?_⟩⟩
    obtain ⟨before, after, hsplit, hbefore, hafter⟩ := hkeeps
    exact hbefore ▸ join_ne_dump hsplit hafter
  | closed sink =>
    rw [isClosed, hprogress] at hopen
    cases hopen

theorem Sound.answer (h : Sound path signals samples t) (r : Request) :
    Sound path signals (samples ++ samplesOf [r]) (t.answer r) := by
  cases r with
  | sample s => exact h.sample s
  | finish =>
    show Sound path signals (samples ++ []) t.finish.1
    rw [List.append_nil]
    cases hclosed : t.isClosed with
    | true =>
      obtain ⟨sink, hsink⟩ := isClosed_iff.mp hclosed
      rw [finish_of_closed hsink]
      exact h
    | false => exact (h.finish hclosed).1

theorem Sound.foldl (h : Sound path signals samples t) (requests : List Request) :
    Sound path signals (samples ++ samplesOf requests) (requests.foldl Tracer.answer t) := by
  induction requests generalizing samples t with
  | nil => exact (List.append_nil samples).symm ▸ h
  | cons r requests ih =>
    have hsplit : samplesOf (r :: requests) = samplesOf [r] ++ samplesOf requests :=
      List.filterMap_append (l := [r])
    rw [hsplit, ← List.append_assoc]
    exact ih (h.answer r)

theorem release_of_not_active (h : t.isActive = false) : t.release = t.sink := by
  obtain ⟨path, traces, progress⟩ := t
  cases progress with
  | active out => cases h
  | failed sink => rfl
  | closed sink => rfl

theorem Sound.release (h : Sound path signals samples t) :
    ∃ before, before <+: pieces signals samples ∧ t.release.contents = String.join before := by
  cases hactive : t.isActive with
  | false =>
    rw [release_of_not_active hactive]
    exact h.progress.sink
  | true =>
    obtain ⟨out, hprogress⟩ := isActive_iff.mp hactive
    rw [Tracer.release, hprogress]
    exact (h.holds hprogress).release

theorem silent_of_not_active (h : t.isActive = false) : t.Silent := by
  intro requests
  induction requests generalizing t with
  | nil => exact ⟨rfl, release_of_not_active h⟩
  | cons r requests ih =>
    have hanswer : (t.answer r).isActive = false ∧ (t.answer r).sink = t.sink := by
      cases r with
      | sample s =>
        rw [answer, sample_of_not_active h]
        exact ⟨h, rfl⟩
      | finish =>
        obtain ⟨path, traces, progress⟩ := t
        cases progress with
        | active out => cases h
        | failed sink => exact ⟨rfl, rfl⟩
        | closed sink => exact ⟨rfl, rfl⟩
    rw [List.foldl_cons, ← hanswer.2]
    exact ih hanswer.1

theorem isClosed_start? {sink : Sink} (h : start? path sink signals = some t) :
    t.isClosed = false := by
  rw [start?] at h
  split at h
  · cases h
    rfl
  · cases h

theorem isClosed_sample : (t.sample time values).isClosed = t.isClosed := by
  obtain ⟨path, traces, progress⟩ := t
  cases progress with
  | active out =>
    simp only [Tracer.sample]
    split
    · rfl
    · split <;> rfl
  | failed sink => rfl
  | closed sink => rfl

theorem isClosed_finish : t.finish.1.isClosed = true := by
  rw [Tracer.finish]
  split
  · split <;> rfl
  · rfl
  · rename_i hclosed
    rw [isClosed, hclosed]

/-- Only finishing closes a tracer, and it stays closed. -/
theorem isClosed_foldl (requests : List Request) :
    (requests.foldl answer t).isClosed = true ↔ t.isClosed = true ∨ .finish ∈ requests := by
  induction requests generalizing t with
  | nil => simp
  | cons r requests ih =>
    rw [List.foldl_cons, ih, List.mem_cons]
    cases r with
    | sample s => simp [answer, isClosed_sample]
    | finish => simp [answer, isClosed_finish]

theorem Sound.finish_recording (h : Sound path signals samples t)
    (hrecording : t.Recording) : t.finish.1.sink.contents = dump signals samples := by
  have hok := hrecording.finish
  obtain ⟨out, hprogress, -⟩ := hrecording
  have hopen : t.isClosed = false := by rw [isClosed, hprogress]
  obtain ⟨-, ⟨-, hall⟩ | ⟨herror, -⟩⟩ := h.finish hopen
  · exact hall
  · cases hok.symm.trans herror

theorem recording_foldl (h : t.Recording) {requests : List Request} (hopen : .finish ∉ requests) :
    (requests.foldl answer t).Recording := by
  induction requests generalizing t with
  | nil => exact h
  | cons r requests ih =>
    rw [List.mem_cons, not_or] at hopen
    cases r with
    | sample s => exact ih (h.sample s.time s.values) hopen.2
    | finish => exact absurd rfl hopen.1

/-- At every moment the sink holds the first pieces of the dump that an unlimited sink would get,
also while a write is going on and when the tracer is given up. The first attempt to finish succeeds
exactly when the sink then holds the dump of all samples, and the next ones always do. Nothing comes
after a refused write, nor after an attempt to finish. -/
theorem sink_holds_pieces (path : String) (limit : Option Nat) (signals : List Signal)
    (start : Tracer) (hstart : start? path (.empty limit) signals = some start)
    (requests : List Request) :
    let t := requests.foldl answer start
    let samples := samplesOf requests
    (∃ before, before <+: pieces signals samples ∧ t.sink.contents = String.join before) ∧
    (∃ before, before <+: pieces signals samples ∧ t.release.contents = String.join before) ∧
    (.finish ∉ requests →
      (t.finish.2 = .ok () ↔ t.finish.1.sink.contents = dump signals samples) ∧
      (t.finish.2 = .ok () ∨ t.finish.2 = .error (.file path "write refused") ∧
        t.finish.1.sink = t.sink) ∧
      (limit = none → t.finish.1.sink.contents = dump signals samples)) ∧
    (.finish ∈ requests → t.finish.2 = .ok () ∧ t.Silent) ∧
    (∀ s left, t.Refuses s left →
      (t.sample s.time s.values).sink = left.sink ∧ (t.sample s.time s.values).Silent) := by
  intro t samples
  have hsound : Sound path signals samples t := (sound_start hstart).foldl requests
  have hclosed : t.isClosed = true ↔ .finish ∈ requests := by
    rw [isClosed_foldl, isClosed_start? hstart]
    simp
  refine ⟨hsound.progress.sink, hsound.release, fun hopen => ?_, fun hmem => ?_, ?_⟩
  · have hrefused : t.refused = .file path "write refused" := by rw [refused, hsound.path]
    obtain ⟨-, ⟨hok, hall⟩ | ⟨herror, hsame, hpart⟩⟩ :=
      hsound.finish (Bool.not_eq_true _ ▸ mt hclosed.mp hopen)
    · exact ⟨iff_of_true hok hall, .inl hok, fun _ => hall⟩
    · refine ⟨?_, .inr ⟨hrefused ▸ herror, hsame⟩, ?_⟩
      · rw [herror, hsame]
        exact iff_of_false nofun hpart
      · rintro rfl
        exact hsound.finish_recording (recording_foldl (recording_start? rfl hstart) hopen)
  · obtain ⟨sink, hsink⟩ := isClosed_iff.mp (hclosed.mpr hmem)
    have hinactive : t.isActive = false := by rw [isActive, hsink]
    exact ⟨congrArg Prod.snd (finish_of_closed hsink), silent_of_not_active hinactive⟩
  · rintro s left ⟨out, hprogress, htext, hwrite⟩
    rw [sample_of_refused hprogress htext hwrite]
    refine ⟨?_, silent_of_not_active rfl⟩
    obtain ⟨out', ⟨htaken, -⟩ | ⟨hkept, -, hrelease⟩⟩ :=
      (hsound.holds hprogress).write (sampleText t.traces s.time s.values)
    · cases hwrite.symm.trans htaken
    · cases hwrite.symm.trans hkept
      exact hrelease

/-- A sink without room for the buffer stays empty. The first attempt to finish tells so, and the
second succeeds. -/
theorem refused_buffer_is_reported :
    ∃ start, start? "soc.vcd" (.empty (some 100)) [⟨"clk", 1⟩] = some start ∧
      let t := start.sample 1 [1]
      t.finish.1.sink.contents = "" ∧
      t.finish.2 = .error (.file "soc.vcd" "write refused") ∧
      t.finish.1.finish.2 = .ok () := by
  obtain ⟨start, hstart⟩ : ∃ start, start? "soc.vcd" (.empty (some 100)) [⟨"clk", 1⟩] =
      some start := Option.isSome_iff_exists.mp (by decide +kernel)
  have hcontents : (start? "soc.vcd" (.empty (some 100)) [⟨"clk", 1⟩]).map
      (fun t => (t.sample 1 [1]).finish.1.sink.contents) = some "" := by decide +kernel
  have hdump : "" ≠ dump [⟨"clk", 1⟩] [⟨1, [1]⟩] := by decide +kernel
  rw [hstart, Option.map_some, Option.some.injEq] at hcontents
  have hfirst := sink_holds_pieces "soc.vcd" (some 100) [⟨"clk", 1⟩] start hstart
    [.sample ⟨1, [1]⟩]
  have hsecond := sink_holds_pieces "soc.vcd" (some 100) [⟨"clk", 1⟩] start hstart
    [.sample ⟨1, [1]⟩, .finish]
  obtain ⟨hiff, hresult, -⟩ := hfirst.2.2.1 (by simp)
  refine ⟨start, hstart, hcontents, ?_, (hsecond.2.2.2.1 (by simp)).1⟩
  exact (hresult.resolve_left fun hok => hdump (hcontents ▸ hiff.mp hok)).1

end Tracer

end RiscvSoc.Waveform
