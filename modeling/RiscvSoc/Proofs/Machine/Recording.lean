import RiscvSoc.Proofs.Machine.Stopping

/-! Runs whose trace goes to a sink without a limit, as each machine built from a configuration has
it. Every sample is taken, so that the end of the trace cannot fail a run. -/

namespace RiscvSoc

namespace Waveform

/-- A sink without a limit is in front of the buffer and takes whatever is handed over. -/
def BufferedSink.Unlimited (b : BufferedSink) : Prop :=
  b.sink.limit = none

namespace BufferedSink.Unlimited

variable {b : BufferedSink} (h : b.Unlimited)

include h

theorem write?_sink (chunk : String) :
    ∃ sink, b.sink.write? chunk = some sink ∧ sink.limit = none := by
  have hlimit : b.sink.limit = none := h
  have haccepts : b.sink.accepts chunk = true := by rw [Sink.accepts, hlimit]
  exact ⟨{ b.sink with contents := b.sink.contents ++ chunk }, if_pos haccepts, h⟩

theorem flush : ∃ b', b.flush = (b', true) ∧ b'.Unlimited := by
  obtain ⟨sink, hwrite, hsink⟩ := h.write?_sink b.buffer
  rw [BufferedSink.flush]
  split
  · exact ⟨b, rfl, h⟩
  · rw [hwrite]
    exact ⟨{ buffer := "", sink }, rfl, hsink⟩

theorem store (chunk : String) : ∃ b', b.store chunk = (b', true) ∧ b'.Unlimited := by
  obtain ⟨sink, hwrite, hsink⟩ := h.write?_sink chunk
  rw [BufferedSink.store]
  split
  · exact ⟨{ b with buffer := b.buffer ++ chunk }, rfl, h⟩
  · rw [hwrite]
    exact ⟨{ b with sink }, rfl, hsink⟩

theorem write (chunk : String) : ∃ b', b.write chunk = (b', true) ∧ b'.Unlimited := by
  rw [BufferedSink.write]
  split
  · exact h.store chunk
  · obtain ⟨flushed, hflush, hflushed⟩ := h.flush
    rw [hflush]
    exact hflushed.store chunk

end BufferedSink.Unlimited

namespace Tracer

/-- The tracer takes samples, and none can fail. -/
def Recording (t : Tracer) : Prop :=
  ∃ out, t.progress = .active out ∧ out.Unlimited

variable {t : Tracer}

theorem recording_start? {path : String} {sink : Sink} {signals : List Signal}
    (hsink : sink.limit = none) (h : start? path sink signals = some t) : t.Recording := by
  obtain ⟨out, hwrite, hout⟩ := BufferedSink.Unlimited.write (b := .ofSink sink) hsink
    (header signals)
  rw [start?, hwrite] at h
  cases h
  exact ⟨out, rfl, hout⟩

theorem Recording.sample (h : t.Recording) (time : Nat) (values : List Nat) :
    (t.sample time values).Recording := by
  obtain ⟨path, traces, progress⟩ := t
  obtain ⟨out, rfl, hout⟩ := h
  obtain ⟨out', hwrite, hout'⟩ := hout.write (sampleText traces time values)
  simp only [Tracer.sample]
  split
  · exact ⟨out, rfl, hout⟩
  · rw [hwrite]
    exact ⟨out', rfl, hout'⟩

theorem Recording.finish (h : t.Recording) : t.finish.2 = .ok () := by
  obtain ⟨out, hactive, hout⟩ := h
  obtain ⟨out', hflush, _⟩ := hout.flush
  rw [Tracer.finish, hactive]
  simp only [hflush]

end Tracer

end Waveform

namespace Machine

variable (m : Machine)

private theorem clockCore_tracer : m.clockCore.tracer = m.tracer := by
  simp only [clockCore]
  split <;> rfl

private theorem scanPixel_tracer : m.scanPixel.1.tracer = m.tracer := by
  rw [scanPixel]
  split <;> rfl

private theorem clockPixel_tracer : m.clockPixel.1.tracer = m.tracer := by
  simp only [clockPixel]
  split
  · exact scanPixel_tracer _
  · rfl

theorem tracer_step :
    m.step.1.tracer = m.tracer.map (·.sample m.step.1.stats.steps m.step.1.portValues) := by
  let m' := m.beginStep.clockCore.settle.clockPixel.1
  have hbefore : m'.tracer = m.tracer :=
    (clockPixel_tracer _).trans (clockCore_tracer m.beginStep)
  rw [step_fst, ← hbefore]
  show m'.trace.tracer = m'.tracer.map (·.sample m'.trace.stats.steps m'.trace.portValues)
  rw [trace]
  cases htracer : m'.tracer with
  | none => simp only [Option.isSome_none, Bool.false_eq_true, if_false, htracer, Option.map_none]
  | some t => rfl

variable {m}

theorem recording_after (h : ∀ t, m.tracer = some t → t.Recording) (n : Nat) :
    ∀ t, (m.after n).tracer = some t → t.Recording := by
  induction n with
  | zero => exact h
  | succ n ih =>
    intro t ht
    rw [after, tracer_step, Option.map_eq_some_iff] at ht
    obtain ⟨before, hbefore, rfl⟩ := ht
    exact (ih before hbefore).sample _ _

/-- A run whose trace cannot fail returns a report. -/
theorem run_returns (h : ∀ t, m.tracer = some t → t.Recording) :
    ∃ report, m.run.2 = .ok report := by
  obtain ⟨s, _, hstop⟩ := m.runToStop_eq
  have hfinish : (m.after s).finishTrace.2 = .ok () := by
    rw [finishTrace]
    cases htracer : (m.after s).tracer with
    | none => rfl
    | some t => exact (recording_after h s t htracer).finish
  rw [run, hstop]
  simp only [hfinish, Except.map]
  exact ⟨_, rfl⟩

end Machine

end RiscvSoc
