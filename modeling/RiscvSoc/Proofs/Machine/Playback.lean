import RiscvSoc.Machine.Build
import RiscvSoc.Proofs.Machine.Recording
import RiscvSoc.Proofs.Waveform.RoundTrip

namespace RiscvSoc

/-- The value at a time of the signal that a dump declares with a name and a width. -/
def Waveform.Dump.played? (d : Dump) (signal : Signal) (time : Nat) : Option Nat :=
  (d.declared.find? fun s => s.name == signal.name && s.width == signal.width).bind
    fun s => d.valueAt s.id time

theorem Strobe.bits_lt (s : Strobe) : s.bits.toNat < 2 ^ 4 := by
  obtain ⟨l0, l1, l2, l3⟩ := s
  cases l0 <;> cases l1 <;> cases l2 <;> cases l3 <;> decide

namespace Machine

open Waveform

/-- The machine after `n` steps, of which the host does something before each. -/
def hosted (m : Machine) (host : Nat → Machine → Machine) : Nat → Machine
  | 0 => m
  | n + 1 => (host n (m.hosted host n)).step.1

/-- The ports after each of `n` steps, at the time of the step. -/
def portSamples (m : Machine) (host : Nat → Machine → Machine) (n : Nat) : List Sample :=
  (List.range n).map fun k =>
    { time := m.stats.steps + (k + 1), values := (m.hosted host (k + 1)).portValues }

/-- A dump gives back the eleven ports of a machine at a time. -/
structure PlayedBack (m : Machine) (d : Dump) (time : Nat) : Prop where
  clock : d.played? ⟨"clock", 1⟩ time = some m.coreClock.level.toNat
  reset : d.played? ⟨"reset", 1⟩ time = some m.wires.reset.toNat
  instructionAddress : d.played? ⟨"instruction_address", 32⟩ time =
    some m.wires.outputs.instructionAddress.toNat
  instruction : d.played? ⟨"instruction", 32⟩ time = some m.wires.instruction.toNat
  deviceSelect : d.played? ⟨"device_select", 3⟩ time =
    some m.wires.outputs.deviceSelect.index.toNat
  memoryAddress : d.played? ⟨"memory_address", 32⟩ time = some m.wires.outputs.data.address.toNat
  writeData : d.played? ⟨"write_data", 32⟩ time = some m.wires.outputs.data.writeData.toNat
  writeEnable : d.played? ⟨"write_enable", 1⟩ time = some m.wires.outputs.data.writeEnable.toNat
  writeStrobe : d.played? ⟨"write_strobe", 4⟩ time = some m.wires.outputs.data.strobe.bits.toNat
  readData : d.played? ⟨"read_data", 32⟩ time = some m.wires.readData.toNat
  interruptFlag : d.played? ⟨"interrupt_flag", 32⟩ time = some m.soc.lines.flag.toNat

/-- What the host does between steps is not about the trace. -/
def LeavesTrace (host : Nat → Machine → Machine) : Prop :=
  ∀ n m, (host n m).tracer = m.tracer ∧ (host n m).stats.steps = m.stats.steps

variable {m : Machine} {host : Nat → Machine → Machine}

theorem hosted_id (m : Machine) (n : Nat) : m.hosted (fun _ m => m) n = m.after n := by
  induction n with
  | zero => rfl
  | succ n ih => rw [hosted, ih, after]

theorem steps_hosted (hhost : LeavesTrace host) (n : Nat) :
    (m.hosted host n).stats.steps = m.stats.steps + n := by
  induction n with
  | zero => rfl
  | succ n ih =>
    rw [hosted, (host n (m.hosted host n)).steps_step.steps, (hhost n _).2, ih, Nat.add_assoc]

/-- A trace has been fed the ports after every step. -/
theorem tracer_hosted (hhost : LeavesTrace host) {start : Tracer} (hstart : m.tracer = some start)
    (n : Nat) : (m.hosted host n).tracer = some (start.feed (m.portSamples host n)) := by
  induction n with
  | zero => exact hstart
  | succ n ih =>
    have hsteps : (m.hosted host (n + 1)).stats.steps = m.stats.steps + (n + 1) :=
      steps_hosted hhost (n + 1)
    have hsamples : m.portSamples host (n + 1) = m.portSamples host n ++
        [⟨m.stats.steps + (n + 1), (m.hosted host (n + 1)).portValues⟩] := by
      rw [portSamples, List.range_succ, List.map_append]
      rfl
    have hfeed : start.feed (m.portSamples host (n + 1)) =
        (start.feed (m.portSamples host n)).sample (m.stats.steps + (n + 1))
          (m.hosted host (n + 1)).portValues := by
      rw [hsamples, Tracer.feed, List.foldl_append]
      rfl
    rw [hfeed, ← hsteps, hosted, tracer_step, (hhost n _).1, ih, Option.map_some]

theorem fits_portValues (m : Machine) (time : Nat) :
    Sample.Fits portSignals ⟨time, m.portValues⟩ := by
  have hword : ∀ w : UInt32, w.toNat < 2 ^ 32 := UInt32.toNat_lt
  have hselect : m.wires.outputs.deviceSelect.index.toNat < 2 ^ 3 :=
    m.wires.outputs.deviceSelect.index_lt
  exact .cons (Bool.toNat_lt _) <| .cons (Bool.toNat_lt _) <| .cons (hword _) <|
    .cons (hword _) <| .cons hselect <| .cons (hword _) <| .cons (hword _) <|
    .cons (Bool.toNat_lt _) <| .cons (Strobe.bits_lt _) <| .cons (hword _) <|
    .cons (hword _) .nil

theorem times_portSamples (m : Machine) (host : Nat → Machine → Machine) (n : Nat) :
    ((m.portSamples host n).map (·.time)).Pairwise (· < ·) := by
  rw [portSamples, List.map_map]
  exact List.pairwise_map.mpr (List.pairwise_lt_range.imp fun h => by simp; omega)

theorem readsAs_finishTrace (hhost : LeavesTrace host) {path : String} {start : Tracer}
    (hopen : Tracer.start? path (.empty none) portSignals = some start)
    (hstart : m.tracer = some start) (n : Nat) :
    ∃ t, (m.hosted host n).finishTrace.1.tracer = some t ∧
      ReadsAs t.sink.contents portSignals (m.portSamples host n) := by
  refine ⟨(start.feed (m.portSamples host n)).finish.1, ?_, ?_⟩
  · rw [finishTrace, tracer_hosted hhost hstart]
  · rw [Tracer.finish_feed hopen]
    refine readsAs_dump (by decide) (fun s hs => ?_) (m.times_portSamples host n)
    obtain ⟨k, -, rfl⟩ := List.mem_map.mp hs
    exact fits_portValues _ _

theorem playedBack_of_values {d : Dump} {time : Nat} (hdeclared : d.declared = declared portSignals)
    (hvalues : ∀ (i : Nat) (s : Declaration), d.declared[i]? = some s →
      d.valueAt s.id time = m.portValues[i]?) : m.PlayedBack d time := by
  have hplayed : ∀ (i : Nat) (signal : Signal) (s : Declaration),
      (declared portSignals)[i]? = some s →
      (declared portSignals).find? (fun s => s.name == signal.name && s.width == signal.width) =
        some s → d.played? signal time = m.portValues[i]? := by
    intro i signal s hi hfind
    rw [Dump.played?, hdeclared, hfind, Option.bind_some]
    exact hvalues i s (by rw [hdeclared, hi])
  exact
    { clock := hplayed 0 _ _ rfl rfl
      reset := hplayed 1 _ _ rfl rfl
      instructionAddress := hplayed 2 _ _ rfl rfl
      instruction := hplayed 3 _ _ rfl rfl
      deviceSelect := hplayed 4 _ _ rfl rfl
      memoryAddress := hplayed 5 _ _ rfl rfl
      writeData := hplayed 6 _ _ rfl rfl
      writeEnable := hplayed 7 _ _ rfl rfl
      writeStrobe := hplayed 8 _ _ rfl rfl
      readData := hplayed 9 _ _ rfl rfl
      interruptFlag := hplayed 10 _ _ rfl rfl }

theorem exists_playedBack {text : String} {n : Nat}
    (h : ReadsAs text portSignals (m.portSamples host n)) :
    ∃ d, read? text = some d ∧
      ∀ k < n, (m.hosted host (k + 1)).PlayedBack d (m.stats.steps + (k + 1)) := by
  obtain ⟨d, hread, hdeclared, -, -, hvalues⟩ := h
  refine ⟨d, hread, fun k hk => ?_⟩
  have hmem : (⟨m.stats.steps + (k + 1), (m.hosted host (k + 1)).portValues⟩ : Sample) ∈
      m.portSamples host n :=
    List.mem_map.mpr ⟨k, List.mem_range.mpr hk, rfl⟩
  exact playedBack_of_values hdeclared (hvalues _ hmem)

/-- The end of a run, which the machine reaches by its own steps. -/
theorem tracer_run (m : Machine) :
    ∃ n, m.runToStop.1 = m.after n ∧ m.run.1 = (m.after n).finishTrace.1 := by
  obtain ⟨n, -, hstop⟩ := m.runToStop_eq
  refine ⟨n, congrArg Prod.fst hstop, ?_⟩
  rw [run, hstop]

/-- On a sink without a limit, the dump of any samples reads as these samples. The trace of a
machine reads as the samples of its ports, and what it says is what the eleven ports were after
every step, whatever the host does between the steps, and also at the end of a run. -/
theorem trace_plays_back :
    (∀ (path : String) (signals : List Signal) (samples : List Sample),
      (∀ s ∈ signals, ' ' ∉ s.name.toList ∧ '\n' ∉ s.name.toList) →
      (∀ s ∈ samples, s.Fits signals) → (samples.map (·.time)).Pairwise (· < ·) →
      ∃ start, Tracer.start? path (.empty none) signals = some start ∧
        ReadsAs (start.feed samples).finish.1.sink.contents signals samples) ∧
    ∀ (m : Machine) (path : String) (start : Tracer),
      Tracer.start? path (.empty none) portSignals = some start → m.tracer = some start →
      (∀ host, LeavesTrace host → ∀ n, ∃ t d, (m.hosted host n).finishTrace.1.tracer = some t ∧
        ReadsAs t.sink.contents portSignals (m.portSamples host n) ∧
        read? t.sink.contents = some d ∧
        ∀ k < n, (m.hosted host (k + 1)).PlayedBack d (m.stats.steps + (k + 1))) ∧
      ∃ n t d, m.runToStop.1 = m.after n ∧ m.run.1.tracer = some t ∧
        ReadsAs t.sink.contents portSignals (m.portSamples (fun _ m => m) n) ∧
        read? t.sink.contents = some d ∧
        ∀ k < n, (m.after (k + 1)).PlayedBack d (m.stats.steps + (k + 1)) := by
  refine ⟨fun path signals samples hnames hfits htimes => ?_, fun m path start hopen hstart =>
    ⟨fun host hhost n => ?_, ?_⟩⟩
  · obtain ⟨start, hstart⟩ := Tracer.start?_unlimited path signals
    refine ⟨start, hstart, ?_⟩
    rw [Tracer.finish_feed hstart]
    exact readsAs_dump hnames hfits htimes
  · obtain ⟨t, htracer, hreads⟩ := readsAs_finishTrace hhost hopen hstart n
    obtain ⟨d, hread, hports⟩ := exists_playedBack hreads
    exact ⟨t, d, htracer, hreads, hread, hports⟩
  · obtain ⟨n, hstop, hrun⟩ := m.tracer_run
    have hhost : LeavesTrace fun _ m => m := fun _ _ => ⟨rfl, rfl⟩
    obtain ⟨t, htracer, hreads⟩ := readsAs_finishTrace hhost hopen hstart n
    obtain ⟨d, hread, hports⟩ := exists_playedBack hreads
    rw [hosted_id, ← hrun] at htracer
    simp only [hosted_id] at hports
    exact ⟨n, t, d, hstop, htracer, hreads, hread, hports⟩

/-- A store of `0x40000000` to the byte that the serial port received, after an edge under reset. -/
def traced : Machine :=
  let general := { GeneralConfig.standard with clockDivider := 0, resetSteps := 1 }
  ofParts (.powerOn 4) (standardBus .standard ⟨#[0, 0x400000B7, 0x0010A623]⟩)
    { Config.standard with general }
    (Tracer.start? "ports.vcd" (.empty none) portSignals) none

def receiving (_ : Nat) (m : Machine) : Machine :=
  { m with soc := { m.soc with bus := m.soc.bus.receive [65] } }

/-- A clock and a bus, of which the second sample changes neither. Of the machine's ports, reset is
high after the first step and all others are after the third. -/
theorem trace_plays_back_receiving :
    (∃ start, Tracer.start? "bus.vcd" (.empty none) [⟨"clk", 1⟩, ⟨"bus", 8⟩] = some start ∧
      ReadsAs (start.feed [⟨1, [1, 0]⟩, ⟨2, [1, 0]⟩, ⟨5, [0, 200]⟩]).finish.1.sink.contents
        [⟨"clk", 1⟩, ⟨"bus", 8⟩] [⟨1, [1, 0]⟩, ⟨2, [1, 0]⟩, ⟨5, [0, 200]⟩]) ∧
    ∃ start t d, Tracer.start? "ports.vcd" (.empty none) portSignals = some start ∧
      traced.tracer = some start ∧ LeavesTrace receiving ∧
      (traced.hosted receiving 3).finishTrace.1.tracer = some t ∧
      read? t.sink.contents = some d ∧ d.played? ⟨"reset", 1⟩ 1 = some 1 ∧
      d.played? ⟨"clock", 1⟩ 3 = some 1 ∧ d.played? ⟨"instruction_address", 32⟩ 3 = some 8 ∧
      d.played? ⟨"instruction", 32⟩ 3 = some 0x0010A623 ∧
      d.played? ⟨"device_select", 3⟩ 3 = some 2 ∧
      d.played? ⟨"memory_address", 32⟩ 3 = some 0x4000000C ∧
      d.played? ⟨"write_data", 32⟩ 3 = some 0x40000000 ∧
      d.played? ⟨"write_enable", 1⟩ 3 = some 1 ∧ d.played? ⟨"write_strobe", 4⟩ 3 = some 15 ∧
      d.played? ⟨"read_data", 32⟩ 3 = some 65 ∧ d.played? ⟨"interrupt_flag", 32⟩ 3 = some 2 := by
  have hnames : ∀ s ∈ [(⟨"clk", 1⟩ : Signal), ⟨"bus", 8⟩],
      ' ' ∉ s.name.toList ∧ '\n' ∉ s.name.toList := by decide
  have hfits : ∀ s ∈ [(⟨1, [1, 0]⟩ : Sample), ⟨2, [1, 0]⟩, ⟨5, [0, 200]⟩],
      s.Fits [⟨"clk", 1⟩, ⟨"bus", 8⟩] := by
    simp [Sample.Fits]
  refine ⟨trace_plays_back.1 "bus.vcd" _ _ hnames hfits (by simp), ?_⟩
  obtain ⟨start, hstart⟩ := Tracer.start?_unlimited "ports.vcd" portSignals
  have hhost : LeavesTrace receiving := fun _ _ => ⟨rfl, rfl⟩
  obtain ⟨t, d, htracer, -, hread, hports⟩ :=
    (trace_plays_back.2 traced "ports.vcd" start hstart hstart).1 receiving hhost 3
  have hreset : (traced.hosted receiving 1).wires.reset.toNat = 1 := by decide +kernel
  have hvalues : (traced.hosted receiving 3).portValues =
      [1, 0, 8, 0x0010A623, 2, 0x4000000C, 0x40000000, 1, 15, 65, 2] := by decide +kernel
  simp only [portValues, List.cons.injEq, and_true] at hvalues
  obtain ⟨h0, -, h2, h3, h4, h5, h6, h7, h8, h9, h10⟩ := hvalues
  have hfirst : (traced.hosted receiving 1).PlayedBack d 1 := hports 0 (by decide)
  have hthird : (traced.hosted receiving 3).PlayedBack d 3 := hports 2 (by decide)
  refine ⟨start, t, d, hstart, hstart, hhost, htracer, hread, ?_⟩
  rw [hfirst.reset, hthird.clock, hthird.instructionAddress, hthird.instruction,
    hthird.deviceSelect, hthird.memoryAddress, hthird.writeData, hthird.writeEnable,
    hthird.writeStrobe, hthird.readData, hthird.interruptFlag, hreset, h0, h2, h3, h4, h5, h6, h7,
    h8, h9, h10]
  simp only [and_self]

end Machine

end RiscvSoc
