import Mathlib.Order.Bounds.Basic
import RiscvSoc.Proofs.Bus.Peripherals
import RiscvSoc.Proofs.Device.Raster
import RiscvSoc.Proofs.Machine.Recording

namespace RiscvSoc

structure Screen where
  display : Option Display
  previousVsync : Bool
  frames : Nat

namespace Screen

/-- A pixel is recorded; with a falling vertical sync it completes a frame. -/
def showing (s : Screen) (p : Pixel) : Screen :=
  let falling := s.previousVsync && !p.vsync
  { display := s.display.map fun d => if falling then (d.update p).present else d.update p
    previousVsync := p.vsync
    frames := if falling && s.display.isSome then s.frames + 1 else s.frames }

structure Scanned (t : VgaTiming) (quitAfter : Option Nat) (k : Nat) (s : Screen) : Prop where
  previousVsync : s.previousVsync = ScanPosition.syncBefore t k
  frames : s.frames = ScanPosition.framesAfter t k
  display : ∃ d, s.display = some d ∧ d.frames = s.frames ∧ d.quitAfter = quitAfter

theorem frames_update (d : Display) (p : Pixel) :
    (d.update p).frames = d.frames ∧ (d.update p).quitAfter = d.quitAfter := by
  rw [Display.update]
  split <;> exact ⟨rfl, rfl⟩

theorem Scanned.showing {t : VgaTiming} {quitAfter : Option Nat} {k : Nat} {s : Screen}
    (h : Scanned t quitAfter k s) {p : Pixel} (hp : p.vsync = (ScanPosition.after t k).vsync t)
    (hpulses : t.Pulses) : Scanned t quitAfter (k + 1) (s.showing p) := by
  obtain ⟨d, hd, hframes, hquit⟩ := h.display
  have hfalls := ScanPosition.falls_iff t k hpulses
  rw [← h.previousVsync, ← hp] at hfalls
  obtain ⟨hcount, hlimit⟩ := frames_update d p
  have hpresented : (s.showing p).frames = ScanPosition.framesAfter t (k + 1) := by
    rw [ScanPosition.framesAfter_succ t k hpulses, ← h.frames, Screen.showing, hd, Option.isSome_some,
      Bool.and_true]
    by_cases hf : k % t.frameClocks = t.syncClock
    · rw [if_pos hf, if_pos (hfalls.mpr hf)]
    · rw [if_neg hf, if_neg (mt hfalls.mp hf), Nat.add_zero]
  refine ⟨hp, hpresented, _, by rw [Screen.showing, hd, Option.map_some], ?_, ?_⟩
  · rw [Screen.showing, hd, Option.isSome_some, Bool.and_true]
    split
    · rw [Display.present, hcount, hframes]
    · rw [hcount, hframes]
  · split
    · rw [Display.present, hlimit, hquit]
    · rw [hlimit, hquit]

end Screen

namespace Config

variable (c : Config)

def pixelClocks (n : Nat) : Nat :=
  ClockDivider.rises c.devices.vga.pixelClockDivider n

/-- Frames that the raster completes in steps `1` to `n`. -/
def framesBy (n : Nat) : Nat :=
  ScanPosition.framesAfter c.devices.vga.timing (c.pixelClocks n)

/-- The step whose pixel clock starts the vertical sync of frame `j`, counted from zero. -/
def syncStep (j : Nat) : Nat :=
  (2 * (c.devices.vga.timing.syncClock + c.devices.vga.timing.frameClocks * j) + 1) *
    (c.devices.vga.pixelClockDivider.toNat + 1)

theorem syncStep_pos (j : Nat) : 0 < c.syncStep j :=
  Nat.mul_pos (Nat.succ_pos _) (Nat.succ_pos _)

theorem syncStep_mono {i j : Nat} (h : i ≤ j) : c.syncStep i ≤ c.syncStep j := by
  have hframes := Nat.mul_le_mul_left c.devices.vga.timing.frameClocks h
  exact Nat.mul_le_mul_right _ (by omega)

variable {c} (hmoves : ClockDivider.Moves c.devices.vga.pixelClockDivider)
  (hpulses : c.devices.vga.timing.Pulses)

include hmoves hpulses

theorem framesBy_syncStep (j : Nat) : c.framesBy (c.syncStep j) = j + 1 := by
  rw [framesBy, pixelClocks, syncStep, ClockDivider.rises_of_rise hmoves,
    ScanPosition.framesAfter_of_fall _ hpulses]

/-- Frames are completed on those steps and no others. -/
theorem framesBy_succ_iff (n : Nat) :
    c.framesBy (n + 1) = c.framesBy n + 1 ↔ ∃ j, n + 1 = c.syncStep j := by
  have hrise := ClockDivider.risesAt_succ_iff hmoves n
  simp only [framesBy, pixelClocks, syncStep, ClockDivider.rises_succ]
  generalize ClockDivider.rises c.devices.vga.pixelClockDivider n = k at *
  generalize c.devices.vga.timing = t at *
  have hcount := ScanPosition.framesAfter_succ t k hpulses
  constructor
  · intro hframes
    -- The count moved, so the clock rose and the scan stood at a fall.
    have hr : ClockDivider.RisesAt c.devices.vga.pixelClockDivider (n + 1) := by
      by_contra hr
      rw [if_neg hr, Nat.add_zero] at hframes
      omega
    have hfall : k % t.frameClocks = t.syncClock := by
      by_contra hfall
      rw [if_pos hr, hcount, if_neg hfall] at hframes
      omega
    refine ⟨k / t.frameClocks, ?_⟩
    rw [← hfall, Nat.mod_add_div]
    exact hrise.mp hr
  · rintro ⟨j, hs⟩
    have hr : ClockDivider.RisesAt c.devices.vga.pixelClockDivider (n + 1) := ⟨hmoves, _, hs⟩
    have hsame := Nat.eq_of_mul_eq_mul_right (Nat.succ_pos _) ((hrise.mp hr).symm.trans hs)
    have hfall : k % t.frameClocks = t.syncClock := by
      rw [show k = t.syncClock + t.frameClocks * j by omega, Nat.add_mul_mod_self_left,
        Nat.mod_eq_of_lt hpulses.syncClock_lt]
    rw [if_pos hr, hcount, if_pos hfall]

end Config

namespace Machine

variable (m : Machine)

def screen (m : Machine) : Screen :=
  { display := m.display, previousVsync := m.previousVsync, frames := m.stats.framesPresented }

theorem screen_showPixel (p : Pixel) : (m.showPixel p).1.screen = m.screen.showing p := by
  simp only [showPixel, screen, Screen.showing, apply_ite Stats.framesPresented]
  rfl

def scannedPixel? (m : Machine) : Option Pixel :=
  if m.pixelClock.step.2 = .rising then m.clocked.bus.pixel? else none

/-- The display's side follows the scanned pixels and nothing else. -/
theorem screen_step :
    m.step.1.screen = (m.scannedPixel?.map m.screen.showing).getD m.screen := by
  let m₁ := m.beginStep.clockCore.settle
  have hsoc : m₁.soc = m.clocked := m.clockCore_soc
  have hclock : m₁.pixelClock = m.pixelClock := (clockCore_rest m.beginStep).2.2.2
  have hscreen : m₁.screen = m.screen := by
    have hsides : m.beginStep.clockCore.display = m.display ∧
        m.beginStep.clockCore.previousVsync = m.previousVsync := by
      simp only [clockCore]
      split <;> exact ⟨rfl, rfl⟩
    rw [screen, screen, Screen.mk.injEq]
    exact ⟨hsides.1, hsides.2, (clockCore_counts m.beginStep).1⟩
  have htrace : ∀ m' : Machine, m'.trace.screen = m'.screen := by
    intro m'
    unfold trace
    split <;> rfl
  rw [step_fst, htrace]
  change m₁.clockPixel.1.screen = _
  simp only [clockPixel, hclock, scannedPixel?]
  split
  · simp only [scanPixel, hsoc]
    cases m.clocked.bus.pixel? with
    | some p =>
      rw [Option.map_some, Option.getD_some, screen_showPixel, ← hscreen]
      rfl
    | none => exact hscreen
  · exact hscreen

/-- The machine of a configuration after `n` steps: its devices, and what the pixel clocks so far
have scanned. -/
structure Scanning (c : Config) (quitAfter : Option Nat) (n : Nat) (m : Machine) : Prop where
  devices : ∃ (p : Peripherals) (g : Vga), m.soc.bus.devices = p.devices ∧ p.vga = some g ∧
    g.timing = c.devices.vga.timing ∧
    g.position = .after c.devices.vga.timing (c.pixelClocks n)
  screen : Screen.Scanned c.devices.vga.timing quitAfter (c.pixelClocks n) m.screen

variable {m} {c : Config} {quitAfter : Option Nat} {n : Nat}

/-- The core cannot move the scan. -/
theorem Scanning.clocked (h : Scanning c quitAfter n m) :
    ∃ (p : Peripherals) (g : Vga), m.clocked.bus.devices = p.devices ∧ p.vga = some g ∧
      g.timing = c.devices.vga.timing ∧
      g.position = .after c.devices.vga.timing (c.pixelClocks n) := by
  obtain ⟨p, g, hp, hg, htiming, hposition⟩ := h.devices
  rcases devices_clocked hp with hkept | ⟨q, hw, hq⟩
  · exact ⟨p, g, hkept, hg, htiming, hposition⟩
  · rcases hw.vga with hvga | ⟨offset, value, hvga⟩
    · refine ⟨q.tick, g.tick, hq, ?_, htiming, hposition⟩
      rw [Peripherals.tick, hvga, hg, Option.map_some]
    · refine ⟨q.tick, (g.write offset value).tick, hq, ?_, ?_, ?_⟩
      · rw [Peripherals.tick, hvga, hg, Option.map_some, Option.map_some]
      · rw [Vga.timing_tick, Vga.timing_write, htiming]
      · rw [Vga.position_tick, Vga.position_write, hposition]

theorem Scanning.step (h : Scanning c quitAfter n m) (hpaced : Paced c n m)
    (hpulses : c.devices.vga.timing.Pulses) : Scanning c quitAfter (n + 1) m.step.1 := by
  obtain ⟨p, g, hp, hg, htiming, hposition⟩ := h.clocked
  have hsoc := m.steps_step.soc
  have hscreen := m.screen_step
  have hclocks : c.pixelClocks (n + 1) = c.pixelClocks n + if m.pixelClock.step.2 = .rising then 1
      else 0 := by
    simp only [Config.pixelClocks, ClockDivider.rises_succ, hpaced.pixelClock,
      ClockDivider.after_step_eq_rising]
  by_cases hrise : m.pixelClock.step.2 = .rising
  · have hpixel : m.clocked.bus.pixel? = some g.pixel := by
      rw [Bus.pixel?, Bus.vga?_of_devices hp, hg, Option.map_some]
    rw [if_pos hrise] at hsoc hclocks
    rw [scannedPixel?, if_pos hrise, hpixel, Option.map_some, Option.getD_some] at hscreen
    constructor
    · rw [hsoc, hclocks]
      refine ⟨p.scan, g.scan, Bus.devices_scan hp, ?_, htiming, ?_⟩
      · rw [Peripherals.scan, hg, Option.map_some]
      · rw [Vga.position_scan, hposition, htiming, ScanPosition.next_after]
    · rw [hscreen, hclocks]
      refine h.screen.showing ?_ hpulses
      rw [← hposition, ← htiming]
      rfl
  · rw [if_neg hrise] at hsoc hclocks
    rw [scannedPixel?, if_neg hrise, Option.map_none, Option.getD_none] at hscreen
    constructor
    · rw [hsoc, hclocks]
      exact ⟨p, g, hp, hg, htiming, hposition⟩
    · rw [hscreen, hclocks]
      exact h.screen

theorem scanning_after (core : Core) (memory : Memory) (c : Config)
    (tracer : Option Waveform.Tracer) (image : Option Image)
    (henabled : c.devices.vga.enabled = true) (hpulses : c.devices.vga.timing.Pulses) (n : Nat) :
    Scanning c (c.devices.vga.quitAfterFrames.map (·.toNat)) n
      ((ofParts core (standardBus c memory) c tracer image).after n) := by
  induction n with
  | zero =>
    have hzero : c.pixelClocks 0 = 0 := ClockDivider.rises_zero _
    refine ⟨⟨_, _, devices_standardBus c memory, if_pos henabled, rfl, ?_⟩, ?_⟩
    · rw [hzero, ScanPosition.after_zero]
      rfl
    · rw [hzero]
      exact ⟨rfl, (ScanPosition.framesAfter_zero _).symm, _, if_pos henabled, rfl, rfl⟩
  | succ n ih => exact ih.step (paced_after _ _ _ _ _ n) hpulses

private theorem Scanning.framesPresented (h : Scanning c quitAfter n m) :
    m.stats.framesPresented = c.framesBy n :=
  h.screen.frames

private theorem Scanning.displayed (h : Scanning c quitAfter n m) :
    m.display.map Display.frames = some m.stats.framesPresented := by
  obtain ⟨d, hd, hframes, _⟩ := h.screen.display
  have hdisplay : m.display = some d := hd
  rw [hdisplay, Option.map_some, hframes]
  rfl

private theorem Scanning.quits_iff {q : Nat} (h : Scanning c (some q) n m) :
    m.display.any Display.quitRequested = true ↔ q ≤ m.stats.framesPresented := by
  obtain ⟨d, hd, hframes, hquit⟩ := h.screen.display
  have hdisplay : m.display = some d := hd
  have hcount : d.frames = m.stats.framesPresented := hframes
  rw [hdisplay, Option.any_some, Display.quitRequested, hquit, hcount]
  exact decide_eq_true_iff

theorem isLeast_quitsAt {q : Nat}
    (hmoves : ClockDivider.Moves c.devices.vga.pixelClockDivider)
    (hpulses : c.devices.vga.timing.Pulses) (h : ∀ n, Scanning c (some q) n (m.after n)) :
    IsLeast {s | m.QuitsAt s} (c.syncStep (max q 1 - 1)) := by
  have hframes := fun n => (h n).framesPresented
  have hquits : ∀ n, m.QuitsAt (n + 1) ↔ (∃ j, n + 1 = c.syncStep j) ∧ q ≤ c.framesBy (n + 1) := by
    intro n
    rw [QuitsAt, Nat.add_sub_cancel, (h (n + 1)).quits_iff, hframes, hframes,
      Config.framesBy_succ_iff hmoves hpulses]
  constructor
  · obtain ⟨n, hn⟩ := Nat.exists_eq_succ_of_ne_zero (c.syncStep_pos (max q 1 - 1)).ne'
    have hcount := Config.framesBy_syncStep hmoves hpulses (max q 1 - 1)
    rw [hn] at hcount ⊢
    refine (hquits n).mpr ⟨⟨_, hn.symm⟩, ?_⟩
    rw [hcount]
    omega
  · intro s hs
    cases s with
    | zero => exact absurd hs.1.symm (Nat.succ_ne_self _)
    | succ n =>
      obtain ⟨⟨j, hj⟩, hq⟩ := (hquits n).mp hs
      rw [hj, Config.framesBy_syncStep hmoves hpulses] at hq
      rw [hj]
      exact c.syncStep_mono (by omega)

/-- A run comes to an end with step `s`; only the end of its trace can still fail. -/
def EndsAt (m : Machine) (reason : StopReason) (s : Nat) : Prop :=
  m.run = ((m.after s).finishTrace.1, (m.after s).finishTrace.2.map fun _ =>
    { outcome := { reason, steps := s }, stats := (m.after s).stats })

private theorem endsAt_of_isLeast (hzero : m.stats.steps = 0) {s : Nat} {reason : StopReason}
    (h : IsLeast {s | m.StopsAt s} s) (hreason : (m.outcomeAt s).reason = reason) :
    m.EndsAt reason s := by
  obtain ⟨s', hleast, hrun⟩ := m.runToStop_eq
  obtain rfl := IsLeast.unique hleast h
  have hsteps : m.outcomeAt s' = { reason, steps := s' } := by
    rw [← hreason, outcomeAt, hzero, Nat.zero_add]
  rw [EndsAt, ← hsteps]
  simp only [run, hrun, stats_finishTrace]

/-- Without polling, a run from the start ends when the display first asks to stop, or with the
budget if that comes first. -/
private theorem endsAt_of_quits (hzero : m.stats.steps = 0) (hhalt : m.settings.haltAddress = 0)
    {last : Nat} (hpos : 0 < last) (h : IsLeast {s | m.QuitsAt s} last) :
    (last ≤ max 1 m.settings.cycleBudget → m.EndsAt .quitRequested last) ∧
      (max 1 m.settings.cycleBudget < last →
        m.EndsAt .timedOut (max 1 m.settings.cycleBudget)) := by
  have hhalts : ∀ s, ¬ m.HaltsAt s := fun s hs => hs.1 hhalt
  have hstops : ∀ s, m.StopsAt s ↔ 0 < s ∧ (m.QuitsAt s ∨ m.settings.cycleBudget ≤ s) := by
    intro s
    rw [StopsAt, TimesOutAt, hzero, Nat.zero_add]
    simp only [hhalts, false_or]
  have hquit : m.QuitsAt last := h.1
  refine ⟨fun hle => endsAt_of_isLeast hzero ⟨(hstops last).mpr ⟨hpos, .inl hquit⟩, ?_⟩ ?_,
    fun hlt => endsAt_of_isLeast hzero
      ⟨(hstops _).mpr ⟨by omega, .inr (le_max_right _ _)⟩, ?_⟩ ?_⟩
  · intro s hs
    obtain ⟨hs, hquits | hbudget⟩ := (hstops s).mp hs
    · exact h.2 hquits
    · omega
  · rw [outcomeAt, if_neg (hhalts last), if_pos hquit]
  · intro s hs
    obtain ⟨hs, hquits | hbudget⟩ := (hstops s).mp hs
    · exact hlt.le.trans (h.2 hquits)
    · omega
  · have hearly : ¬ m.QuitsAt (max 1 m.settings.cycleBudget) := fun hquits =>
      absurd (h.2 hquits) hlt.not_ge
    rw [outcomeAt, if_neg (hhalts _), if_neg hearly]

/-- With a display that asks to stop after `q` frames and no polling, a run of any program ends on
the step that the timing gives for the sync of the last frame asked for, or with the budget if that
comes first. The display counts what the run counts. Only a trace that refuses a sample can keep the
run from returning its report. -/
theorem run_presents_frames (core : Core) (memory : Memory) (c : Config)
    (tracer : Option Waveform.Tracer) (image : Option Image) (q : UInt64)
    (henabled : c.devices.vga.enabled = true) (hhalt : c.general.haltAddress = 0)
    (hquit : c.devices.vga.quitAfterFrames = some q)
    (hclock : c.devices.vga.pixelClockDivider.toNat + 1 < 2 ^ 32)
    (hfits : c.devices.vga.timing.Fits)
    (hsync : 1 ≤ c.devices.vga.timing.vSync.toNat)
    (hoff : 1 ≤ c.devices.vga.timing.vActive.toNat + c.devices.vga.timing.vFrontPorch.toNat +
      c.devices.vga.timing.vBackPorch.toNat) :
    let m := ofParts core (standardBus c memory) c tracer image
    let t := c.devices.vga.timing
    let line := max 1 t.hTotal.toNat
    let frames := max q.toNat 1
    let budget := max 1 c.general.cycleBudget.toNat
    let last := (2 * (line * (t.vActive.toNat + t.vFrontPorch.toNat) +
      (frames - 1) * (line * t.vTotal.toNat)) + 1) * (c.devices.vga.pixelClockDivider.toNat + 1)
    (∀ n, (m.after n).display.map Display.frames = some (m.after n).stats.framesPresented) ∧
      (last ≤ budget →
        m.EndsAt .quitRequested last ∧ (m.after last).stats.framesPresented = frames) ∧
      (budget < last → m.EndsAt .timedOut budget) ∧
      ((∀ t, tracer = some t → t.Recording) → ∃ report, m.run.2 = .ok report) := by
  intro m t line frames budget last
  have hpulses : t.Pulses := ⟨hfits, hsync, hoff⟩
  have hscan : ∀ n, Scanning c (some q.toNat) n (m.after n) := by
    intro n
    have h := scanning_after core memory c tracer image henabled hpulses n
    rwa [hquit] at h
  have hlast : c.syncStep (frames - 1) = last := by
    obtain ⟨hlines, -, -⟩ := hpulses.frameLines_eq
    obtain ⟨hstart, -, htotal⟩ := hfits.frame_sums
    rw [Config.syncStep, VgaTiming.syncClock, VgaTiming.frameClocks, hlines, ← htotal, hstart,
      VgaTiming.lineClocks, Nat.mul_comm _ (frames - 1)]
  have hleast : IsLeast {s | m.QuitsAt s} last := by
    rw [← hlast]
    exact isLeast_quitsAt hclock hpulses hscan
  have hpos : 0 < last := by
    rw [← hlast]
    exact c.syncStep_pos _
  obtain ⟨hends, htimesOut⟩ := endsAt_of_quits (m := m) rfl hhalt hpos hleast
  refine ⟨fun n => ?_, fun hle => ⟨hends hle, ?_⟩, htimesOut, fun htrace => run_returns htrace⟩
  · exact (hscan n).displayed
  · rw [(hscan last).framesPresented, ← hlast, Config.framesBy_syncStep hclock hpulses]
    exact Nat.sub_add_cancel (le_max_right _ _)

/-- Two frames of one visible pixel each, on two lines of one pixel clock. -/
def twoFrames : Config :=
  { Config.standard with
    devices := { DeviceConfig.standard with
      vga := { VgaConfig.standard with
        enabled := true
        timing :=
          { hActive := 1, hFrontPorch := 0, hSync := 0, hBackPorch := 0
            vActive := 1, vFrontPorch := 0, vSync := 1, vBackPorch := 0 }
        quitAfterFrames := some 2 } } }

/-- A tracer of the wires onto a sink that takes everything. -/
def recorder? : Option Waveform.Tracer :=
  Waveform.Tracer.start? "frames.vcd" (.empty none) portSignals

/-- The second sync falls with the fourth pixel clock, on step 14. -/
theorem run_twoFrames :
    let m := ofParts (.powerOn 0) (standardBus twoFrames (.zeroed 4)) twoFrames recorder? none
    twoFrames.devices.vga.enabled = true ∧ twoFrames.general.haltAddress = 0 ∧
      twoFrames.devices.vga.quitAfterFrames = some 2 ∧
      twoFrames.devices.vga.pixelClockDivider.toNat + 1 < 2 ^ 32 ∧
      twoFrames.devices.vga.timing.Fits ∧
      1 ≤ twoFrames.devices.vga.timing.vSync.toNat ∧
      1 ≤ twoFrames.devices.vga.timing.vActive.toNat +
        twoFrames.devices.vga.timing.vFrontPorch.toNat +
        twoFrames.devices.vga.timing.vBackPorch.toNat ∧
      m.EndsAt .quitRequested 14 ∧ ∃ report, m.run.2 = .ok report := by
  have hfits : twoFrames.devices.vga.timing.Fits := ⟨by decide, by decide⟩
  obtain ⟨-, hquits, -, hreturns⟩ := run_presents_frames (.powerOn 0) (.zeroed 4) twoFrames
    recorder? none 2 rfl rfl rfl (by decide) hfits (by decide) (by decide)
  have hlimit : (Waveform.Sink.empty none).limit = none := rfl
  have hrecording : ∀ t, recorder? = some t → t.Recording :=
    fun t ht => Waveform.Tracer.recording_start? hlimit ht
  exact ⟨rfl, rfl, rfl, by decide, hfits, by decide, by decide, (hquits (by decide)).1,
    hreturns hrecording⟩

end Machine

end RiscvSoc
