import RiscvSoc.Machine.Build
import RiscvSoc.Proofs.Core.Commit
import RiscvSoc.Proofs.Machine.Pace

/-! The first edge with reset low. Until it comes, the core waits at the entry point. It commits the
word stored there, with the data that a load asks for, unless it falls on the step that releases
reset: then it samples wires that settled under reset, or that never settled. -/

namespace RiscvSoc

namespace Core

variable {c : Core} {i : CoreInputs} {kind : LoadKind} {rd rs1 : RegIndex} {imm : UInt32}

theorem effectiveAddress_of_load (hr : i.reset = false) (hv : i.instructionValid = true)
    (hd : Instruction.decode i.instruction = .load kind rd rs1 imm) :
    (c.outputs i).effectiveAddress = ⟨c.reg rs1 + imm⟩ := by
  rw [effectiveAddress_outputs]
  simp only [outputs, hr, hv, plan, hd, Bool.false_eq_true, if_false, if_true]
  rfl

/-- A load that no interrupt preempts writes what it takes out of the data wire. -/
theorem reg_clockEdge_of_load (hr : i.reset = false) (hv : i.instructionValid = true)
    (hd : Instruction.decode i.instruction = .load kind rd rs1 imm) (hne : rd ≠ 0)
    (hi : ¬ (c.trapInputs i).Interrupted) :
    (c.clockEdge i).1.reg rd = kind.extract (c.reg rs1 + imm) i.readData := by
  have ht := transition_of_decode hd (by simp) (by simp) (by simp) hi
  have he : (c.effect i).writeback = some (rd, kind.extract (c.reg rs1 + imm) i.readData) := by
    simp only [effect, hd]
    rfl
  rw [clockEdge_of_sequential hr hv ht]
  simp only [reg, he, read_writeback, hne, ne_eq, not_false_eq_true, and_self, if_true]

end Core

namespace Machine

/-- What the core samples if the coming step brings an edge. -/
def sampled (m : Machine) : CoreInputs :=
  m.soc.inputs m.beginStep.wires

/-- The coming edge commits the word stored at the entry point, and if that is a load, what it
writes comes out of the word that the bus reads at the load's own address. -/
structure CommitsEntry (entry : UInt32) (memory : Memory) (m : Machine) : Prop where
  edge : m.step.1.soc.core = (m.soc.core.clockEdge m.sampled).1
  reset : m.sampled.reset = false
  word : m.sampled.instruction = memory.read (entry &&& deviceMask)
  load : ∀ kind rd rs1 imm,
    Instruction.decode (memory.read (entry &&& deviceMask)) = .load kind rd rs1 imm → rd ≠ 0 →
    m.step.1.soc.core.reg rd =
      kind.extract (m.soc.core.reg rs1 + imm) (m.soc.bus.read ⟨m.soc.core.reg rs1 + imm⟩)

/-- The core stands at the entry point and memory is as it was loaded. -/
structure Waiting (entry : UInt32) (memory : Memory) (s : Soc) : Prop where
  core : s.core = .powerOn entry
  memory : s.bus.memory = memory

variable {m : Machine} {c : Config} {n : Nat} {entry : UInt32} {memory : Memory}

private theorem Waiting.resetCycle {s : Soc} (h : Waiting entry memory s) :
    Waiting entry memory s.resetCycle :=
  ⟨congrArg Core.reset h.core, h.memory⟩

private theorem Waiting.scanned {s : Soc} (h : Waiting entry memory s) :
    Waiting entry memory s.scanned :=
  ⟨h.core, h.memory⟩

private theorem Waiting.fetch {s : Soc} (h : Waiting entry memory s) :
    s.fetch = memory.read (entry &&& deviceMask) := by
  rw [Soc.fetch, h.core, h.memory]
  rfl

private theorem Waiting.step (h : Waiting entry memory m.soc) (hp : Paced c n m)
    (hidle : c.general.resetSteps.toNat ≤ n →
      ¬ ClockDivider.RisesAt c.general.clockDivider (n + 1)) :
    Waiting entry memory m.step.1.soc := by
  have hclocked : Waiting entry memory m.clocked := by
    simp only [clocked, hp.coreClock, ClockDivider.after_step_eq_rising]
    split
    · rename_i hrise
      have hle : n + 1 ≤ c.general.resetSteps.toNat :=
        Nat.lt_of_not_le fun hn => hidle hn hrise
      rw [Soc.edge_of_reset (by rw [hp.beginStep_reset]; exact decide_eq_true hle)]
      exact h.resetCycle
    · exact h
  rw [m.steps_step.soc]
  split
  · exact hclocked.scanned
  · exact hclocked

private theorem waiting_after (bus : Bus) (tracer : Option Waveform.Tracer) (image : Option Image)
    (hidle : ∀ t, c.general.resetSteps.toNat < t → t ≤ n →
      ¬ ClockDivider.RisesAt c.general.clockDivider t) :
    Waiting entry bus.memory ((ofParts (.powerOn entry) bus c tracer image).after n).soc := by
  induction n with
  | zero => exact ⟨rfl, rfl⟩
  | succ n ih =>
    have hw := ih fun t hr ht => hidle t hr (by omega)
    exact hw.step (paced_after _ _ _ _ _ n) fun hn => hidle (n + 1) (by omega) (Nat.le_refl _)

private theorem Paced.core_step (h : Paced c n m)
    (hrise : ClockDivider.RisesAt c.general.clockDivider (n + 1)) :
    m.step.1.soc.core = (m.soc.core.clockEdge m.sampled).1 := by
  have hclocked : m.clocked.core = (m.soc.core.clockEdge m.sampled).1 := by
    simp only [clocked, h.coreClock, ClockDivider.after_step_eq_rising, hrise, if_true]
    rfl
  rw [m.steps_step.soc]
  split <;> exact hclocked

/-- Wires that settled with reset low carry the word at the program counter and its data. -/
private theorem Paced.sampled_settled (h : Paced c n m) (hlow : c.general.resetSteps.toNat < n) :
    m.sampled = m.soc.fetched
      (m.soc.bus.read (m.soc.core.outputs (m.soc.fetched 0)).effectiveAddress) := by
  obtain ⟨hw, hr⟩ := h.beginStep_wires hlow
  rw [sampled, hw]
  exact (h.settled (by omega)).inputs_eq hr

/-- Wires that settled under reset carry that word too, but the data at address zero. -/
private theorem Paced.sampled_released (h : Paced c n m) (hn : n = c.general.resetSteps.toNat)
    (hpos : 0 < n) : m.sampled = m.soc.fetched (m.soc.bus.read ⟨0⟩) := by
  have hset := h.settled hpos
  have hw : m.wires.reset = true := by
    rw [h.reset hpos]
    exact decide_eq_true (by omega)
  have hb : m.beginStep.wires.reset = false := by
    rw [h.beginStep_reset]
    exact decide_eq_false (by omega)
  have hd : m.wires.readData = m.soc.bus.read ⟨0⟩ := by
    have hread := congrArg Wires.readData hset
    simp only [Soc.settle, Soc.inputs, Core.outputs, hw, if_true,
      CoreOutputs.effectiveAddress_fetching] at hread
    exact hread.symm
  have hs : m.sampled =
      { reset := m.beginStep.wires.reset, instruction := m.wires.instruction,
        instructionValid := true, interruptFlag := m.soc.lines.flag,
        readData := m.wires.readData } := rfl
  rw [hs, hb, hd, hset.instruction]
  rfl

/-- What an edge commits when it samples the word at the entry point with some data word `d`. -/
private theorem commitsEntry_of_fetched {d : UInt32} (hw : Waiting entry memory m.soc)
    (hsam : m.sampled = m.soc.fetched d)
    (hedge : m.step.1.soc.core = (m.soc.core.clockEdge m.sampled).1) :
    CommitsEntry entry memory m ↔
      ∀ kind rd rs1 imm,
        Instruction.decode (memory.read (entry &&& deviceMask)) = .load kind rd rs1 imm → rd ≠ 0 →
        kind.extract (m.soc.core.reg rs1 + imm) d =
          kind.extract (m.soc.core.reg rs1 + imm)
            (m.soc.bus.read ⟨m.soc.core.reg rs1 + imm⟩) := by
  have hword := hw.fetch
  have hquiet : ¬ (m.soc.core.trapInputs m.sampled).Interrupted := by
    rw [hw.core]
    exact fun h => h.1 (show (0 : UInt32) &&& mieBit = 0 by decide)
  have hloaded : ∀ kind rd rs1 imm,
      Instruction.decode (memory.read (entry &&& deviceMask)) = .load kind rd rs1 imm → rd ≠ 0 →
      m.step.1.soc.core.reg rd = kind.extract (m.soc.core.reg rs1 + imm) d := by
    intro kind rd rs1 imm hd hne
    have hdec : Instruction.decode m.sampled.instruction = .load kind rd rs1 imm := by
      rw [hsam, ← hd, ← hword]
      rfl
    rw [hedge, Core.reg_clockEdge_of_load (by rw [hsam]; rfl) (by rw [hsam]; rfl) hdec hne hquiet,
      hsam]
    rfl
  constructor
  · intro h kind rd rs1 imm hd hne
    rw [← hloaded kind rd rs1 imm hd hne, h.load kind rd rs1 imm hd hne]
  · intro h
    refine ⟨hedge, by rw [hsam]; rfl, by rw [hsam, ← hword]; rfl, fun kind rd rs1 imm hd hne => ?_⟩
    rw [hloaded kind rd rs1 imm hd hne, h kind rd rs1 imm hd hne]

private theorem commitsEntry_of_settled (h : Paced c n m) (hlow : c.general.resetSteps.toNat < n)
    (hw : Waiting entry memory m.soc)
    (hedge : m.step.1.soc.core = (m.soc.core.clockEdge m.sampled).1) :
    CommitsEntry entry memory m := by
  rw [commitsEntry_of_fetched hw (h.sampled_settled hlow) hedge]
  intro kind rd rs1 imm hd _
  have hdec : Instruction.decode (m.soc.fetched 0).instruction = .load kind rd rs1 imm := by
    rw [← hd, ← hw.fetch]
    rfl
  rw [Core.effectiveAddress_of_load rfl rfl hdec]

/-- Wires that never settled carry the word zero, which is no instruction. -/
private theorem commitsEntry_unsettled {bus : Bus} {tracer : Option Waveform.Tracer}
    {image : Option Image} (hr : c.general.resetSteps.toNat = 0)
    (hm : m = ofParts (.powerOn entry) bus c tracer image)
    (hedge : m.step.1.soc.core = (m.soc.core.clockEdge m.sampled).1) :
    CommitsEntry entry memory m ↔ memory.read (entry &&& deviceMask) = 0 := by
  have hword : m.sampled.instruction = 0 := by rw [hm]; rfl
  have hreset : m.sampled.reset = false := by
    rw [hm]
    exact decide_eq_false (by show ¬ 1 ≤ c.general.resetSteps.toNat; omega)
  constructor
  · intro h
    rw [← h.word, hword]
  · intro h
    refine ⟨hedge, hreset, by rw [hword, h], fun kind rd rs1 imm hd _ => ?_⟩
    rw [h, show Instruction.decode 0 = .reserved by decide] at hd
    cases hd

/-- The first edge with reset low comes, and commits the word at the entry point with its own data
exactly if it does not fall on the step that releases reset, or if what it commits instead happens
to be the same: the data at address zero after a reset, the word zero without one. -/
theorem first_edge_commitsEntry_iff (entry : UInt32) (bus : Bus) (c : Config)
    (tracer : Option Waveform.Tracer) (image : Option Image)
    (hclock : c.general.clockDivider.toNat + 1 < 2 ^ 32) :
    ∃ n, c.general.resetSteps.toNat ≤ n ∧
      ClockDivider.RisesAt c.general.clockDivider (n + 1) ∧
      (∀ t, c.general.resetSteps.toNat < t → t ≤ n →
        ¬ ClockDivider.RisesAt c.general.clockDivider t) ∧
      let m := (ofParts (.powerOn entry) bus c tracer image).after n
      let word := bus.memory.read (entry &&& deviceMask)
      (CommitsEntry entry bus.memory m ↔
        (¬ ClockDivider.RisesAt c.general.clockDivider (c.general.resetSteps.toNat + 1)) ∨
        (0 < c.general.resetSteps.toNat ∧ ∀ kind rd rs1 imm,
          Instruction.decode word = .load kind rd rs1 imm → rd ≠ 0 →
          kind.extract (m.soc.core.reg rs1 + imm) (m.soc.bus.read ⟨0⟩) =
            kind.extract (m.soc.core.reg rs1 + imm)
              (m.soc.bus.read ⟨m.soc.core.reg rs1 + imm⟩)) ∨
        (c.general.resetSteps.toNat = 0 ∧ word = 0)) := by
  obtain ⟨s, hs, hrise, hfirst⟩ := ClockDivider.exists_first_rise hclock
    c.general.resetSteps.toNat
  obtain ⟨n, rfl⟩ : ∃ n, s = n + 1 := ⟨s - 1, by omega⟩
  have hidle : ∀ t, c.general.resetSteps.toNat < t → t ≤ n →
      ¬ ClockDivider.RisesAt c.general.clockDivider t :=
    fun t hr ht => hfirst t hr (by omega)
  refine ⟨n, by omega, hrise, hidle, ?_⟩
  intro m word
  have hp : Paced c n m := paced_after _ _ _ _ _ n
  have hw : Waiting entry bus.memory m.soc := waiting_after bus tracer image hidle
  have hedge : m.step.1.soc.core = (m.soc.core.clockEdge m.sampled).1 := hp.core_step hrise
  rcases Nat.lt_or_eq_of_le (Nat.le_of_lt_succ hs) with hlt | heq
  · exact iff_of_true (commitsEntry_of_settled hp hlt hw hedge)
      (Or.inl (hidle _ (Nat.lt_succ_self _) hlt))
  · have hrel : ClockDivider.RisesAt c.general.clockDivider
        (c.general.resetSteps.toNat + 1) := heq ▸ hrise
    rcases Nat.eq_zero_or_pos n with hzero | hpos
    · have hr : c.general.resetSteps.toNat = 0 := heq.trans hzero
      have hm : m = ofParts (.powerOn entry) bus c tracer image := by
        simp only [m, hzero, after]
      rw [commitsEntry_unsettled hr hm hedge]
      constructor
      · exact fun h => Or.inr (Or.inr ⟨hr, h⟩)
      · rintro (h | ⟨h, -⟩ | ⟨-, h⟩)
        · exact absurd hrel h
        · exact absurd hr (Nat.ne_of_gt h)
        · exact h
    · have hr : 0 < c.general.resetSteps.toNat := heq ▸ hpos
      rw [commitsEntry_of_fetched hw (hp.sampled_released heq.symm hpos) hedge]
      constructor
      · exact fun h => Or.inr (Or.inl ⟨hr, h⟩)
      · rintro (h | ⟨-, h⟩ | ⟨h, -⟩)
        · exact absurd hrel h
        · exact h
        · exact absurd h (Nat.ne_of_gt hr)

/-- The words 7 and 42, and above them a load of 42. -/
def misread : Memory :=
  ⟨#[7, 42, 0x00402083, 0]⟩

/-- With the standard clock the first edge with reset low is the one on step six, and its load gets
42. -/
theorem first_edge_standard :
    Config.standard.general.clockDivider.toNat + 1 < 2 ^ 32 ∧
      CommitsEntry 8 (standardBus .standard misread).memory
        ((ofParts (.powerOn 8) (standardBus .standard misread) .standard none none).after 5) := by
  have hclock : Config.standard.general.clockDivider.toNat + 1 < 2 ^ 32 := by decide
  obtain ⟨n, hn, hrise, hidle, hcommits⟩ := first_edge_commitsEntry_iff 8
    (standardBus .standard misread) .standard none none hclock
  have hreset : Config.standard.general.resetSteps.toNat = 2 := rfl
  rw [hreset] at hn hidle
  have hfive : n = 5 := by
    have hsixth : ClockDivider.RisesAt Config.standard.general.clockDivider 6 := by decide
    have hnone : ∀ k < 5, 2 ≤ k →
        ¬ ClockDivider.RisesAt Config.standard.general.clockDivider (k + 1) := by decide
    have hle : n ≤ 5 := Nat.le_of_not_lt fun h => hidle 6 (by decide) h hsixth
    exact Nat.le_antisymm hle (Nat.le_of_not_lt fun h => hnone n h hn hrise)
  rw [hfive] at hcommits
  exact ⟨hclock, hcommits.mpr (.inl (by decide))⟩

/-- An edge on every step, the third of them with reset low. -/
def hasty : Config :=
  let general := Config.standard.general
  { Config.standard with
    general := { general with clockDivider := 0, resetSteps := 2, entryPoint := 8 } }

/-- The load on the third step gets 7. -/
theorem first_edge_misread :
    ClockDivider.RisesAt hasty.general.clockDivider (hasty.general.resetSteps.toNat + 1) ∧
      ¬ CommitsEntry 8 misread
        ((ofParts (.powerOn 8) (standardBus hasty misread) hasty none none).after 2) := by
  refine ⟨by decide, fun h => ?_⟩
  have hload := h.load .word 1 0 4 (by decide) (by decide)
  revert hload
  decide +kernel

end Machine

end RiscvSoc
