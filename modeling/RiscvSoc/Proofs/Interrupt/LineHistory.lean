import Mathlib.Data.List.Induction
import RiscvSoc.Interrupt.Lines

namespace RiscvSoc

/-- A list has an entry that `f` makes of something good, with nothing after it that spoils it: with
one more entry at the end, this is that entry itself, or it was there already and is not spoilt. -/
theorem exists_unspoilt_concat_iff {α ι : Type} {f : ι → α} {good : List α → ι → Prop}
    {harmless : α → Prop} {l : List α} {e : α} :
    (∃ before i after, l ++ [e] = before ++ f i :: after ∧ good before i ∧
        ∀ x ∈ after, harmless x) ↔
      (∃ i, f i = e ∧ good l i) ∨
        (∃ before i after, l = before ++ f i :: after ∧ good before i ∧ ∀ x ∈ after, harmless x) ∧
          harmless e := by
  constructor
  · rintro ⟨before, i, after, h, hgood, hafter⟩
    rcases List.eq_nil_or_concat after with rfl | ⟨after, last, rfl⟩
    · obtain ⟨rfl, hlast⟩ := List.append_inj' h rfl
      exact .inl ⟨i, (List.cons.inj hlast).1.symm, hgood⟩
    · rw [List.concat_eq_append] at *
      rw [← List.cons_append, ← List.append_assoc] at h
      obtain ⟨hl, hlast⟩ := List.append_inj' h rfl
      cases hlast
      refine .inr ⟨⟨before, i, after, hl, hgood, fun x hx => hafter x ?_⟩, hafter e ?_⟩
      · exact List.mem_append_left _ hx
      · exact List.mem_append_right _ (List.mem_singleton_self e)
  · rintro (⟨i, rfl, hgood⟩ | ⟨⟨before, i, after, rfl, hgood, hafter⟩, he⟩)
    · exact ⟨l, i, [], rfl, hgood, fun _ hx => absurd hx List.not_mem_nil⟩
    · refine ⟨before, i, after ++ [e], by simp, hgood, fun x hx => ?_⟩
      rcases List.mem_append.mp hx with hx | hx
      · exact hafter x hx
      · rwa [List.mem_singleton.mp hx]

namespace InterruptLines

inductive Event where
  | sample (signals : List IrqSignal)
  | acknowledge (source : InterruptSource)
  | force (mask : UInt32)

def act (l : InterruptLines) : Event → InterruptLines
  | .sample signals => l.sample signals
  | .acknowledge source => l.acknowledge source
  | .force mask => l.force mask

namespace Event

def signals? : Event → Option (List IrqSignal)
  | .sample signals => some signals
  | _ => none

def mask? : Event → Option UInt32
  | .force mask => some mask
  | _ => none

/-- The core has taken the source of line `b`. -/
def Clears (b : Nat) (e : Event) : Prop :=
  ∃ source, e = .acknowledge source ∧ source.flag.toNat.testBit b = true

/-- The event without the signals on lines outside the flag vector. -/
def confined : Event → Event
  | .sample signals => .sample (signals.filter (·.line < 32))
  | e => e

end Event

def lastSample? (history : List Event) : Option (List IrqSignal) :=
  (history.filterMap Event.signals?).getLast?

def lastMask? (history : List Event) : Option UInt32 :=
  (history.filterMap Event.mask?).getLast?

def Asserts (signals : List IrqSignal) (b : Nat) : Prop :=
  ∃ s ∈ signals, s.asserted = true ∧ s.line = b

def AssertsBy (trigger : Trigger) (signals : List IrqSignal) (b : Nat) : Prop :=
  ∃ s ∈ signals, s.trigger = trigger ∧ s.asserted = true ∧ s.line = b

/-- Line `b` rose with an edge signal, from a sample in which it was low, and the core has not taken
its source since. -/
def Latched (history : List Event) (b : Nat) : Prop :=
  ∃ before signals after, history = before ++ .sample signals :: after ∧
    (AssertsBy .edge signals b ∧ ∀ earlier ∈ lastSample? before, ¬ Asserts earlier b) ∧
    ∀ e ∈ after, ¬ e.Clears b

theorem lastSample?_concat (history : List Event) (e : Event) :
    lastSample? (history ++ [e]) = e.signals?.or (lastSample? history) := by
  rw [lastSample?, List.filterMap_append, List.getLast?_append]
  cases e <;> rfl

theorem lastMask?_concat (history : List Event) (e : Event) :
    lastMask? (history ++ [e]) = e.mask?.or (lastMask? history) := by
  rw [lastMask?, List.filterMap_append, List.getLast?_append]
  cases e <;> rfl

theorem latched_concat_iff {history : List Event} {e : Event} {b : Nat} :
    Latched (history ++ [e]) b ↔
      (∃ signals, .sample signals = e ∧ AssertsBy .edge signals b ∧
        ∀ earlier ∈ lastSample? history, ¬ Asserts earlier b) ∨
      Latched history b ∧ ¬ e.Clears b :=
  exists_unspoilt_concat_iff

variable {b : Nat}

theorem testBit_not (x : UInt32) (hb : b < 32) : (~~~x).toNat.testBit b = !x.toNat.testBit b := by
  have hnot := BitVec.getLsbD_not (x := x.toBitVec) (i := b)
  rwa [decide_eq_true hb, Bool.true_and] at hnot

theorem and_flag_ne_zero_iff (lines : UInt32) (source : InterruptSource) :
    lines &&& source.flag ≠ 0 ↔ lines.toNat.testBit source.line = true := by
  have hflag : source.flag.toBitVec = BitVec.twoPow 32 source.line := by cases source <;> decide
  have hzero : BitVec.twoPow 32 source.line ≠ 0#32 := by cases source <;> decide
  have hbit : lines.toNat.testBit source.line = lines.toBitVec.getLsbD source.line := rfl
  rw [hbit, ne_eq, ← UInt32.toBitVec_inj, UInt32.toBitVec_and, hflag, BitVec.and_twoPow]
  by_cases h : lines.toBitVec.getLsbD source.line = true
  · rw [if_pos h]
    exact iff_of_true hzero h
  · rw [if_neg h]
    exact iff_of_false (not_not_intro rfl) h

theorem testBit_bit (hb : b < 32) (s : IrqSignal) :
    s.bit.toNat.testBit b = true ↔ s.asserted = true ∧ s.line = b := by
  by_cases h : s.asserted = true ∧ s.line < 32
  · have hwrap : s.line.toUInt32.toNat % 32 = s.line := by
      rw [Nat.toUInt32_eq, UInt32.toNat_ofNat']
      omega
    have hline : (1 <<< s.line.toUInt32 : UInt32).toNat = 2 ^ s.line := by
      have hlt : 2 ^ s.line < 2 ^ 32 := Nat.pow_lt_pow_right (by decide) h.2
      rw [UInt32.toNat_shiftLeft, hwrap, UInt32.toNat_one, Nat.one_shiftLeft, Nat.mod_eq_of_lt hlt]
    rw [IrqSignal.bit, h.1, decide_eq_true h.2, Bool.true_and, if_pos rfl, hline,
      Nat.testBit_two_pow, decide_eq_true_iff]
    exact (and_iff_right rfl).symm
  · have hzero : s.bit = 0 := by
      rw [IrqSignal.bit, if_neg]
      rwa [Bool.and_eq_true, decide_eq_true_iff]
    rw [hzero, UInt32.toNat_zero, Nat.zero_testBit]
    refine iff_of_false Bool.false_ne_true ?_
    rintro ⟨hasserted, rfl⟩
    exact h ⟨hasserted, hb⟩

theorem testBit_asserted (hb : b < 32) (signals : List IrqSignal) :
    (asserted signals).toNat.testBit b = true ↔ Asserts signals b := by
  have hfold : ∀ acc : UInt32,
      (signals.foldl (fun acc s => acc ||| s.bit) acc).toNat.testBit b = true ↔
        acc.toNat.testBit b = true ∨ Asserts signals b := by
    induction signals with
    | nil => simp [Asserts]
    | cons s signals ih =>
      intro acc
      rw [List.foldl_cons, ih, UInt32.toNat_or, Nat.testBit_or, Bool.or_eq_true, testBit_bit hb,
        or_assoc]
      simp only [Asserts, List.mem_cons, exists_eq_or_imp]
  have hzero : ¬ (0 : UInt32).toNat.testBit b = true := by simp
  rw [asserted, hfold, or_iff_right hzero]

theorem testBit_assertedBy (hb : b < 32) (trigger : Trigger) (signals : List IrqSignal) :
    (assertedBy trigger signals).toNat.testBit b = true ↔ AssertsBy trigger signals b := by
  rw [assertedBy, testBit_asserted hb]
  simp only [Asserts, AssertsBy, List.mem_filter, decide_eq_true_iff, and_assoc]

/-- What the lines keep of line `b` is what the history says. -/
structure Reflects (b : Nat) (history : List Event) (l : InterruptLines) : Prop where
  level : l.level.toNat.testBit b = true ↔
    ∃ signals ∈ lastSample? history, AssertsBy .level signals b
  previous : l.previous.toNat.testBit b = true ↔ ∃ signals ∈ lastSample? history, Asserts signals b
  latched : l.latched.toNat.testBit b = true ↔ Latched history b
  forced : l.forced.toNat.testBit b = true ↔
    ∃ mask ∈ lastMask? history, mask.toNat.testBit b = true

theorem reflects_idle (b : Nat) : Reflects b [] idle := by
  have hzero : ¬ (0 : UInt32).toNat.testBit b = true := by simp
  refine ⟨iff_of_false hzero ?_, iff_of_false hzero ?_, iff_of_false hzero ?_,
    iff_of_false hzero ?_⟩
  · exact fun ⟨_, h, _⟩ => Option.not_mem_none _ h
  · exact fun ⟨_, h, _⟩ => Option.not_mem_none _ h
  · rintro ⟨before, signals, after, h, _⟩
    exact absurd h.symm (List.append_ne_nil_of_right_ne_nil _ (List.cons_ne_nil _ _))
  · exact fun ⟨_, h, _⟩ => Option.not_mem_none _ h

variable {history : List Event} {l : InterruptLines}

theorem Reflects.sample (h : Reflects b history l) (hb : b < 32) (signals : List IrqSignal) :
    Reflects b (history ++ [.sample signals]) (l.sample signals) := by
  have hlast : lastSample? (history ++ [.sample signals]) = some signals := by
    rw [lastSample?_concat]
    rfl
  refine ⟨?_, ?_, ?_, ?_⟩
  · rw [hlast, InterruptLines.sample, testBit_assertedBy hb]
    simp
  · rw [hlast, InterruptLines.sample, testBit_asserted hb]
    simp
  · have hlow : l.previous.toNat.testBit b = false ↔
        ∀ earlier ∈ lastSample? history, ¬ Asserts earlier b := by
      rw [← Bool.not_eq_true, h.previous]
      simp only [not_exists, not_and]
    rw [latched_concat_iff, InterruptLines.sample, UInt32.toNat_or, Nat.testBit_or,
      UInt32.toNat_and, Nat.testBit_and, testBit_not _ hb, Bool.or_eq_true, h.latched,
      Bool.and_eq_true, testBit_assertedBy hb, Bool.not_eq_true', hlow, or_comm]
    simp [Event.Clears]
  · rw [lastMask?_concat]
    exact h.forced

theorem Reflects.acknowledge (h : Reflects b history l) (hb : b < 32) (source : InterruptSource) :
    Reflects b (history ++ [.acknowledge source]) (l.acknowledge source) := by
  refine ⟨?_, ?_, ?_, ?_⟩
  · rw [lastSample?_concat]
    exact h.level
  · rw [lastSample?_concat]
    exact h.previous
  · rw [latched_concat_iff, InterruptLines.acknowledge, UInt32.toNat_and, Nat.testBit_and,
      testBit_not _ hb, Bool.and_eq_true, h.latched]
    simp [Event.Clears]
  · rw [lastMask?_concat]
    exact h.forced

theorem Reflects.force (h : Reflects b history l) (mask : UInt32) :
    Reflects b (history ++ [.force mask]) (l.force mask) := by
  refine ⟨?_, ?_, ?_, ?_⟩
  · rw [lastSample?_concat]
    exact h.level
  · rw [lastSample?_concat]
    exact h.previous
  · rw [latched_concat_iff]
    simp [Event.Clears, InterruptLines.force, h.latched]
  · rw [lastMask?_concat]
    simp [Event.mask?, InterruptLines.force]

theorem reflects_foldl (hb : b < 32) (history : List Event) :
    Reflects b history (history.foldl act idle) := by
  induction history using List.reverseRecOn with
  | nil => exact reflects_idle b
  | append_singleton history e ih =>
    rw [List.foldl_append, List.foldl_cons, List.foldl_nil]
    cases e with
    | sample signals => exact ih.sample hb signals
    | acknowledge source => exact ih.acknowledge hb source
    | force mask => exact ih.force mask

theorem asserted_filter_line (signals : List IrqSignal) :
    asserted (signals.filter (·.line < 32)) = asserted signals := by
  have hbit : ∀ (acc : UInt32) (s : IrqSignal), ¬ s.line < 32 → acc ||| s.bit = acc := by
    intro acc s hs
    rw [IrqSignal.bit, decide_eq_false hs, Bool.and_false, if_neg Bool.false_ne_true,
      UInt32.or_zero]
  rw [asserted, asserted]
  generalize (0 : UInt32) = acc
  induction signals generalizing acc with
  | nil => rfl
  | cons s signals ih =>
    by_cases hs : s.line < 32
    · rw [List.filter_cons, if_pos (decide_eq_true hs), List.foldl_cons, List.foldl_cons, ih]
    · rw [List.filter_cons, decide_eq_false hs, if_neg Bool.false_ne_true, List.foldl_cons,
        hbit acc s hs, ih]

theorem act_confined (l : InterruptLines) (e : Event) : l.act e.confined = l.act e := by
  cases e with
  | sample signals =>
    have htrigger : ∀ trigger, assertedBy trigger (signals.filter (·.line < 32)) =
        assertedBy trigger signals := by
      intro trigger
      rw [assertedBy, assertedBy, ← asserted_filter_line (signals.filter (·.trigger = trigger)),
        List.filter_filter, List.filter_filter]
      simp only [Bool.and_comm]
    simp only [Event.confined, act, InterruptLines.sample, htrigger, asserted_filter_line]
  | acknowledge source => rfl
  | force mask => rfl

/-- After any samples, acknowledges and forces, a bit of the flag vector is set exactly if the last
sample asserts a level signal on its line, or a sample asserts an edge signal on it that the sample
before did not assert with either trigger, and no acknowledge of its source follows, or the last
force mask has it. Signals on lines outside the vector change nothing at all. -/
theorem flag_reflects_history (history : List Event) :
    let l := history.foldl act idle
    (∀ b : Fin 32, l.flag.toNat.testBit b = true ↔
      (∃ signals ∈ lastSample? history, AssertsBy .level signals b) ∨
      (∃ before signals after, history = before ++ .sample signals :: after ∧
        (AssertsBy .edge signals b ∧ ∀ earlier ∈ lastSample? before, ¬ Asserts earlier b) ∧
        ∀ e ∈ after, ¬ e.Clears b) ∨
      ∃ mask ∈ lastMask? history, mask.toNat.testBit b = true) ∧
    (history.map Event.confined).foldl act idle = l := by
  intro l
  constructor
  · intro b
    have h := reflects_foldl b.isLt history
    rw [flag, UInt32.toNat_or, UInt32.toNat_or, Nat.testBit_or, Nat.testBit_or, Bool.or_eq_true,
      Bool.or_eq_true, h.level, h.latched, h.forced, or_assoc]
    rfl
  · rw [List.foldl_map]
    simp only [act_confined]
    rfl

/-- An edge signal that is held does not latch a second time. -/
example :
    let held : IrqSignal := { line := 1, trigger := .edge, asserted := true }
    ([Event.sample [held], .acknowledge .external, .sample [held]].foldl act idle).flag = 0 := by
  decide

end InterruptLines

end RiscvSoc
