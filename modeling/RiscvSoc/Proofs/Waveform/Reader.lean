import Mathlib.Algebra.Group.Nat.Defs
import Mathlib.Data.List.Forall2
import RiscvSoc.Proofs.Text.Numeral
import RiscvSoc.Proofs.Waveform.Identifier
import RiscvSoc.Waveform.Dump

/-! A reader of value change dumps that knows nothing but the text. It reads line by line: lines that
declare a signal, lines with a time, and lines with a value; the lines with other keywords only frame
them. Playing the changes up to a time back gives the value that each signal has then. -/

namespace RiscvSoc.Waveform

/-- The number that digits of a base denote, of which there must be some. -/
def number? (base : Nat) (digits : List Char) : Option Nat :=
  if digits.isEmpty then none
  else digits.foldlM (fun n c => (Numeral.digit? base c).map (base * n + ·)) 0

structure Declaration where
  id : String
  width : Nat
  name : String
  deriving DecidableEq

structure Change where
  id : String
  value : Nat
  deriving DecidableEq

inductive Line where
  | declaration (d : Declaration)
  | time (time : Nat)
  | change (c : Change)
  | other
  deriving DecidableEq

def Line.ofChars? : List Char → Option Line
  | [] => some .other
  | '#' :: digits => (number? 10 digits).map .time
  | '0' :: id => some (.change ⟨String.ofList id, 0⟩)
  | '1' :: id => some (.change ⟨String.ofList id, 1⟩)
  | 'b' :: vector =>
    match vector.splitOn ' ' with
    | [digits, id] => (number? 2 digits).map fun value => .change ⟨String.ofList id, value⟩
    | _ => none
  | '$' :: command =>
    match (command.splitOn ' ').map String.ofList with
    | ["var", "wire", width, id, name, "$end"] =>
      (number? 10 width.toList).map fun width => .declaration { id, width, name }
    | "var" :: _ => none
    | _ => some .other
  | _ => none

def lines? (text : List Char) : Option (List Line) :=
  (text.splitOn '\n').mapM Line.ofChars?

structure Section where
  time : Nat
  changes : List Change
  deriving DecidableEq

/-- The changes in front of the next line with a time. -/
def changesBefore : List Line → List Change
  | [] => []
  | .time _ :: _ => []
  | .change c :: lines => c :: changesBefore lines
  | _ :: lines => changesBefore lines

/-- Each time with the changes that follow it. -/
def sections : List Line → List Section
  | [] => []
  | .time time :: lines => ⟨time, changesBefore lines⟩ :: sections lines
  | _ :: lines => sections lines

def declarations (lines : List Line) : List Declaration :=
  lines.filterMap fun
    | .declaration d => some d
    | _ => none

structure Dump where
  declared : List Declaration
  sections : List Section
  deriving DecidableEq

/-- Reads a dump, in which no change comes in front of the first time. -/
def read? (text : String) : Option Dump :=
  ((lines? text.toList).filter (changesBefore · = [])).map fun lines =>
    ⟨declarations lines, sections lines⟩

/-- The value of the signal with an identifier after some changes. -/
def replay (id : String) (value : Option Nat) (changes : List Change) : Option Nat :=
  changes.foldl (fun value c => if c.id = id then some c.value else value) value

def Dump.valueAt (d : Dump) (id : String) (time : Nat) : Option Nat :=
  replay id none ((d.sections.filter (·.time ≤ time)).flatMap (·.changes))

def Section.lines (s : Section) : List Line :=
  .time s.time :: s.changes.map .change

theorem changesBefore_append (changes : List Change) (lines : List Line) :
    changesBefore (changes.map .change ++ lines) = changes ++ changesBefore lines := by
  induction changes with
  | nil => rfl
  | cons c changes ih => rw [List.map_cons, List.cons_append, changesBefore, ih, List.cons_append]

theorem sections_changes (changes : List Change) (lines : List Line) :
    sections (changes.map .change ++ lines) = sections lines := by
  induction changes with
  | nil => rfl
  | cons c changes ih => exact ih

theorem changesBefore_declarations (ds : List Declaration) (lines : List Line) :
    changesBefore (ds.map .declaration ++ lines) = changesBefore lines := by
  induction ds with
  | nil => rfl
  | cons d ds ih => exact ih

theorem sections_declarations (ds : List Declaration) (lines : List Line) :
    sections (ds.map .declaration ++ lines) = sections lines := by
  induction ds with
  | nil => rfl
  | cons d ds ih => exact ih

theorem changesBefore_sections (secs : List Section) :
    changesBefore (secs.flatMap Section.lines ++ [.other]) = [] := by
  cases secs <;> rfl

theorem sections_sections (secs : List Section) :
    sections (secs.flatMap Section.lines ++ [.other]) = secs := by
  induction secs with
  | nil => rfl
  | cons s secs ih =>
    rw [List.flatMap_cons, Section.lines, List.cons_append, List.cons_append, List.append_assoc,
      sections, changesBefore_append, changesBefore_sections, List.append_nil, sections_changes, ih]

theorem declarations_append (lines lines' : List Line) :
    declarations (lines ++ lines') = declarations lines ++ declarations lines' :=
  List.filterMap_append

theorem declarations_changes (changes : List Change) : declarations (changes.map .change) = [] := by
  simp [declarations]

theorem declarations_sections (secs : List Section) :
    declarations (secs.flatMap Section.lines ++ [.other]) = [] := by
  induction secs with
  | nil => rfl
  | cons s secs ih =>
    rw [List.flatMap_cons, List.append_assoc, declarations_append, ih, List.append_nil]
    exact declarations_changes s.changes

theorem declarations_map (ds : List Declaration) : declarations (ds.map .declaration) = ds := by
  simp [declarations]

theorem number?_toDigits {base : Nat} (hlow : 1 < base) (hhigh : base ≤ 16) (n : Nat) :
    number? base (Nat.toDigits base n) = some n := by
  have hvalue := Numeral.valueFrom?_toDigits hlow hhigh n
  simp only [Numeral.valueFrom?, Nat.mul_comm _ base] at hvalue
  rw [number?, if_neg (mt List.isEmpty_iff.mp Nat.toDigits_ne_nil), hvalue]

theorem not_mem_toDigits {base : Nat} {c : Char} (hlow : 0 < base) (hhigh : base ≤ 10)
    (hc : c.isDigit = false) (n : Nat) : c ∉ Nat.toDigits base n := fun h =>
  Bool.false_ne_true (hc.symm.trans (Nat.isDigit_of_mem_toDigits hlow hhigh h))

/-- The text reads as the lines, whatever follows it. -/
def Spells (text : String) (lines : List Line) : Prop :=
  ∀ rest, lines? (text.toList ++ rest) = (lines? rest).map (lines ++ ·)

namespace Spells

variable {text text' : String} {lines lines' : List Line}

theorem empty : Spells "" [] := by
  intro rest
  simp

theorem line {line : Line} (chars : List Char) (htext : text.toList = chars ++ ['\n'])
    (hbreak : '\n' ∉ chars) (hline : Line.ofChars? chars = some line) : Spells text [line] := by
  intro rest
  rw [htext, List.append_assoc, List.singleton_append, lines?, lines?,
    List.splitOn_append_cons_self_of_not_mem hbreak, List.mapM_cons, hline]
  cases (rest.splitOn '\n').mapM Line.ofChars? <;> rfl

theorem append (h : Spells text lines) (h' : Spells text' lines') :
    Spells (text ++ text') (lines ++ lines') := by
  intro rest
  rw [String.toList_append, List.append_assoc, h, h', Option.map_map]
  congr 1
  funext tail
  exact (List.append_assoc lines lines' tail).symm

theorem join {texts : List String} (h : List.Forall₂ (fun t l => Spells t [l]) texts lines) :
    Spells (String.join texts) lines := by
  induction h with
  | nil => exact empty
  | cons hfirst _ ih =>
    rw [String.join_cons]
    exact hfirst.append ih

theorem ofLines {chunks : List (String × Line)}
    (htext : text.toList = chunks.flatMap fun c => c.1.toList ++ ['\n'])
    (hlines : ∀ c ∈ chunks, '\n' ∉ c.1.toList ∧ Line.ofChars? c.1.toList = some c.2) :
    Spells text (chunks.map Prod.snd) := by
  have hjoin : text = String.join (chunks.map fun c => c.1 ++ "\n") := by
    apply String.toList_injective
    rw [htext, String.toList_join, List.flatMap_map]
    simp
  rw [hjoin]
  refine join ?_
  rw [List.forall₂_map_left_iff, List.forall₂_map_right_iff, List.forall₂_same]
  intro c hc
  exact line c.1.toList (by simp) (hlines c hc).1 (hlines c hc).2

/-- The empty line behind the last line break is all that is left to read. -/
theorem lines?_eq (h : Spells text lines) : lines? text.toList = some (lines ++ [.other]) := by
  have hall := h []
  rwa [List.append_nil] at hall

end Spells

theorem spells_timeLine (time : Nat) : Spells (timeLine time) [.time time] := by
  have hdigits : '\n' ∉ Nat.toDigits 10 time :=
    not_mem_toDigits (by decide) (by decide) rfl time
  refine .line ('#' :: Nat.toDigits 10 time) ?_ ?_ ?_
  · simp [timeLine]
  · simpa using hdigits
  · rw [Line.ofChars?, number?_toDigits (by decide) (by decide), Option.map_some]

theorem spells_valueLine {width value : Nat} (h : value < 2 ^ width) (index : Nat) :
    Spells (valueLine width value (identifier index)) [.change ⟨identifier index, value⟩] := by
  obtain ⟨hblank, hbreak⟩ := not_mem_identifierChars index
  rw [valueLine]
  split
  · rename_i hwidth
    rw [hwidth] at h
    obtain rfl | rfl : value = 0 ∨ value = 1 := by omega
    · refine .line ('0' :: identifierChars index) ?_ ?_ rfl
      · simp [identifier]
      · simpa using hbreak
    · refine .line ('1' :: identifierChars index) ?_ ?_ rfl
      · simp [identifier, show Nat.toDigits 10 1 = ['1'] from rfl]
      · simpa using hbreak
  · have hdigitsBlank : ' ' ∉ Nat.toDigits 2 value :=
      not_mem_toDigits (by decide) (by decide) rfl value
    have hdigitsBreak : '\n' ∉ Nat.toDigits 2 value :=
      not_mem_toDigits (by decide) (by decide) rfl value
    refine .line ('b' :: (Nat.toDigits 2 value ++ ' ' :: identifierChars index)) ?_ ?_ ?_
    · simp [identifier]
    · simp [hdigitsBreak, hbreak]
    · rw [Line.ofChars?, List.splitOn_append_cons_self_of_not_mem hdigitsBlank,
        List.splitOn_eq_singleton hblank]
      simp only [number?_toDigits (by decide : 1 < 2) (by decide) value, Option.map_some]
      rfl

/-- A declaration is read back, unless a blank or a line break tears the name apart. -/
theorem spells_declarationLine {s : Signal} (hblank : ' ' ∉ s.name.toList)
    (hbreak : '\n' ∉ s.name.toList) (index : Nat) :
    Spells (declarationLine index s) [.declaration ⟨identifier index, s.width, s.name⟩] := by
  obtain ⟨hidBlank, hidBreak⟩ := not_mem_identifierChars index
  have hdigitsBlank : ' ' ∉ Nat.toDigits 10 s.width :=
    not_mem_toDigits (by decide) (by decide) rfl s.width
  have hdigitsBreak : '\n' ∉ Nat.toDigits 10 s.width :=
    not_mem_toDigits (by decide) (by decide) rfl s.width
  let words := "var".toList ++ ' ' :: ("wire".toList ++ ' ' :: (Nat.toDigits 10 s.width ++
    ' ' :: (identifierChars index ++ ' ' :: (s.name.toList ++ ' ' :: "$end".toList))))
  have hwords : words.splitOn ' ' = ["var".toList, "wire".toList, Nat.toDigits 10 s.width,
      identifierChars index, s.name.toList, "$end".toList] := by
    rw [List.splitOn_append_cons_self_of_not_mem (by decide),
      List.splitOn_append_cons_self_of_not_mem (by decide),
      List.splitOn_append_cons_self_of_not_mem hdigitsBlank,
      List.splitOn_append_cons_self_of_not_mem hidBlank,
      List.splitOn_append_cons_self_of_not_mem hblank, List.splitOn_eq_singleton (by decide)]
  refine .line ('$' :: words) ?_ ?_ ?_
  · simp [declarationLine, identifier, words]
  · simp [words, hdigitsBreak, hidBreak, hbreak]
  · rw [Line.ofChars?, hwords]
    simp [number?_toDigits (by decide : 1 < 10) (by decide) s.width, identifier]

end RiscvSoc.Waveform
