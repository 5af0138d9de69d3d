import RiscvSoc.Json

/-! The grammar of JSON text, apart from the reader. Blanks may stand around every value and every
name, a string may escape any of its characters in any of the ways there are, and the members of an
object come in any order. -/

namespace RiscvSoc.Json

def Blank (cs : List Char) : Prop :=
  ∀ c ∈ cs, isBlank c = true

theorem blank_nil : Blank [] := nofun

def Digits (cs : List Char) : Prop :=
  cs ≠ [] ∧ ∀ c ∈ cs, c.isDigit = true

inductive SpellsFraction : Bool → List Char → Prop
  | missing : SpellsFraction false []
  | given {digits : List Char} (h : Digits digits) : SpellsFraction true ('.' :: digits)

inductive SpellsExponent : Bool → List Char → Prop
  | missing : SpellsExponent false []
  | given {mark : Char} {sign digits : List Char} (hmark : mark = 'e' ∨ mark = 'E')
      (hsign : sign = [] ∨ sign = ['+'] ∨ sign = ['-']) (h : Digits digits) :
      SpellsExponent true (mark :: (sign ++ digits))

inductive SpellsUnits : List TextUnit → List Char → Prop
  | nil : SpellsUnits [] []
  | char {c : Char} {units : List TextUnit} {cs : List Char} (hcontrol : 0x20 ≤ c.toNat)
      (hquote : c ≠ '"') (hescape : c ≠ '\\') (h : SpellsUnits units cs) :
      SpellsUnits (.char c :: units) (c :: cs)
  | escape {e c : Char} {units : List TextUnit} {cs : List Char} (he : simpleEscape? e = some c)
      (h : SpellsUnits units cs) : SpellsUnits (.char c :: units) ('\\' :: e :: cs)
  | code {n : Nat} {digits : List Char} {units : List TextUnit} {cs : List Char}
      (hlength : digits.length = 4) (hn : Hex.value? digits = some n) (h : SpellsUnits units cs) :
      SpellsUnits (.code n :: units) ('\\' :: 'u' :: (digits ++ cs))

/-- The text of units. A code is a character of its own, unless it is half of a surrogate pair. -/
inductive Denotes : List TextUnit → List Char → Prop
  | nil : Denotes [] []
  | char {c : Char} {units : List TextUnit} {cs : List Char} (h : Denotes units cs) :
      Denotes (.char c :: units) (c :: cs)
  | code {n : Nat} {units : List TextUnit} {cs : List Char} (hhigh : isHighSurrogate n = false)
      (hlow : isLowSurrogate n = false) (h : Denotes units cs) :
      Denotes (.code n :: units) (Char.ofNat n :: cs)
  | pair {high low : Nat} {units : List TextUnit} {cs : List Char}
      (hhigh : isHighSurrogate high = true) (hlow : isLowSurrogate low = true)
      (h : Denotes units cs) :
      Denotes (.code high :: .code low :: units)
        (Char.ofNat (0x10000 + (high - 0xD800) * 0x400 + (low - 0xDC00)) :: cs)

/-- A string between its quotes. It has a text if its units have one. -/
def SpellsString (text : Option String) (cs : List Char) : Prop :=
  ∃ units, SpellsUnits units cs ∧ ∀ t : String, text = some t ↔ Denotes units t.toList

/-- A value, the items of an array, or the members of an object. -/
inductive Part where
  | value (j : Json)
  | items (items : List Json)
  | members (members : List (Option String × Json))

inductive Spells : Part → List Char → Prop
  | null : Spells (.value .null) ['n', 'u', 'l', 'l']
  | true : Spells (.value (.bool true)) ['t', 'r', 'u', 'e']
  | false : Spells (.value (.bool false)) ['f', 'a', 'l', 's', 'e']
  | number {n : Nat} {negative fraction exponent : Bool} {fs es : List Char}
      (hfraction : SpellsFraction fraction fs) (hexponent : SpellsExponent exponent es) :
      Spells (.value (if negative || fraction || exponent then .otherNumber else .natural n))
        ((if negative then ['-'] else []) ++ (Nat.toDigits 10 n ++ (fs ++ es)))
  | string {text : Option String} {cs : List Char} (h : SpellsString text cs) :
      Spells (.value (.string text)) ('"' :: (cs ++ ['"']))
  | emptyArray {b : List Char} (hb : Blank b) : Spells (.value (.array [])) ('[' :: (b ++ [']']))
  | array {js : List Json} {cs : List Char} (h : Spells (.items js) cs) :
      Spells (.value (.array js)) ('[' :: (cs ++ [']']))
  | emptyObject {b : List Char} (hb : Blank b) :
      Spells (.value (.object [])) ('\x7b' :: (b ++ ['\x7d']))
  | object {ms : List (Option String × Json)} {cs : List Char} (h : Spells (.members ms) cs) :
      Spells (.value (.object ms)) ('\x7b' :: (cs ++ ['\x7d']))
  | padded {j : Json} {a b cs : List Char} (ha : Blank a) (hb : Blank b)
      (h : Spells (.value j) cs) : Spells (.value j) (a ++ (cs ++ b))
  | lastItem {j : Json} {cs : List Char} (h : Spells (.value j) cs) : Spells (.items [j]) cs
  | item {j : Json} {js : List Json} {cs ds : List Char} (h : Spells (.value j) cs)
      (hs : Spells (.items js) ds) : Spells (.items (j :: js)) (cs ++ ',' :: ds)
  | lastMember {key : Option String} {j : Json} {a ks b cs : List Char} (ha : Blank a)
      (hkey : SpellsString key ks) (hb : Blank b) (h : Spells (.value j) cs) :
      Spells (.members [(key, j)]) (a ++ '"' :: (ks ++ '"' :: (b ++ ':' :: cs)))
  | member {key : Option String} {j : Json} {ms : List (Option String × Json)}
      {a ks b cs ds : List Char} (ha : Blank a) (hkey : SpellsString key ks) (hb : Blank b)
      (h : Spells (.value j) cs) (hs : Spells (.members ms) ds) :
      Spells (.members ((key, j) :: ms))
        (a ++ '"' :: (ks ++ '"' :: (b ++ ':' :: (cs ++ ',' :: ds))))

/-- A text of a value and nothing else. -/
def SpelledBy (j : Json) (text : String) : Prop :=
  Spells (.value j) text.toList

end RiscvSoc.Json
