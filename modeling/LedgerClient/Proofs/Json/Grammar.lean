import LedgerClient.Json.Skip

/-!
# The grammar of JSON

What a JSON text is, apart from how it is read. Each category of the grammar is a relation between
two texts: `Stands cs rest` says that a value stands at the beginning of `cs` and `rest` behind it.
`Holds` is said of a whole text that is a list or an object.
-/

namespace LedgerClient.Json

/-! ## Strings and numbers -/

def IsHexDigit (c : Char) : Prop := isDigit c ∨ 'a' ≤ c ∧ c ≤ 'f' ∨ 'A' ≤ c ∧ c ≤ 'F'

/-- The rest of a string behind its opening quote. -/
inductive Quoted : List Char → List Char → Prop
  | close {rest : List Char} : Quoted ('"' :: rest) rest
  | plain {c : Char} {cs rest : List Char} :
      c ≠ '"' → c ≠ '\\' → 0x20 ≤ c.toNat → Quoted cs rest → Quoted (c :: cs) rest
  | escape {c : Char} {cs rest : List Char} :
      c ∈ ['"', '\\', '/', 'b', 'f', 'n', 'r', 't'] → Quoted cs rest →
      Quoted ('\\' :: c :: cs) rest
  | unicode {a b c d : Char} {cs rest : List Char} :
      IsHexDigit a → IsHexDigit b → IsHexDigit c → IsHexDigit d → Quoted cs rest →
      Quoted ('\\' :: 'u' :: a :: b :: c :: d :: cs) rest

/-- One digit or more. -/
inductive Digits : List Char → List Char → Prop
  | last {c : Char} {rest : List Char} : isDigit c → Digits (c :: rest) rest
  | more {c : Char} {cs rest : List Char} : isDigit c → Digits cs rest → Digits (c :: cs) rest

/-- The digits left of the point: a single zero, or digits of which the first is none. -/
inductive Whole : List Char → List Char → Prop
  | zero {rest : List Char} : Whole ('0' :: rest) rest
  | digits {c : Char} {cs rest : List Char} : c ≠ '0' → Digits (c :: cs) rest → Whole (c :: cs) rest

inductive Fraction : List Char → List Char → Prop
  | missing {rest : List Char} : Fraction rest rest
  | point {cs rest : List Char} : Digits cs rest → Fraction ('.' :: cs) rest

inductive Exponent : List Char → List Char → Prop
  | missing {rest : List Char} : Exponent rest rest
  | plain {e : Char} {cs rest : List Char} :
      e = 'e' ∨ e = 'E' → Digits cs rest → Exponent (e :: cs) rest
  | signed {e sign : Char} {cs rest : List Char} :
      e = 'e' ∨ e = 'E' → sign = '+' ∨ sign = '-' → Digits cs rest → Exponent (e :: sign :: cs) rest

inductive Numeral : List Char → List Char → Prop
  | positive {cs whole fraction rest : List Char} :
      Whole cs whole → Fraction whole fraction → Exponent fraction rest → Numeral cs rest
  | negative {cs whole fraction rest : List Char} :
      Whole cs whole → Fraction whole fraction → Exponent fraction rest → Numeral ('-' :: cs) rest

/-! ## Values -/

def Container.bracket : Container → Char
  | .list => '['
  | .object => '\x7b'

/-- A value of a container stands behind a comma, unless it is the first. -/
def Separated : (first : Bool) → List Char → List Char → Prop
  | true, cs, behind => behind = cs
  | false, cs, behind => dropSpace cs = ',' :: behind

/-- In an object a value stands behind a key and a colon. -/
def Led : Container → List Char → List Char → Prop
  | .list, cs, behind => behind = cs
  | .object, cs, behind =>
    ∃ key colon, dropSpace cs = '"' :: key ∧ Quoted key colon ∧ dropSpace colon = ':' :: behind

/-- The values that are words. -/
def words : List (List Char) :=
  [['n', 'u', 'l', 'l'], ['t', 'r', 'u', 'e'], ['f', 'a', 'l', 's', 'e']]

mutual

/-- A value stands at the very beginning of a text, and `rest` behind it. -/
inductive Stands : List Char → List Char → Prop
  | word {letters rest : List Char} : letters ∈ words → Stands (letters ++ rest) rest
  | text {cs rest : List Char} : Quoted cs rest → Stands ('"' :: cs) rest
  | number {cs rest : List Char} : Numeral cs rest → Stands cs rest
  | container (kind : Container) {cs rest : List Char} :
      Contents kind true cs rest → Stands (kind.bracket :: cs) rest

/-- The rest of a container behind its bracket (`first`) or behind one of its values. -/
inductive Contents : (kind : Container) → (first : Bool) → List Char → List Char → Prop
  | close {kind : Container} {first : Bool} {cs rest : List Char} :
      dropSpace cs = kind.close :: rest → Contents kind first cs rest
  | value {kind : Container} {first : Bool} {cs lead item behind rest : List Char} :
      Separated first cs lead → Led kind lead item → Stands (dropSpace item) behind →
      Contents kind false behind rest → Contents kind first cs rest

end

/-- A text is a container of a kind and nothing else but blanks. -/
def Holds (kind : Container) (text : List Char) : Prop :=
  ∃ contents rest, dropSpace text = kind.bracket :: contents ∧ Contents kind true contents rest ∧
    dropSpace rest = []

theorem Holds.bracket {kind : Container} {text : List Char} (h : Holds kind text) :
    (dropSpace text).head? = some kind.bracket := by
  obtain ⟨contents, rest, hcs, -, -⟩ := h
  rw [hcs, List.head?_cons]

-- A list of a word and a number, with blanks around the comma.
example : Holds .list "[null , 10]".toList :=
  ⟨"null , 10]".toList, [], rfl,
    .value rfl rfl (@Stands.word ['n', 'u', 'l', 'l'] _ (by decide)) <|
      .value rfl rfl (.number (.positive
        (.digits (by decide) (.more rfl (.last rfl))) .missing .missing)) <| .close rfl, rfl⟩

end LedgerClient.Json
