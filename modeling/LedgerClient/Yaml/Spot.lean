/-!
# Characters in their places

A document is read as a list of spots: characters with the line and the column that they stand in.
Every line break is one spot, and all but the two separators of Unicode are the same one.
-/

namespace LedgerClient.Yaml

/-- A character of a document and its place. -/
structure Spot where
  char : Char
  line : Nat
  column : Nat
deriving DecidableEq, Repr

/-- The separators that stay as they are in scalars: of lines and of paragraphs. -/
def isSeparator (c : Char) : Bool := c.toNat == 0x2028 || c.toNat == 0x2029

/-- Whether a character ends a line. -/
def isLineBreak (c : Char) : Bool :=
  c == '\n' || c == '\r' || c.toNat == 0x85 || isSeparator c

/-- Whether a character is a space or a tab. -/
def isSpacing (c : Char) : Bool := c == ' ' || c == '\t'

/-- The mark of byte order. -/
def byteOrderMark : Char := '\uFEFF'

/-- Whether a document may hold a character. -/
def isAllowed (c : Char) : Bool :=
  let n := c.toNat
  n == 9 || n == 0xA || n == 0xD || (0x20 ≤ n && n ≤ 0x7E) || n == 0x85 ||
    (0xA0 ≤ n && n ≤ 0xD7FF) || (0xE000 ≤ n && n ≤ 0xFFFD) || 0x10000 ≤ n

/-- Whether a character may be in the name of an anchor, a handle or a directive. -/
def isNameChar (c : Char) : Bool := c.isAlphanum || c == '-' || c == '_'

namespace Spot

def isSpacing (s : Spot) : Bool := Yaml.isSpacing s.char

def isLineBreak (s : Spot) : Bool := Yaml.isLineBreak s.char

/-- Whether a word ends before a spot. -/
def isBlank (s : Spot) : Bool := s.isSpacing || s.isLineBreak

end Spot

/-- The spots of a text that begins in this place. -/
def spotsFrom (line column : Nat) : List Char → List Spot
  | [] => []
  | '\r' :: '\n' :: cs => ⟨'\n', line, column⟩ :: spotsFrom (line + 1) 0 cs
  | c :: cs =>
    if isLineBreak c then
      ⟨if isSeparator c then c else '\n', line, column⟩ :: spotsFrom (line + 1) 0 cs
    else ⟨c, line, column⟩ :: spotsFrom line (column + 1) cs

/-- The spots of a document. There are none when it holds a character that no document may hold. -/
def spots? (text : String) : Option (List Spot) :=
  let cs := text.toList
  if cs.all isAllowed then some (spotsFrom 0 0 cs) else none

/-- Whether a word ends here: at a blank or at the end of the document. -/
def endsWord : List Spot → Bool
  | [] => true
  | s :: _ => s.isBlank

/-- Whether this character is next. -/
def startsWith (c : Char) : List Spot → Bool
  | [] => false
  | s :: _ => s.char == c

/-- Spots up to the first one that fails a test, as a text, and what is behind them. -/
def takeSpots (p : Char → Bool) (spots : List Spot) : List Char × List Spot :=
  ((spots.takeWhile (p ·.char)).map (·.char), spots.dropWhile (p ·.char))

/-- What is behind the spaces and tabs. -/
def skipSpacing (spots : List Spot) : List Spot := spots.dropWhile Spot.isSpacing

/-- What is behind the rest of a line, which may hold blanks and a comment only. -/
def skipLineEnd? (spots : List Spot) : Option (List Spot) :=
  let spots := skipSpacing spots
  let spots := if startsWith '#' spots then spots.dropWhile (!·.isLineBreak) else spots
  match spots with
  | [] => some []
  | s :: rest => if s.isLineBreak then some rest else none

end LedgerClient.Yaml
