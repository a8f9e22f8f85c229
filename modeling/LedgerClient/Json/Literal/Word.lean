import LedgerClient.Json.Fault

/-!
# Blanks and words in a JSON text

Reading works on the characters that are still unread. A `Step` is what was read with the rest of
the text, or the `Stop` that ended it: `fail` puts a fault before the rest and `failNext` behind its
next byte.
-/

namespace LedgerClient.Json

/-- What one reader did: its result and the unread text, or why it stopped. -/
abbrev Step (α : Type) := Except Stop (α × List Char)

/-- Stops with a fault that shows before `rest`. -/
def fail {α : Type} (cause : Cause) (rest : List Char) : Except Stop α :=
  .error (.placed cause (Text.byteLength rest))

/-- Stops with a fault of the next byte, or at the end if there is none. -/
def failNext {α : Type} (cause : Cause) (rest : List Char) : Except Stop α :=
  .error (.placed cause (Text.byteLength rest - 1))

/-- The blanks between the parts of a text. -/
def isSpace (c : Char) : Bool := c == ' ' || c == '\n' || c == '\t' || c == '\r'

/-- A text from its first character on that is no blank. -/
def dropSpace (cs : List Char) : List Char := cs.dropWhile isSpace

def isDigit (c : Char) : Bool := '0' ≤ c && c ≤ '9'

/-- The text behind the letters of a word. -/
def word : (letters : List Char) → List Char → Except Stop (List Char)
  | [], cs => .ok cs
  | _ :: _, [] => fail .endInValue []
  | l :: ls, c :: cs => if c = l then word ls cs else failNext .wordExpected (c :: cs)

end LedgerClient.Json
