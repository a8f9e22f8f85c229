import LedgerClient.Text.LowerCase
import LedgerClient.Text.Quoted.Table

/-!
# Quoted text

How diagnostics show a text that may hold anything: between quotes, with a backslash before the
quote and the backslash itself, letters for the common controls, and code points in braces for
whatever has no shape of its own.
-/

namespace LedgerClient.Text

namespace Quoted

/-- The characters of a number in lower-case hexadecimal. -/
def hexDigits (n : Nat) : List Char := Nat.toDigits 16 n

/-- Whether a character has to be shown by its number. -/
def isShapeless (c : Char) : Bool :=
  c.toNat < 0x20 || (0x7F ≤ c.toNat && LowerCase.inRanges shapelessRanges c.toNat)

/-- A character as it is shown between quotes `mark`. -/
def escape (mark : Char) (c : Char) : List Char :=
  if c = '\x00' then ['\\', '0']
  else if c = '\t' then ['\\', 't']
  else if c = '\n' then ['\\', 'n']
  else if c = '\r' then ['\\', 'r']
  else if c = '\\' ∨ c = mark then ['\\', c]
  else if isShapeless c then ['\\', 'u', '\x7b'] ++ hexDigits c.toNat ++ ['\x7d']
  else [c]

end Quoted

def quoted (s : String) : String :=
  String.ofList ('"' :: s.toList.flatMap (Quoted.escape '"') ++ ['"'])

def quotedChar (c : Char) : String :=
  String.ofList ('\'' :: Quoted.escape '\'' c ++ ['\''])

end LedgerClient.Text
