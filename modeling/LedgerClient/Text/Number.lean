/-!
# Numbers that a user types

A number of 64 bits in decimal digits, with a plus sign in front of them at most.
-/

namespace LedgerClient.Text

/-- A text without the plus sign it begins with. -/
def dropPlus : List Char → List Char
  | '+' :: cs => cs
  | cs => cs

def decimalValue (digits : List Char) : Nat :=
  digits.foldl (fun n c => 10 * n + (c.toNat - 48)) 0

/-- The number that a text is, if it fits 64 bits. -/
def word64? (cs : List Char) : Option UInt64 :=
  let digits := dropPlus cs
  if digits.isEmpty || digits.any (!·.isDigit) then none
  else if decimalValue digits < UInt64.size then some (UInt64.ofNat (decimalValue digits))
  else none

end LedgerClient.Text
