import LedgerClient.Decimal.Notation
import LedgerClient.Json.Value

/-!
# Writing JSON

The compact text of a value, without a blank anywhere, and the text laid out over several lines with
two blanks of indentation for each level. Strings escape the quote, the backslash and the characters
below U+0020 and nothing else.
-/

namespace LedgerClient.Json

open Decimal (Notation)

def natChars (n : Nat) : List Char := Nat.toDigits 10 n

/-- The digits of an integer, behind a minus sign if it is negative. -/
def intChars : Int → List Char
  | .ofNat n => natChars n
  | .negSucc n => '-' :: natChars (n + 1)

def Number.chars : Number → List Char
  | .int i => intChars i
  | .double x => Notation.plain.text x

def hexDigit (n : Nat) : Char := Char.ofNat (if n < 10 then 48 + n else 87 + n)

def escapeChar (c : Char) : List Char :=
  if c = '"' then ['\\', '"']
  else if c = '\\' then ['\\', '\\']
  else if c.toNat = 8 then ['\\', 'b']
  else if c.toNat = 12 then ['\\', 'f']
  else if c = '\n' then ['\\', 'n']
  else if c = '\r' then ['\\', 'r']
  else if c = '\t' then ['\\', 't']
  else if c.toNat < 0x20 then
    ['\\', 'u', '0', '0', hexDigit (c.toNat / 16), hexDigit (c.toNat % 16)]
  else [c]

/-- The characters of a string and the quote behind them. -/
def escapeChars (cs : List Char) : List Char := cs.flatMap escapeChar ++ ['"']

def textChars (s : String) : List Char := '"' :: escapeChars s.toList

def boolChars : Bool → List Char
  | true => ['t', 'r', 'u', 'e']
  | false => ['f', 'a', 'l', 's', 'e']

def nullChars : List Char := ['n', 'u', 'l', 'l']

/-- Written members between braces: each is a key and the text of its value. -/
def membersChars : List (String × List Char) → List Char
  | [] => ['\x7b', '\x7d']
  | (key, value) :: rest =>
    '\x7b' :: textChars key ++ ':' :: value ++ more rest
where
  /-- The members behind the first one and the closing brace. -/
  more : List (String × List Char) → List Char
    | [] => ['\x7d']
    | (key, value) :: rest => ',' :: textChars key ++ ':' :: value ++ more rest

def itemsChars : List (List Char) → List Char
  | [] => ['[', ']']
  | item :: rest => '[' :: item ++ more rest
where
  /-- The items behind the first one and the closing bracket. -/
  more : List (List Char) → List Char
    | [] => [']']
    | item :: rest => ',' :: item ++ more rest

mutual

def Value.chars : Value → List Char
  | .null => nullChars
  | .bool b => boolChars b
  | .number n => n.chars
  | .text s => textChars s
  | .list items => itemsChars (Value.itemTexts items)
  | .object members => membersChars (Value.memberTexts members)

def Value.itemTexts : List Value → List (List Char)
  | [] => []
  | item :: rest => item.chars :: Value.itemTexts rest

/-- Keys with the compact texts of their values. -/
def Value.memberTexts : List (String × Value) → List (String × List Char)
  | [] => []
  | (key, value) :: rest => (key, value.chars) :: Value.memberTexts rest

end

def Value.compact (v : Value) : String := String.ofList v.chars

/-- A new line with `depth` levels of indentation. -/
def indent (depth : Nat) : List Char := '\n' :: List.replicate (2 * depth) ' '

mutual

/-- The text of a value over several lines, itself standing `depth` levels deep. -/
def Value.prettyChars (depth : Nat) : Value → List Char
  | .list [] => ['[', ']']
  | .list (item :: rest) =>
    '[' :: indent (depth + 1) ++ item.prettyChars (depth + 1) ++
      Value.prettyItems (depth + 1) rest ++ indent depth ++ [']']
  | .object [] => ['\x7b', '\x7d']
  | .object ((key, value) :: rest) =>
    '\x7b' :: indent (depth + 1) ++ textChars key ++ ':' :: ' ' :: value.prettyChars (depth + 1) ++
      Value.prettyMembers (depth + 1) rest ++ indent depth ++ ['\x7d']
  | .null => nullChars
  | .bool b => boolChars b
  | .number n => n.chars
  | .text s => textChars s

def Value.prettyItems (depth : Nat) : List Value → List Char
  | [] => []
  | item :: rest => ',' :: indent depth ++ item.prettyChars depth ++ Value.prettyItems depth rest

def Value.prettyMembers (depth : Nat) : List (String × Value) → List Char
  | [] => []
  | (key, value) :: rest =>
    ',' :: indent depth ++ textChars key ++ ':' :: ' ' :: value.prettyChars depth ++
      Value.prettyMembers depth rest

end

/-- The text of a value over several lines. -/
def Value.pretty (v : Value) : String := String.ofList (v.prettyChars 0)

end LedgerClient.Json
