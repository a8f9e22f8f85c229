import LedgerClient.Json.Literal.Word

/-!
# Strings in a JSON text

`readText` reads a string from behind its opening quote on, `skipText` passes over one that nobody
wants: it checks the escapes and refuses controls but does not look whether surrogates pair up. Both
take the text itself as the bound of their recursion, for every round reads at least a character.
-/

namespace LedgerClient.Json

/-- The value of a hex digit of either case. -/
def hexValue? (c : Char) : Option Nat :=
  let n := c.toNat
  if 48 ≤ n ∧ n ≤ 57 then some (n - 48)
  else if 65 ≤ n ∧ n ≤ 70 then some (n - 55)
  else if 97 ≤ n ∧ n ≤ 102 then some (n - 87)
  else none

/-- The number written in four hex digits. Four bytes are read whatever they are. -/
def hexEscape (cs : List Char) : Step Nat :=
  if Text.byteLength cs < 4 then fail .endInString []
  else match cs with
    | a :: b :: c :: d :: rest =>
      match hexValue? a, hexValue? b, hexValue? c, hexValue? d with
      | some w, some x, some y, some z => .ok (((w * 16 + x) * 16 + y) * 16 + z, rest)
      | _, _, _, _ => .error (.placed .invalidEscape (Text.byteLength cs - 4))
    | _ => .error (.placed .invalidEscape (Text.byteLength cs - 4))

/-- The character whose number is escaped, in one escape or in a pair of surrogates. -/
def unicodeEscape (cs : List Char) : Step Char :=
  match hexEscape cs with
  | .error stop => .error stop
  | .ok (n, rest) =>
    if 0xDC00 ≤ n ∧ n ≤ 0xDFFF then fail .loneSurrogate rest
    else if n < 0xD800 ∨ 0xDFFF < n then .ok (Char.ofNat n, rest)
    else match rest with
      | [] => fail .endInString []
      | ['\\'] => fail .endInString []
      | '\\' :: 'u' :: low =>
        match hexEscape low with
        | .error stop => .error stop
        | .ok (m, rest) =>
          if m < 0xDC00 ∨ 0xDFFF < m then fail .loneSurrogate rest
          else .ok (Char.ofNat (0x10000 + (n - 0xD800) * 0x400 + (m - 0xDC00)), rest)
      | '\\' :: rest => failNext .endOfHexEscape rest
      | rest => failNext .endOfHexEscape rest

/-- The character that a letter behind a backslash stands for. -/
def escaped? (c : Char) : Option Char :=
  if c = '"' ∨ c = '\\' ∨ c = '/' then some c
  else if c = 'b' then some (Char.ofNat 8)
  else if c = 'f' then some (Char.ofNat 12)
  else if c = 'n' then some '\n'
  else if c = 'r' then some '\r'
  else if c = 't' then some '\t'
  else none

/-- The character that is escaped behind a backslash. -/
def escape : List Char → Step Char
  | [] => fail .endInString []
  | 'u' :: cs => unicodeEscape cs
  | c :: cs => match escaped? c with
    | some e => .ok (e, cs)
    | none => failNext .invalidEscape (c :: cs)

/-- The string up to its closing quote, behind the characters `taken` (last one first). -/
def readTextAfter : (bound taken : List Char) → List Char → Step (List Char)
  | _, _, [] => fail .endInString []
  | [], _, cs => fail .endInString cs
  | _ :: bound, taken, c :: cs =>
    if c = '"' then .ok (taken.reverse, cs)
    else if c = '\\' then
      match escape cs with
      | .error stop => .error stop
      | .ok (e, rest) => readTextAfter bound (e :: taken) rest
    else if c.toNat < 0x20 then failNext .controlCharacter (c :: cs)
    else readTextAfter bound (c :: taken) cs

def readText (cs : List Char) : Step (List Char) := readTextAfter cs [] cs

/-- The text behind an escape of any kind. -/
def skipEscape : List Char → Except Stop (List Char)
  | [] => fail .endInString []
  | 'u' :: cs => (hexEscape cs).map (·.2)
  | c :: cs => match escaped? c with
    | some _ => .ok cs
    | none => failNext .invalidEscape (c :: cs)

/-- The text behind the closing quote of a string, at most `bound` rounds away. -/
def skipTextWithin : (bound : List Char) → List Char → Except Stop (List Char)
  | _, [] => fail .endInString []
  | [], cs => fail .endInString cs
  | _ :: bound, c :: cs =>
    if c = '"' then .ok cs
    else if c = '\\' then
      match skipEscape cs with
      | .error stop => .error stop
      | .ok rest => skipTextWithin bound rest
    else if c.toNat < 0x20 then fail .controlCharacter (c :: cs)
    else skipTextWithin bound cs

/-- The text behind the closing quote of a string. -/
def skipText (cs : List Char) : Except Stop (List Char) := skipTextWithin cs cs

end LedgerClient.Json
