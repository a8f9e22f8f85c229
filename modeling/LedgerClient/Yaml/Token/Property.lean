import LedgerClient.Yaml.Token

/-!
# Anchors, aliases, tags and directives

The tokens that hold names.
-/

namespace LedgerClient.Yaml

/-! ## Anchors and aliases -/

/-- The name of an anchor or of an alias, and what is behind it. -/
def anchorName? (spots : List Spot) : Option (String × List Spot) :=
  let (name, rest) := takeSpots isNameChar spots
  if name.isEmpty then none
  else if endsWord rest || "?:,]\x7d%@\x60".toList.any (startsWith · rest) then
    some (String.ofList name, rest)
  else none

/-! ## Escapes in tags -/

/-- The value of a hexadecimal digit. -/
def hexValue? (c : Char) : Option Nat :=
  let n := c.toNat
  if c.isDigit then some (n - 48)
  else if 65 ≤ n ∧ n ≤ 70 then some (n - 55)
  else if 97 ≤ n ∧ n ≤ 102 then some (n - 87)
  else none

/-- A percent sign and two hexadecimal digits, as a byte. -/
def escapedByte? : List Spot → Option (Nat × List Spot)
  | a :: b :: c :: rest =>
    if a.char = '%' then
      match hexValue? b.char, hexValue? c.char with
      | some x, some y => some (16 * x + y, rest)
      | _, _ => none
    else none
  | _ => none

/-- So many escaped bytes, each of which goes on with a character. -/
def furtherBytes? : Nat → List Spot → Option (List Nat × List Spot)
  | 0, spots => some ([], spots)
  | count + 1, spots =>
    match escapedByte? spots with
    | none => none
    | some (byte, rest) =>
      if 0x80 ≤ byte ∧ byte < 0xC0 then
        (furtherBytes? count rest).map fun (bytes, rest) => (byte :: bytes, rest)
      else none

/-- How many bytes follow the first one of a character. -/
def furtherCount? (byte : Nat) : Option Nat :=
  if byte < 0x80 then some 0
  else if 0xC0 ≤ byte ∧ byte < 0xE0 then some 1
  else if 0xE0 ≤ byte ∧ byte < 0xF0 then some 2
  else if 0xF0 ≤ byte ∧ byte < 0xF8 then some 3
  else none

/-- The character of some bytes; U+FFFD if there is none. -/
def charOfBytes (bytes : List Nat) : Char :=
  match String.fromUTF8? ⟨(bytes.map UInt8.ofNat).toArray⟩ with
  | some s => s.toList.headD '\uFFFD'
  | none => '\uFFFD'

/-- A character that is written as escaped bytes. -/
def escapedChar? (spots : List Spot) : Option (Char × List Spot) := do
  let (byte, rest) ← escapedByte? spots
  let (bytes, rest) ← furtherBytes? (← furtherCount? byte) rest
  return (charOfBytes (byte :: bytes), rest)

/-! ## Tags -/

/-- Whether a character may be in a tag; a verbatim tag may hold more of them. -/
def isTagChar (verbatim : Bool) (c : Char) : Bool :=
  isNameChar c || ";/?:@&=+$.%!~*'()".contains c || (verbatim && ",[]".contains c)

/-- The characters of a tag, with their escapes undone. -/
def tagChars? (verbatim : Bool) : (fuel : Nat) → List Spot → Option (List Char × List Spot)
  | 0, spots => some ([], spots)
  | _ + 1, [] => some ([], [])
  | fuel + 1, s :: rest =>
    if s.char = '%' then
      match escapedChar? (s :: rest) with
      | none => none
      | some (c, rest) => (tagChars? verbatim fuel rest).map fun (cs, rest) => (c :: cs, rest)
    else if isTagChar verbatim s.char then
      (tagChars? verbatim fuel rest).map fun (cs, rest) => (s.char :: cs, rest)
    else some ([], s :: rest)

/-- The text of a tag up to a character that no tag holds. -/
def tagText? (verbatim : Bool) (spots : List Spot) : Option (List Char × List Spot) :=
  tagChars? verbatim spots.length spots

/-- A tag, without the word's end behind it; the exclamation mark has been read. -/
def openTag? (spots : List Spot) : Option (Token × List Spot) :=
  if startsWith '<' spots then do
    let (ending, rest) ← tagText? true (spots.drop 1)
    if ending.isEmpty || !startsWith '>' rest then none
    else return (.tag "" (String.ofList ending), rest.drop 1)
  else
    let (name, rest) := takeSpots isNameChar spots
    if startsWith '!' rest then do
      let (ending, rest) ← tagText? false (rest.drop 1)
      if ending.isEmpty then none
      else return (.tag (String.ofList ('!' :: name ++ ['!'])) (String.ofList ending), rest)
    else do
      let (more, rest) ← tagText? false rest
      let ending := name ++ more
      return (if ending.isEmpty then .tag "" "!" else .tag "!" (String.ofList ending), rest)

/-- A tag. In a flow collection a comma may follow it at once. -/
def tag? (inFlow : Bool) (spots : List Spot) : Option (Token × List Spot) := do
  let (token, rest) ← openTag? spots
  if endsWord rest || (inFlow && startsWith ',' rest) then return (token, rest) else none

/-! ## Directives -/

/-- A number of at most nine digits. -/
def versionNumber? (spots : List Spot) : Option (Nat × List Spot) :=
  let (digits, rest) := takeSpots Char.isDigit spots
  if digits.isEmpty || 9 < digits.length then none
  else some (digits.foldl (fun n c => 10 * n + (c.toNat - 48)) 0, rest)

/-- The two numbers of a version. -/
def version? (spots : List Spot) : Option (Token × List Spot) := do
  let (major, rest) ← versionNumber? (skipSpacing spots)
  if !startsWith '.' rest then none
  let (minor, rest) ← versionNumber? (rest.drop 1)
  return (.versionDirective major minor, rest)

/-- The handle of tags, and what it stands for. -/
def tagHandle? (spots : List Spot) : Option (Token × List Spot) := do
  let spots := skipSpacing spots
  if !startsWith '!' spots then none
  let (name, rest) := takeSpots isNameChar (spots.drop 1)
  let (handle, rest) ←
    if startsWith '!' rest then some ('!' :: name ++ ['!'], rest.drop 1)
    else if name.isEmpty then some (['!'], rest)
    else none
  let blanks := rest.takeWhile Spot.isSpacing
  if blanks.isEmpty then none
  let (start, rest) ← tagText? true (skipSpacing rest)
  if start.isEmpty || !endsWord rest then none
  return (.tagDirective (String.ofList handle) (String.ofList start), rest)

/-- A directive with the line break behind it; the percent sign has been read. -/
def directive? (spots : List Spot) : Option (Token × List Spot) := do
  let (name, rest) := takeSpots isNameChar spots
  if !endsWord rest then none
  let (token, rest) ←
    if name = "YAML".toList then version? rest
    else if name = "TAG".toList then tagHandle? rest
    else none
  return (token, ← skipLineEnd? rest)

end LedgerClient.Yaml
