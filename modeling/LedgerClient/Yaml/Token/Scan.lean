import LedgerClient.Yaml.Token.Scalar

/-!
# From characters to tokens

`Token.scan?` cuts a document into tokens. Indentation opens and closes block collections. What
turns out to be a key only when its colon is met has its tokens put in front of it afterwards: such
a key stands on one line and takes up at most `longestKey` columns.
-/

namespace LedgerClient.Yaml

/-- How many columns a key may take up that is not announced by a question mark. -/
def longestKey : Nat := 1024

/-- A place where a key may have begun. -/
structure KeyStart where
  /-- Whether nothing but a key can be there. -/
  required : Bool
  /-- The number of tokens before it. -/
  position : Nat
  line : Nat
  column : Nat
deriving DecidableEq, Repr

/-- What is known between two tokens. -/
structure Scanner where
  tokens : Array Token
  /-- The columns of the open block collections, the innermost first. -/
  indents : List Nat
  /-- The start of a key outside flow collections and in each open one, the innermost first. -/
  keys : List (Option KeyStart)
  /-- Whether a key may begin here. -/
  keyAllowed : Bool

namespace Scanner

/-- The start of a document. -/
def start : Scanner := ⟨#[], [], [none], true⟩

/-- Whether a flow collection is open. -/
def inFlow (s : Scanner) : Bool := 1 < s.keys.length

/-- The first column to the right of the innermost block collection's. -/
def margin (s : Scanner) : Nat := (s.indents.head?.map (· + 1)).getD 0

/-- Adds a token. -/
def push (t : Token) (s : Scanner) : Scanner := { s with tokens := s.tokens.push t }

/-- Says whether a key may begin next. -/
def allowKey (allowed : Bool) (s : Scanner) : Scanner := { s with keyAllowed := allowed }

/-! ## Indentation -/

/-- Ends the block collections for which a test says so, up to the first that stays. -/
def close (ends : Nat → Bool) (s : Scanner) : Scanner :=
  let closed := s.indents.takeWhile ends
  { s with
    tokens := closed.foldl (fun tokens _ => tokens.push .blockEnd) s.tokens
    indents := s.indents.dropWhile ends }

/-- Ends the block collections that a token in this column is no part of. -/
def closeTo (column : Nat) (s : Scanner) : Scanner :=
  if s.inFlow then s else s.close (column < ·)

/-- Ends all block collections. -/
def closeAll (s : Scanner) : Scanner := if s.inFlow then s else s.close fun _ => true

/-- Begins a block collection in this column unless it is already open, with its token in front of
the one in this position. -/
def openAt (column position : Nat) (t : Token) (s : Scanner) : Scanner :=
  if s.inFlow || column < s.margin then s
  else { s with
    tokens := s.tokens.insertIdxIfInBounds position t
    indents := column :: s.indents }

/-! ## Keys -/

/-- Gives up the key that may have begun. -/
def dropKey? (s : Scanner) : Option Scanner :=
  match s.keys with
  | some k :: outer => if k.required then none else some { s with keys := none :: outer }
  | _ => some s

/-- Takes note that a key may begin at this spot. -/
def saveKey? (spot : Spot) (s : Scanner) : Option Scanner :=
  if s.keyAllowed then
    s.dropKey?.map fun s =>
      let required := !s.inFlow && s.indents.head? == some spot.column
      { s with keys := some ⟨required, s.tokens.size, spot.line, spot.column⟩ :: s.keys.drop 1 }
  else some s

/-- The start of the key that a colon at this spot is behind, if it is behind one. -/
def keyBefore? (spot : Spot) (s : Scanner) : Option (Option KeyStart) :=
  match s.keys.head?.join with
  | none => some none
  | some k =>
    if k.line < spot.line ∨ k.column + longestKey < spot.column then
      if k.required then none else some none
    else some (some k)

/-! ## Indicators -/

/-- A marker of the start or of the end of a document. -/
def marker? (t : Token) (s : Scanner) : Option Scanner :=
  s.closeAll.dropKey?.map fun s => (s.allowKey false).push t

/-- An opening bracket. -/
def openFlow? (t : Token) (spot : Spot) (s : Scanner) : Option Scanner :=
  (s.saveKey? spot).map fun s => ({ s with keys := none :: s.keys }.allowKey true).push t

/-- A closing bracket. -/
def closeFlow? (t : Token) (s : Scanner) : Option Scanner :=
  s.dropKey?.map fun s =>
    ({ s with keys := if s.inFlow then s.keys.drop 1 else s.keys }.allowKey false).push t

/-- A comma. -/
def flowEntry? (s : Scanner) : Option Scanner :=
  s.dropKey?.map fun s => (s.allowKey true).push .flowEntry

/-- A collection that begins with an indicator at this spot. Outside flow collections it must be
where a key may begin. -/
def begin? (t : Token) (spot : Spot) (s : Scanner) : Option Scanner :=
  if s.inFlow then some s
  else if s.keyAllowed then some (s.openAt spot.column s.tokens.size t)
  else none

/-- A dash. -/
def blockEntry? (spot : Spot) (s : Scanner) : Option Scanner := do
  let s ← (← s.begin? .blockSequenceStart spot).dropKey?
  return (s.allowKey true).push .blockEntry

/-- A question mark. -/
def key? (spot : Spot) (s : Scanner) : Option Scanner := do
  let s ← (← s.begin? .blockMappingStart spot).dropKey?
  return (s.allowKey (!s.inFlow)).push .key

/-- A colon. -/
def value? (spot : Spot) (s : Scanner) : Option Scanner := do
  match ← s.keyBefore? spot with
  | some k =>
    let s := { s with
      tokens := s.tokens.insertIdxIfInBounds k.position .key
      keys := none :: s.keys.drop 1 }
    return ((s.openAt k.column k.position .blockMappingStart).allowKey false).push .value
  | none =>
    let s := { s with keys := none :: s.keys.drop 1 }
    let s ← s.begin? .blockMappingStart spot
    return (s.allowKey (!s.inFlow)).push .value

/-! ## The next token -/

/-- A token that may be or begin a key, with what is behind it. -/
def keyLike (spot : Spot) (read : Option (Token × List Spot)) (s : Scanner) :
    Option (Scanner × List Spot) := do
  let s ← s.saveKey? spot
  let (t, rest) ← read
  return ((s.allowKey false).push t, rest)

/-- A name behind an indicator as a token. -/
def named (make : String → Token) (spots : List Spot) : Option (Token × List Spot) :=
  (anchorName? spots).map fun (name, rest) => (make name, rest)

/-- A plain scalar. A key may begin behind it when it ends in a line break. -/
def plainScalar? (spot : Spot) (spots : List Spot) (s : Scanner) :
    Option (Scanner × List Spot) := do
  let s ← s.saveKey? spot
  let (t, broken, rest) ← plain? s.inFlow s.margin spots
  return ((s.allowKey broken).push t, rest)

/-- A block scalar. -/
def blockScalar? (literal : Bool) (spots : List Spot) (s : Scanner) :
    Option (Scanner × List Spot) := do
  let s ← s.dropKey?
  let (t, rest) ← block? literal (s.indents.head?.getD 0) s.margin spots
  return ((s.allowKey true).push t, rest)

/-- A directive. -/
def directive? (spots : List Spot) (s : Scanner) : Option (Scanner × List Spot) := do
  let s ← s.closeAll.dropKey?
  let (t, rest) ← Yaml.directive? spots
  return ((s.allowKey false).push t, rest)

/-- Whether no plain scalar begins with a character, whatever follows it. -/
def isIndicator (c : Char) : Bool := "-?:,[]\x7b\x7d#&*!|>'\"%@\x60".contains c

/-- The token that begins at a spot. -/
def next? (spot : Spot) (rest : List Spot) (s : Scanner) : Option (Scanner × List Spot) :=
  let alone := endsWord rest
  let done (s : Option Scanner) : Option (Scanner × List Spot) := s.map (·, rest)
  let c := spot.char
  if spot.column = 0 ∧ c = '%' then s.directive? rest
  else match Token.marker? (spot :: rest) with
    | some (t, rest) => (s.marker? t).map (·, rest)
    | none =>
      if c = '[' then done (s.openFlow? .flowSequenceStart spot)
      else if c = '\x7b' then done (s.openFlow? .flowMappingStart spot)
      else if c = ']' then done (s.closeFlow? .flowSequenceEnd)
      else if c = '\x7d' then done (s.closeFlow? .flowMappingEnd)
      else if c = ',' then done s.flowEntry?
      else if c = '-' ∧ alone then done (s.blockEntry? spot)
      else if c = '?' ∧ (s.inFlow ∨ alone) then done (s.key? spot)
      else if c = ':' ∧ (s.inFlow ∨ alone) then done (s.value? spot)
      else if c = '*' then s.keyLike spot (named .alias rest)
      else if c = '&' then s.keyLike spot (named .anchor rest)
      else if c = '!' then s.keyLike spot (tag? s.inFlow rest)
      else if c = '|' ∧ !s.inFlow then s.blockScalar? true rest
      else if c = '>' ∧ !s.inFlow then s.blockScalar? false rest
      else if c = '\'' then s.keyLike spot (quoted? false rest)
      else if c = '"' then s.keyLike spot (quoted? true rest)
      else if c = '-' ∨ c = '?' ∨ c = ':' ∨ (!isIndicator c && !spot.isBlank) then
        s.plainScalar? spot (spot :: rest)
      else none

/-- What is behind blanks, comments and line breaks, and whether a key may begin there. Tabs may
stand where no key may begin and in flow collections. -/
def skipBlank (inFlow : Bool) : (inComment keyAllowed : Bool) → List Spot → Bool × List Spot
  | _, keyAllowed, [] => (keyAllowed, [])
  | inComment, keyAllowed, s :: rest =>
    if s.isLineBreak then skipBlank inFlow false (keyAllowed || !inFlow) rest
    else if inComment then skipBlank inFlow true keyAllowed rest
    else if s.char = '#' then skipBlank inFlow true keyAllowed rest
    else if s.char = ' ' ∨ (s.char = '\t' ∧ (inFlow ∨ !keyAllowed)) ∨
        (s.char = byteOrderMark ∧ s.column = 0) then
      skipBlank inFlow false keyAllowed rest
    else (keyAllowed, s :: rest)

/-- All tokens of a document. -/
def tokens? : (fuel : Nat) → Scanner → List Spot → Option (List Token)
  | 0, _, _ => none
  | fuel + 1, s, spots =>
    let (keyAllowed, spots) := skipBlank s.inFlow false s.keyAllowed spots
    match spots with
    | [] => s.closeAll.dropKey?.map (·.tokens.toList)
    | spot :: rest => do
      let (s, rest) ← ((s.allowKey keyAllowed).closeTo spot.column).next? spot rest
      tokens? fuel s rest

end Scanner

/-- The tokens of a document. -/
def Token.scan? (text : String) : Option (List Token) :=
  (spots? text).bind fun spots => Scanner.start.tokens? (spots.length + 1) spots

end LedgerClient.Yaml
