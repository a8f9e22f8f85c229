import LedgerClient.Yaml.Token.Property

/-!
# Scalars

Readers of plain, quoted and block scalars. Between two stretches of a plain or quoted scalar lies a
`Gap`: a single line break in it is folded into a space, and of more than one the first is dropped.
-/

namespace LedgerClient.Yaml

/-! ## Gaps -/

/-- The blanks before a line break and the line breaks between two stretches of a scalar. -/
structure Gap where
  blanks : List Char
  breaks : List Char
deriving DecidableEq, Repr

namespace Gap

/-- No gap at all. -/
def none : Gap := ⟨[], []⟩

/-- Whether a gap holds a line break. -/
def isBroken (g : Gap) : Bool := !g.breaks.isEmpty

/-- What a gap is read as. -/
def folded (g : Gap) : List Char :=
  match g.breaks with
  | [] => g.blanks
  | ['\n'] => [' ']
  | '\n' :: more => more
  | breaks => breaks

/-- Reads a gap. Behind a line break blanks are indentation, and no tab may stand left of the
margin. -/
def read? (margin : Nat) (broken : Bool) : List Spot → Option (Gap × List Spot)
  | [] => some (none, [])
  | s :: rest =>
    if s.isLineBreak then
      (read? margin true rest).map fun (g, rest) => ({ g with breaks := s.char :: g.breaks }, rest)
    else if s.isSpacing then
      if !broken then
        (read? margin false rest).map fun (g, rest) =>
          ({ g with blanks := s.char :: g.blanks }, rest)
      else if s.char = '\t' ∧ s.column < margin then Option.none
      else read? margin true rest
    else some (none, s :: rest)

end Gap

/-! ## Plain scalars -/

/-- Whether a character that only flow collections give a meaning is next. -/
def flowIndicatorNext (spots : List Spot) : Bool := ",[]\x7b\x7d".toList.any (startsWith · spots)

/-- A stretch of a plain scalar without blanks. -/
def plainRun? (inFlow : Bool) : List Spot → Option (List Char × List Spot)
  | [] => some ([], [])
  | s :: rest =>
    if s.isBlank then some ([], s :: rest)
    else if inFlow && s.char == ':' && (flowIndicatorNext rest || startsWith '?' rest) then none
    else if (s.char == ':' && endsWord rest) || (inFlow && flowIndicatorNext (s :: rest)) then
      some ([], s :: rest)
    else (plainRun? inFlow rest).map fun (cs, rest) => (s.char :: cs, rest)

/-- The rest of a plain scalar, of which a gap has been read, and whether it ends in a line break.
-/
def plainRest? (inFlow : Bool) (margin : Nat) : (fuel : Nat) → Gap → List Spot →
    Option (List Char × Bool × List Spot)
  | 0, gap, spots => some ([], gap.isBroken, spots)
  | fuel + 1, gap, spots => do
    if (Token.marker? spots).isSome || startsWith '#' spots then
      return ([], gap.isBroken, spots)
    let (run, rest) ← plainRun? inFlow spots
    if run.isEmpty then return ([], gap.isBroken, spots)
    let text := gap.folded ++ run
    let (gap, rest) ← Gap.read? margin false rest
    match rest with
    | [] => return (text, gap.isBroken, [])
    | s :: _ =>
      if !inFlow && gap.isBroken && decide (s.column < margin) then
        return (text, gap.isBroken, rest)
      let (more, broken, rest) ← plainRest? inFlow margin fuel gap rest
      return (text ++ more, broken, rest)

/-- A plain scalar, and whether it ends in a line break. -/
def plain? (inFlow : Bool) (margin : Nat) (spots : List Spot) :
    Option (Token × Bool × List Spot) :=
  (plainRest? inFlow margin spots.length .none spots).map fun (text, broken, rest) =>
    (.scalar (String.ofList text) .plain, broken, rest)

/-! ## Quoted scalars -/

/-- The characters that a backslash and a single character stand for. -/
def escapes : List (Char × Char) :=
  [('0', '\x00'), ('a', '\x07'), ('b', '\x08'), ('t', '\t'), ('\t', '\t'), ('n', '\n'),
    ('v', '\x0b'), ('f', '\x0c'), ('r', '\r'), ('e', '\x1b'), (' ', ' '), ('"', '"'), ('/', '/'),
    ('\\', '\\'), ('N', '\u0085'), ('_', '\u00A0'), ('L', '\u2028'), ('P', '\u2029')]

/-- The number of so many hexadecimal digits. -/
def hexNumber? : (count value : Nat) → List Spot → Option (Nat × List Spot)
  | 0, value, spots => some (value, spots)
  | _ + 1, _, [] => none
  | count + 1, value, s :: rest =>
    match hexValue? s.char with
    | none => none
    | some digit => hexNumber? count (16 * value + digit) rest

/-- The character that is escaped by the character behind a backslash. -/
def escapedBy? (c : Char) (spots : List Spot) : Option (Char × List Spot) :=
  let numbered (count : Nat) : Option (Char × List Spot) := do
    let (n, rest) ← hexNumber? count 0 spots
    if n.isValidChar then return (Char.ofNat n, rest) else none
  match c with
  | 'x' => numbered 2
  | 'u' => numbered 4
  | 'U' => numbered 8
  | _ => (escapes.lookup c).map (·, spots)

/-- A stretch of a quoted scalar without blanks, and whether an escaped line break ends it. -/
def quotedRun? (double : Bool) : (fuel : Nat) → List Spot → Option (List Char × Bool × List Spot)
  | 0, spots => some ([], false, spots)
  | _ + 1, [] => some ([], false, [])
  | fuel + 1, s :: rest =>
    let further (c : Char) (rest : List Spot) : Option (List Char × Bool × List Spot) :=
      (quotedRun? double fuel rest).map fun (cs, escaped, rest) => (c :: cs, escaped, rest)
    if s.isBlank then some ([], false, s :: rest)
    else if double then
      if s.char = '"' then some ([], false, s :: rest)
      else if s.char = '\\' then
        match rest with
        | [] => none
        | e :: rest =>
          if e.isLineBreak then some ([], true, rest)
          else (escapedBy? e.char rest).bind fun (c, rest) => further c rest
      else further s.char rest
    else if s.char = '\'' then
      if startsWith '\'' rest then further '\'' (rest.drop 1) else some ([], false, s :: rest)
    else further s.char rest

/-- A quoted scalar up to its closing quote, and what is behind the quote. -/
def quotedRest? (double : Bool) : (fuel : Nat) → List Spot → Option (List Char × List Spot)
  | 0, _ => none
  | fuel + 1, spots => do
    if spots.isEmpty || (Token.marker? spots).isSome then none
    let (run, escaped, rest) ← quotedRun? double spots.length spots
    if startsWith (if double then '"' else '\'') rest then return (run, rest.drop 1)
    let (gap, rest) ← Gap.read? 0 escaped rest
    let (more, rest) ← quotedRest? double fuel rest
    return (run ++ (if escaped then gap.breaks else gap.folded) ++ more, rest)

/-- A quoted scalar, the opening quote of which has been read. -/
def quoted? (double : Bool) (spots : List Spot) : Option (Token × List Spot) :=
  (quotedRest? double (spots.length + 1) spots).map fun (text, rest) =>
    (.scalar (String.ofList text) (if double then .doubleQuoted else .singleQuoted), rest)

/-! ## Block scalars -/

/-- What is kept of the line breaks at the end of a block scalar. -/
inductive Chomping
  /-- None of them. -/
  | strip
  /-- The first one. -/
  | clip
  /-- All of them. -/
  | keep
deriving DecidableEq, Repr

/-- The chomping that is asked for here. -/
def chomping? : List Spot → Option (Chomping × List Spot)
  | [] => none
  | s :: rest =>
    if s.char = '-' then some (.strip, rest)
    else if s.char = '+' then some (.keep, rest)
    else none

/-- The indentation that is asked for here: a digit, of which zero is refused. -/
def indentation? : List Spot → Option (Option Nat × List Spot)
  | [] => some (none, [])
  | s :: rest =>
    if s.char = '0' then none
    else if s.char.isDigit then some (some (s.char.toNat - 48), rest)
    else some (none, s :: rest)

/-- The header of a block scalar: chomping and indentation in either order. -/
def blockHeader? (spots : List Spot) : Option (Chomping × Option Nat × List Spot) := do
  match chomping? spots with
  | some (chomping, rest) =>
    let (indentation, rest) ← indentation? rest
    return (chomping, indentation, ← skipLineEnd? rest)
  | none =>
    let (indentation, rest) ← indentation? spots
    let (chomping, rest) :=
      if indentation.isSome then (chomping? rest).getD (.clip, rest) else (.clip, rest)
    return (chomping, indentation, ← skipLineEnd? rest)

/-- The empty lines before a line of a block scalar, with the widest indentation among them and
this line. No tab may stand in the indentation. -/
def emptyLines? (indent : Option Nat) (widest : Nat) :
    List Spot → Option (List Char × Nat × List Spot)
  | [] => some ([], widest, [])
  | s :: rest =>
    if indent.all (s.column < ·) && s.isSpacing then
      if s.char = '\t' then none else emptyLines? indent (max widest (s.column + 1)) rest
    else if s.isLineBreak then
      (emptyLines? indent widest rest).map fun (breaks, more) => (s.char :: breaks, more)
    else some ([], widest, s :: rest)

/-- The lines of a block scalar and the line breaks behind them, of which the first ends the last
line. What has been read before is one line break, or none, with the empty lines behind it; `kept`
says whether the line before begins with a blank. -/
def blockLines? (literal : Bool) (indent : Nat) : (fuel : Nat) → (lineEnd breaks : List Char) →
    (kept : Bool) → List Spot → Option (List Char × List Char × List Char × List Spot)
  | 0, lineEnd, breaks, _, spots => some ([], lineEnd, breaks, spots)
  | _ + 1, lineEnd, breaks, _, [] => some ([], lineEnd, breaks, [])
  | fuel + 1, lineEnd, breaks, kept, s :: rest =>
    if s.column ≠ indent then some ([], lineEnd, breaks, s :: rest)
    else do
      let joint :=
        if !literal && lineEnd == ['\n'] && !kept && !s.isSpacing then
          if breaks.isEmpty then [' '] else breaks
        else lineEnd ++ breaks
      let (line, rest) := takeSpots (!isLineBreak ·) (s :: rest)
      let (breaks, _, rest') ← emptyLines? (some indent) 0 (rest.drop 1)
      let (lines, lineEnd, breaks, rest) ←
        blockLines? literal indent fuel ((rest.take 1).map (·.char)) breaks s.isSpacing rest'
      return (joint ++ line ++ lines, lineEnd, breaks, rest)

/-- A block scalar, the indicator of which has been read. Its lines are indented at least to the
margin; `parent` is the column that the header's indentation counts from. -/
def block? (literal : Bool) (parent margin : Nat) (spots : List Spot) :
    Option (Token × List Spot) := do
  let (chomping, indentation, rest) ← blockHeader? spots
  let (breaks, widest, rest) ← emptyLines? (indentation.map (parent + ·)) 0 rest
  let indent := (indentation.map (parent + ·)).getD (max widest (max margin 1))
  let (text, lineEnd, breaks, rest) ← blockLines? literal indent rest.length [] breaks false rest
  let ending :=
    match chomping with
    | .strip => []
    | .clip => lineEnd
    | .keep => lineEnd ++ breaks
  return (.scalar (String.ofList (text ++ ending)) (if literal then .literal else .folded), rest)

end LedgerClient.Yaml
