import LedgerClient.Yaml.Token.Scan

/-!
# Reading documents

`Document.parse?` builds the tree of a text that holds one document, or none, which is the document
of an empty scalar. Each reader takes the tokens that its node is made of. Anchors are numbered by
the names seen before them, and an alias has the number that its name has last been given; of the
nodes under one number the last that begins stands.
-/

namespace LedgerClient.Yaml

/-- What is known while a document is read. -/
structure Composition where
  tokens : List Token
  /-- What the handles of tags stand for. -/
  handles : List (String × String)
  /-- The numbers of the anchors, by their names. -/
  names : List (String × Nat)
  /-- For the number of an anchor the place of its node among the anchored nodes. -/
  places : List (Nat × Nat)
  /-- The anchored nodes that are complete, by their places. -/
  nodes : List (Nat × Node)

/-- A reader of a part of a document. -/
abbrev Composer := StateT Composition Option

namespace Composer

/-! ## Tokens -/

/-- The next token. -/
def peek : Composer (Option Token) := do return (← get).tokens.head?

/-- Passes a token. -/
def skip : Composer Unit := modify fun c => { c with tokens := c.tokens.drop 1 }

/-- Passes this token, which must be next. -/
def expect (t : Token) : Composer Unit := do
  if (← peek) = some t then skip else failure

/-- Whether one of these tokens is next, or none is. -/
def atAny (ts : List Token) : Composer Bool := do
  match ← peek with
  | none => return true
  | some t => return ts.contains t

/-! ## Anchors and tags -/

/-- The anchor and the tag in front of a node, in either order. -/
def properties : Composer (Option String × Option (String × String)) := do
  match ← peek with
  | some (.anchor name) =>
    skip
    match ← peek with
    | some (.tag handle ending) => skip; return (some name, some (handle, ending))
    | _ => return (some name, none)
  | some (.tag handle ending) =>
    skip
    match ← peek with
    | some (.anchor name) => skip; return (some name, some (handle, ending))
    | _ => return (none, some (handle, ending))
  | _ => return (none, none)

/-- The text of a tag. -/
def tagText : Option (String × String) → Composer (Option String)
  | none => return none
  | some ("", ending) => return some ending
  | some (handle, ending) => do
    let some start := (← get).handles.lookup handle | failure
    return some (start ++ ending)

/-- Numbers an anchor, and gives the place of its node. -/
def place (name : String) : Composer Nat := do
  let c ← get
  let number := c.names.length
  let place := c.places.length
  set { c with
    names := (name, number) :: c.names.filter (·.1 != name)
    places := (number, place) :: c.places }
  return place

/-- Puts a node into its place. -/
def anchored (place : Option Nat) (node : Node) : Composer Node := do
  if let some place := place then
    modify fun c => { c with nodes := (place, node) :: c.nodes }
  return node

/-! ## Nodes -/

mutual

/-- A node. Block collections are allowed where `block` says so, and where `indentless` does, dashes
may stand in the column of the collection around them. -/
def node : (fuel : Nat) → (block indentless : Bool) → Composer Node
  | 0, _, _ => failure
  | fuel + 1, block, indentless => do
    if let some (.alias name) ← peek then
      skip
      let some number := (← get).names.lookup name | failure
      return .alias number
    let (anchor, tag) ← properties
    let tag ← tagText tag
    let spot ← anchor.mapM place
    match ← peek with
    | some .blockEntry =>
      if indentless then anchored spot (.sequence (← indentlessItems fuel))
      else nothingTagged spot anchor tag
    | some (.scalar text style) =>
      skip
      anchored spot (.scalar ⟨text, style, tag.filter (· ≠ "!")⟩)
    | some .flowSequenceStart => skip; anchored spot (.sequence (← flowItems fuel true))
    | some .flowMappingStart => skip; anchored spot (.mapping (← flowPairs fuel true))
    | some .blockSequenceStart =>
      if block then skip; anchored spot (.sequence (← blockItems fuel))
      else nothingTagged spot anchor tag
    | some .blockMappingStart =>
      if block then skip; anchored spot (.mapping (← blockPairs fuel))
      else nothingTagged spot anchor tag
    | _ => nothingTagged spot anchor tag
where
  /-- The empty scalar, where an anchor or a tag stands for itself. -/
  nothingTagged (spot : Option Nat) (anchor tag : Option String) : Composer Node := do
    if anchor.isNone && tag.isNone then failure
    anchored spot (.scalar ⟨"", .plain, tag⟩)

/-- A node, or nothing where one of these tokens is next. -/
def nodeUnless : (fuel : Nat) → (ends : List Token) → (block indentless : Bool) → Composer Node
  | 0, _, _, _ => failure
  | fuel + 1, ends, block, indentless => do
    match ← peek with
    | some t => if ends.contains t then return .nothing else node fuel block indentless
    | none => failure

/-- The items of a block sequence. -/
def blockItems : (fuel : Nat) → Composer (List Node)
  | 0 => failure
  | fuel + 1 => do
    if (← peek) = some .blockEnd then skip; return []
    expect .blockEntry
    let item ← nodeUnless fuel [.blockEntry, .blockEnd] true false
    return item :: (← blockItems fuel)

/-- The items of a sequence in the column of the mapping around it. -/
def indentlessItems : (fuel : Nat) → Composer (List Node)
  | 0 => failure
  | fuel + 1 => do
    if (← peek) ≠ some .blockEntry then return []
    skip
    let item ← nodeUnless fuel [.blockEntry, .key, .value, .blockEnd] true false
    return item :: (← indentlessItems fuel)

/-- The pairs of a block mapping. -/
def blockPairs : (fuel : Nat) → Composer (List (Node × Node))
  | 0 => failure
  | fuel + 1 => do
    if (← peek) = some .blockEnd then skip; return []
    expect .key
    let key ← nodeUnless fuel [.key, .value, .blockEnd] true true
    let value ←
      if (← peek) = some .value then
        skip
        nodeUnless fuel [.key, .value, .blockEnd] true true
      else pure .nothing
    return (key, value) :: (← blockPairs fuel)

/-- The items of a flow sequence. A key among them begins a mapping of one pair. -/
def flowItems : (fuel : Nat) → (first : Bool) → Composer (List Node)
  | 0, _ => failure
  | fuel + 1, first => do
    if (← peek) = some .flowSequenceEnd then skip; return []
    if !first then expect .flowEntry
    match ← peek with
    | some .flowSequenceEnd => skip; return []
    | some .key =>
      skip
      let pair ← flowPair fuel
      return .mapping [pair] :: (← flowItems fuel false)
    | _ =>
      let item ← node fuel false false
      return item :: (← flowItems fuel false)

/-- The only pair of a mapping in a flow sequence. With an empty key the token behind it is passed,
whatever it is, so that no value is read. -/
def flowPair : (fuel : Nat) → Composer (Node × Node)
  | 0 => failure
  | fuel + 1 => do
    let key ←
      if ← atAny [.value, .flowEntry, .flowSequenceEnd] then
        skip
        pure .nothing
      else node fuel false false
    let value ←
      if (← peek) = some .value then
        skip
        nodeUnless fuel [.flowEntry, .flowSequenceEnd] false false
      else pure .nothing
    return (key, value)

/-- The pairs of a flow mapping. -/
def flowPairs : (fuel : Nat) → (first : Bool) → Composer (List (Node × Node))
  | 0, _ => failure
  | fuel + 1, first => do
    if (← peek) = some .flowMappingEnd then skip; return []
    if !first then expect .flowEntry
    match ← peek with
    | some .flowMappingEnd => skip; return []
    | some .key =>
      skip
      let key ← nodeUnless fuel [.value, .flowEntry, .flowMappingEnd] false false
      let value ←
        if (← peek) = some .value then
          skip
          nodeUnless fuel [.flowEntry, .flowMappingEnd] false false
        else pure .nothing
      return (key, value) :: (← flowPairs fuel false)
    | _ =>
      let key ← node fuel false false
      return (key, .nothing) :: (← flowPairs fuel false)

end

/-! ## Documents -/

/-- The handles that need no directive. -/
def defaultHandles : List (String × String) := [("!", "!"), ("!!", "tag:yaml.org,2002:")]

/-- Directives, of which versions other than 1.1 and 1.2 and repeated ones are refused. -/
def directives (versioned : Bool) (handles : List (String × String)) :
    List Token → Option (List (String × String) × List Token)
  | .versionDirective major minor :: rest =>
    if versioned ∨ major ≠ 1 ∨ (minor ≠ 1 ∧ minor ≠ 2) then none
    else directives true handles rest
  | .tagDirective handle start :: rest =>
    if (handles.lookup handle).isSome then none
    else directives versioned ((handle, start) :: handles) rest
  | rest => some (handles, rest)

/-- The root of a document behind its marker, if there is a marker. -/
def root (explicit : Bool) : Composer Node := do
  let fuel := 4 * (← get).tokens.length + 4
  if explicit && (← atAny [.documentStart, .documentEnd]) then return .nothing
  else node fuel true false

/-- A document is complete where the text ends, markers of its end apart. -/
def isComplete (tokens : List Token) : Bool := tokens.all (· == .documentEnd)

/-- The nodes under the numbers of anchors. -/
def anchors (c : Composition) : List (Nat × Node) :=
  c.places.filterMap fun (number, place) => (c.nodes.lookup place).map (number, ·)

/-- The document of some tokens. -/
def document? (tokens : List Token) : Option Document := do
  if tokens.isEmpty then return ⟨.nothing, []⟩
  let (handles, rest) ← directives false [] tokens
  let explicit := rest.head? == some .documentStart
  if !explicit && rest.length != tokens.length then none
  let c : Composition :=
    ⟨if explicit then rest.drop 1 else rest, handles ++ defaultHandles, [], [], []⟩
  let (root, c) ← (root explicit).run c
  if isComplete c.tokens then return ⟨root, anchors c⟩ else none

end Composer

/-- Reads a document. -/
def Document.parse? (text : String) : Option Document :=
  (Token.scan? text).bind Composer.document?

end LedgerClient.Yaml
