/-!
# Documents

A document is a tree of scalars, sequences and mappings. A scalar keeps the style it was written in
and its tag, because both decide what it can be read as. An alias stands for the node that an
anchor names; `Document.resolve?` follows it.
-/

namespace LedgerClient.Yaml

/-- The five ways of writing a scalar. -/
inductive Style
  | plain
  | singleQuoted
  | doubleQuoted
  | literal
  | folded
deriving DecidableEq, Repr

/-- A text in a document. -/
structure Scalar where
  text : String
  style : Style
  tag : Option String
deriving DecidableEq, Repr

/-- A node of a document. -/
inductive Node
  | scalar (scalar : Scalar)
  | sequence (items : List Node)
  | mapping (pairs : List (Node × Node))
  /-- The node under the anchor with this number. -/
  | alias (anchor : Nat)
deriving Repr

/-- A scalar that is written in some style, without a tag. -/
def Node.styled (style : Style) (text : String) : Node := .scalar ⟨text, style, none⟩

/-- The node that stands where nothing is written. -/
def Node.nothing : Node := .styled .plain ""

/-- A document: its root and the nodes under its anchors. -/
structure Document where
  root : Node
  anchored : List (Nat × Node)
deriving Repr

/-- The node that a node stands for: itself, unless it is an alias. -/
def Document.resolve? (d : Document) : Node → Option Node
  | .alias anchor => (d.anchored.find? (·.1 == anchor)).map (·.2)
  | node => some node

end LedgerClient.Yaml
