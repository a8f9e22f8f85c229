import LedgerClient.Yaml.Node
import LedgerClient.Yaml.Spot

/-!
# Tokens

The words of a document. Where a block collection begins and ends is seen from the indentation, and
so has tokens of its own.
-/

namespace LedgerClient.Yaml

/-- A word of a document. -/
inductive Token
  | versionDirective (major minor : Nat)
  | tagDirective (handle start : String)
  | documentStart
  | documentEnd
  | blockSequenceStart
  | blockMappingStart
  /-- The end of a block sequence or of a block mapping. -/
  | blockEnd
  | flowSequenceStart
  | flowSequenceEnd
  | flowMappingStart
  | flowMappingEnd
  | blockEntry
  | flowEntry
  | key
  | value
  | alias (name : String)
  | anchor (name : String)
  /-- A tag is the text that its handle stands for, followed by the ending. -/
  | tag (handle ending : String)
  | scalar (text : String) (style : Style)
deriving DecidableEq, Repr

namespace Token

/-- The marker of the start or of the end of a document, which stands at the start of a line, and
what is behind it. -/
def marker? : List Spot → Option (Token × List Spot)
  | a :: b :: c :: rest =>
    if a.column = 0 ∧ a.char = b.char ∧ b.char = c.char ∧ endsWord rest then
      if a.char = '-' then some (.documentStart, rest)
      else if a.char = '.' then some (.documentEnd, rest)
      else none
    else none
  | _ => none

end Token

end LedgerClient.Yaml
