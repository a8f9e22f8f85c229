import LedgerClient.Yaml.Node
import LedgerClient.Yaml.Spot
import LedgerClient.Yaml.Word

/-!
# Writing documents

`Tree.print` writes what a program has to say: texts, numbers, lists and named fields. Each text is
written in the plainest style that it is read back from; `Tree.toNode` is the document that is
written.
-/

namespace LedgerClient.Yaml

/-- What is written. -/
inductive Tree
  | text (s : String)
  | number (n : Nat)
  | list (items : List Tree)
  | fields (pairs : List (String × Tree))

/-! ## Styles -/

/-- Whether a character is written as it is. Tabs and carriage returns are not. -/
def isPrintable (c : Char) : Bool :=
  c != '\t' && c != '\r' && c.toNat != 0x85 && c != byteOrderMark && isAllowed c

/-- Whether two neighbours in a text pass a test. -/
def anyNeighbours (p : Char → Char → Bool) : List Char → Bool
  | a :: b :: cs => p a b || anyNeighbours p (b :: cs)
  | _ => false

/-- Whether a text has to be escaped in any style but the double-quoted one. -/
def needsEscapes (cs : List Char) : Bool :=
  cs.any (!isPrintable ·) || anyNeighbours (fun a b => a == ' ' && isLineBreak b) cs

/-- Whether the end of a text or a blank follows. -/
def blankFollows (cs : List Char) : Bool := cs.head?.all fun c => isSpacing c || isLineBreak c

/-- Whether a text begins like something that is no plain scalar. -/
def opensOtherwise : List Char → Bool
  | [] => false
  | c :: cs =>
    "#,[]\x7b\x7d&*!|>'\"%@\x60".contains c ||
      ((c == '?' || c == ':' || c == '-') && blankFollows cs) ||
      ((c == '-' || c == '.') && cs.take 2 == [c, c])

/-- Whether a plain scalar would end inside a text: before a comment or at a colon. -/
def endsInside : List Char → Bool
  | [] => false
  | c :: cs =>
    ((isSpacing c || isLineBreak c) && cs.head? == some '#') ||
      (cs.head? == some ':' && blankFollows (cs.drop 1)) || endsInside cs

/-- Whether a text can be a plain scalar outside flow collections. -/
def canBePlain (cs : List Char) : Bool :=
  !needsEscapes cs && !cs.any isLineBreak && cs.head? != some ' ' && cs.getLast? != some ' ' &&
    !opensOtherwise cs && !endsInside cs

/-- The style that a text is written in. -/
def Style.ofText (s : String) : Style :=
  let cs := s.toList
  if cs.contains '\n' then
    if needsEscapes cs || cs.getLast? == some ' ' then .doubleQuoted else .literal
  else if !isMeaning s && canBePlain cs then .plain
  else if needsEscapes cs || anyNeighbours (fun a b => isLineBreak a && b == ' ') cs then
    .doubleQuoted
  else .singleQuoted

/-! ## Texts -/

/-- Spaces up to a column. -/
def indentation (column : Nat) : List Char := List.replicate column ' '

/-- The characters with an escape of one letter. -/
def shortEscapes : List (Char × Char) :=
  [('\x00', '0'), ('\x07', 'a'), ('\x08', 'b'), ('\t', 't'), ('\n', 'n'), ('\x0b', 'v'),
    ('\x0c', 'f'), ('\r', 'r'), ('\x1b', 'e'), ('"', '"'), ('\\', '\\'), ('\u0085', 'N'),
    ('\u2028', 'L'), ('\u2029', 'P')]

/-- A number in so many upper-case hexadecimal digits. -/
def hexText : (count : Nat) → Nat → List Char
  | 0, _ => []
  | count + 1, n => hexText count (n / 16) ++ [((Nat.digitChar (n % 16)).toUpper)]

/-- A character between double quotes. -/
def escaped (c : Char) : List Char :=
  match shortEscapes.lookup c with
  | some letter => ['\\', letter]
  | none =>
    if isPrintable c then [c]
    else
      let n := c.toNat
      if n ≤ 0xFF then '\\' :: 'x' :: hexText 2 n
      else if n ≤ 0xFFFF then '\\' :: 'u' :: hexText 4 n
      else '\\' :: 'U' :: hexText 8 n

/-- The lines of a text with the spaces of a column before each that is not empty. `atStart` says
whether a line begins here. -/
def indentedLines (column : Nat) (atStart : Bool) : List Char → List Char
  | [] => []
  | c :: cs =>
    if isLineBreak c then c :: indentedLines column true cs
    else (if atStart then indentation column else []) ++ c :: indentedLines column false cs

/-- A text between single quotes, in which a quote is written twice. -/
def singleQuotes (column : Nat) (cs : List Char) : List Char :=
  let doubled := cs.flatMap fun c => if c = '\'' then [c, c] else [c]
  let closing := if cs.getLast?.any isLineBreak then indentation column else []
  '\'' :: indentedLines column false doubled ++ closing ++ ['\'']

/-- The header of a literal scalar: the indentation if the text does not show it, and what is kept
of the line breaks at its end. -/
def literalHeader (cs : List Char) : List Char :=
  let hint := if cs.head?.any fun c => c == ' ' || isLineBreak c then ['2'] else []
  let chomping := match cs.reverse with
    | [] => ['-']
    | [c] => if isLineBreak c then ['+'] else ['-']
    | c :: b :: _ => if !isLineBreak c then ['-'] else if isLineBreak b then ['+'] else []
  '|' :: hint ++ chomping

/-- A scalar of this style with its line break; lines of its own are indented to the column. -/
def scalarText (style : Style) (column : Nat) (cs : List Char) : List Char :=
  match style with
  | .plain => cs ++ ['\n']
  | .singleQuoted => singleQuotes column cs ++ ['\n']
  | .literal | .folded =>
    literalHeader cs ++ '\n' :: indentedLines column true cs ++
      (if cs.getLast?.any isLineBreak then [] else ['\n'])
  | .doubleQuoted => '"' :: cs.flatMap escaped ++ ['"', '\n']

/-! ## Trees -/

/-- Some texts, each but the first in a column; that one stands where the line goes on. -/
def inColumn (column : Nat) : List (List Char) → List Char
  | [] => []
  | t :: ts => t ++ ts.flatMap (indentation column ++ ·)

namespace Tree

mutual

/-- What is written behind a dash in this column. -/
def afterDash (column : Nat) : Tree → List Char
  | .text s => ' ' :: scalarText (.ofText s) (column + 2) s.toList
  | .number n => ' ' :: (toString n).toList ++ ['\n']
  | .list [] => " []\n".toList
  | .list (t :: ts) => ' ' :: inColumn (column + 2) (itemTexts (column + 2) (t :: ts))
  | .fields [] => " \x7b\x7d\n".toList
  | .fields (f :: fs) => ' ' :: inColumn (column + 2) (fieldTexts (column + 2) (f :: fs))

/-- What is written behind the name of a field in this column. -/
def afterName (column : Nat) : Tree → List Char
  | .text s => ' ' :: scalarText (.ofText s) (column + 2) s.toList
  | .number n => ' ' :: (toString n).toList ++ ['\n']
  | .list [] => " []\n".toList
  | .list (t :: ts) =>
    '\n' :: indentation column ++ inColumn column (itemTexts column (t :: ts))
  | .fields [] => " \x7b\x7d\n".toList
  | .fields (f :: fs) =>
    '\n' :: indentation (column + 2) ++ inColumn (column + 2) (fieldTexts (column + 2) (f :: fs))

/-- The items of a list in this column. -/
def itemTexts (column : Nat) : List Tree → List (List Char)
  | [] => []
  | t :: ts => ('-' :: t.afterDash column) :: itemTexts column ts

/-- The fields of a tree in this column. -/
def fieldTexts (column : Nat) : List (String × Tree) → List (List Char)
  | [] => []
  | (name, t) :: fs => (name.toList ++ ':' :: t.afterName column) :: fieldTexts column fs

end

mutual

/-- The node that a tree is written as. -/
def toNode : Tree → Node
  | .text s => .styled (.ofText s) s
  | .number n => .styled .plain (toString n)
  | .list items => .sequence (nodes items)
  | .fields pairs => .mapping (pairNodes pairs)

/-- The nodes of some items. -/
def nodes : List Tree → List Node
  | [] => []
  | t :: ts => t.toNode :: nodes ts

/-- The nodes of some fields and of their names. -/
def pairNodes : List (String × Tree) → List (Node × Node)
  | [] => []
  | (name, t) :: fs => (.styled .plain name, t.toNode) :: pairNodes fs

end

/-- The document of named fields. -/
def print (pairs : List (String × Tree)) : String :=
  String.ofList (inColumn 0 (fieldTexts 0 pairs))

end Tree

end LedgerClient.Yaml
