/-!
# Coloured text

Text for a terminal, in a colour or in another manner. Colours can be off, and a text is then as it
is. Where a painted text ends the manner of another inside it, its own manner is begun again.
-/

namespace LedgerClient.Text

/-- A manner of writing on a terminal. -/
inductive Ink
  | bold
  | heading
  | dimmed
  | red
  | green
  | yellow
  | cyan
deriving DecidableEq, Repr

def Ink.code : Ink → String
  | .bold => "1"
  | .heading => "1;36"
  | .dimmed => "2"
  | .red => "31"
  | .green => "32"
  | .yellow => "33"
  | .cyan => "36"

def Ink.start (ink : Ink) : List Char := ['\x1b', '['] ++ ink.code.toList ++ ['m']

def inkEnd : List Char := ['\x1b', '[', '0', 'm']

/-- A text in which a manner is begun again wherever all manners end. -/
def reopened (start : List Char) : List Char → List Char
  | '\x1b' :: '[' :: '0' :: 'm' :: cs => inkEnd ++ start ++ reopened start cs
  | c :: cs => c :: reopened start cs
  | [] => []

/-- A text in a manner, if colours are on. -/
def paint (colours : Bool) (ink : Ink) (s : String) : String :=
  if colours then String.ofList (ink.start ++ reopened ink.start s.toList ++ inkEnd) else s

end LedgerClient.Text
