import LedgerClient.Json.Printer
import LedgerClient.Text.Blank
import LedgerClient.Text.Quoted

/-!
# What is wrong with a JSON text

A `Cause` says what is wrong and a `Place` where: the line, and the number of bytes of it that had
been read. Readers do not count lines. They raise a `Stop`, which is `placed` when it names the
number of bytes still unread, and `loose` when the fault lies with the value rather than with the
text; the container around a loose one places it. `Fault.of` turns either into what is reported.
-/

namespace LedgerClient.Json

/-- What was found where something else was expected. -/
inductive Found
  | null
  | bool (b : Bool)
  | number (n : Number)
  | text (s : String)
  | sequence
  | map

def Found.describe : Found → String
  | .null => "null"
  | .bool b => "boolean `" ++ String.ofList (boolChars b) ++ "`"
  | .number (.int i) => "integer `" ++ String.ofList (intChars i) ++ "`"
  | .number (.double x) => "floating point `" ++ String.ofList (Number.double x).chars ++ "`"
  | .text s => "string " ++ Text.quoted s
  | .sequence => "sequence"
  | .map => "map"

/-- What is wrong with a text. -/
inductive Cause
  | endInValue
  | endInString
  | endInObject
  | endInList
  | valueExpected
  | wordExpected
  | colonExpected
  | memberEndExpected
  | itemEndExpected
  | keyNotString
  | trailingComma
  | trailingCharacters
  | invalidNumber
  | numberOutOfRange
  | invalidEscape
  | controlCharacter
  | loneSurrogate
  | endOfHexEscape
  | tooDeep
  /-- A value of the wrong type. -/
  | wrongType (found : Found) (expected : String)
  /-- A value of the right type that is out of range. -/
  | wrongValue (found : Found) (expected : String)
  /-- A list with too few items for the record that it stands for. -/
  | wrongLength (length : Nat) (expected : String)
  | missing (field : String)
  | duplicate (field : String)
  | unknownVariant (name : String) (known : List String)
  /-- A string that its type refuses. -/
  | refused (reason : String)

def alternatives : List String → String
  | [] => "there are no variants"
  | [a] => "expected `" ++ a ++ "`"
  | [a, b] => "expected `" ++ a ++ "` or `" ++ b ++ "`"
  | names => "expected one of " ++ Text.joinWith ", " (names.map fun n => "`" ++ n ++ "`")

def Cause.message : Cause → String
  | .endInValue => "EOF while parsing a value"
  | .endInString => "EOF while parsing a string"
  | .endInObject => "EOF while parsing an object"
  | .endInList => "EOF while parsing a list"
  | .valueExpected => "expected value"
  | .wordExpected => "expected ident"
  | .colonExpected => "expected `:`"
  | .memberEndExpected => "expected `,` or `\x7d`"
  | .itemEndExpected => "expected `,` or `]`"
  | .keyNotString => "key must be a string"
  | .trailingComma => "trailing comma"
  | .trailingCharacters => "trailing characters"
  | .invalidNumber => "invalid number"
  | .numberOutOfRange => "number out of range"
  | .invalidEscape => "invalid escape"
  | .controlCharacter => "control character (\\u0000-\\u001F) found while parsing a string"
  | .loneSurrogate => "lone leading surrogate in hex escape"
  | .endOfHexEscape => "unexpected end of hex escape"
  | .tooDeep => "recursion limit exceeded"
  | .wrongType found expected => "invalid type: " ++ found.describe ++ ", expected " ++ expected
  | .wrongValue found expected => "invalid value: " ++ found.describe ++ ", expected " ++ expected
  | .wrongLength length expected =>
    "invalid length " ++ toString length ++ ", expected " ++ expected
  | .missing field => "missing field `" ++ field ++ "`"
  | .duplicate field => "duplicate field `" ++ field ++ "`"
  | .unknownVariant name known =>
    "unknown variant `" ++ name ++ "`, " ++ alternatives known
  | .refused reason => reason

/-- Why a reader stopped. -/
inductive Stop
  /-- The fault shows when `unread` bytes of the text are left. -/
  | placed (cause : Cause) (unread : Nat)
  /-- The fault has no place yet; `rest` is the text behind the value. -/
  | loose (cause : Cause) (rest : List Char)

/-- A line, counted from one, and the bytes of it up to the fault. -/
structure Place where
  line : Nat
  column : Nat
deriving DecidableEq, Repr

/-- The place reached after reading `count` bytes from a place on. -/
def Place.after (p : Place) : (count : Nat) → List Char → Place
  | 0, _ => p
  | _, [] => p
  | count, c :: cs =>
    if c = '\n' then Place.after ⟨p.line + 1, 0⟩ (count - 1) cs
    else if count ≤ c.utf8Size then ⟨p.line, p.column + count⟩
    else Place.after ⟨p.line, p.column + c.utf8Size⟩ (count - c.utf8Size) cs

/-- What is reported of a text: what is wrong, and the place if it has one. -/
structure Fault where
  cause : Cause
  place : Option Place

/-- The report on a text for the reader that stopped. -/
def Fault.of (text : List Char) : Stop → Fault
  | .placed cause unread => ⟨cause, some (Place.after ⟨1, 0⟩ (Text.byteLength text - unread) text)⟩
  | .loose cause _ => ⟨cause, none⟩

def Fault.message (f : Fault) : String :=
  match f.place with
  | none => f.cause.message
  | some p =>
    f.cause.message ++ " at line " ++ toString p.line ++ " column " ++ toString p.column

end LedgerClient.Json
