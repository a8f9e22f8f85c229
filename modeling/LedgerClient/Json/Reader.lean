import LedgerClient.Json.Skip

/-!
# Reading JSON values

A `Reader` reads one value of a certain type. Besides the unread text it is given the number of
containers that may still be opened inside one another, which is what bounds the nesting of values
that are kept. `readMembers` and `items` are the two loops that every container is read with;
`Reader.value` keeps whatever stands in the text, the other readers want a certain type and say what
they found instead.
-/

namespace LedgerClient.Json

/-- Reads a value; `room` containers may still be opened. -/
abbrev Reader (α : Type) := (room : Nat) → List Char → Step α

/-- The containers that may stand inside one another in values that are kept. -/
def nestingLimit : Nat := 127

/-! ## Containers -/

/-- Where the next part of a container is. -/
inductive Next
  | closing (rest : List Char)
  | part (rest : List Char)

/-- Where the next item of a list is; `first` if none has been read. -/
def nextItem (first : Bool) (cs : List Char) : Except Stop Next :=
  match dropSpace cs with
  | [] => fail .endInList []
  | c :: rest =>
    if c = ']' then .ok (.closing (c :: rest))
    else if first then .ok (.part (c :: rest))
    else if c = ',' then
      match dropSpace rest with
      | [] => fail .endInValue []
      | d :: more =>
        if d = ']' then failNext .trailingComma (d :: more) else .ok (.part (d :: more))
    else failNext .itemEndExpected (c :: rest)

/-- Where the next key of an object is, behind its opening quote; `first` if none has been read. -/
def nextKey (first : Bool) (cs : List Char) : Except Stop Next :=
  match dropSpace cs with
  | [] => fail .endInObject []
  | c :: rest =>
    if c = '\x7d' then .ok (.closing (c :: rest))
    else if first then
      if c = '"' then .ok (.part rest) else failNext .keyNotString (c :: rest)
    else if c = ',' then
      match dropSpace rest with
      | [] => fail .endInValue []
      | d :: more =>
        if d = '"' then .ok (.part more)
        else if d = '\x7d' then failNext .trailingComma (d :: more)
        else failNext .keyNotString (d :: more)
    else failNext .memberEndExpected (c :: rest)

/-- The text behind the bracket that closes a list. -/
def closeList (cs : List Char) : Except Stop (List Char) :=
  match dropSpace cs with
  | [] => fail .endInList []
  | c :: rest =>
    if c = ']' then .ok rest
    else if c = ',' then
      match dropSpace rest with
      | d :: more => failNext (if d = ']' then .trailingComma else .trailingCharacters) (d :: more)
      | [] => failNext .trailingCharacters []
    else failNext .trailingCharacters (c :: rest)

/-- The text behind the brace that closes an object. -/
def closeObject (cs : List Char) : Except Stop (List Char) :=
  match dropSpace cs with
  | [] => fail .endInObject []
  | c :: rest =>
    if c = '\x7d' then .ok rest
    else failNext (if c = ',' then .trailingComma else .trailingCharacters) (c :: rest)

/-- The text that a list whose reading failed before `cs` is left with. -/
def settleList (cs : List Char) : List Char :=
  match dropSpace cs with
  | [] => []
  | c :: rest => if c = ']' then rest else if c = ',' then dropSpace rest else c :: rest

/-- The text that an object whose reading failed before `cs` is left with. -/
def settleObject (cs : List Char) : List Char :=
  match dropSpace cs with
  | [] => []
  | c :: rest => if c = '\x7d' then rest else c :: rest

/-- Ends the reading of a container: on success its end is read, and a fault without a place is
placed where the container is left. -/
def enclose {α : Type} (close : List Char → Except Stop (List Char))
    (settle : List Char → List Char) : Step α → Step α
  | .ok (a, rest) =>
    match close rest with
    | .ok behind => .ok (a, behind)
    | .error stop => .error stop
  | .error (.loose cause rest) => fail cause (settle rest)
  | .error stop => .error stop

/-- Reads the items of a list, behind those in `taken` (last one first), up to its bracket. -/
def items {α : Type} (item : List Char → Step α) :
    (bound : List Char) → (first : Bool) → (taken : List α) → List Char → Step (List α)
  | bound, first, taken, cs =>
    match nextItem first cs with
    | .error stop => .error stop
    | .ok (.closing rest) => .ok (taken.reverse, rest)
    | .ok (.part rest) =>
      match bound with
      | [] => fail .endInList rest
      | _ :: bound =>
        match item rest with
        | .error stop => .error stop
        | .ok (a, rest) => items item bound false (a :: taken) rest

/-- Reads the members of an object up to its brace. `member` is given each key, what the members
before it came to, and the text behind the key. -/
def readMembers {σ : Type} (member : String → σ → List Char → Step σ) :
    (bound : List Char) → (first : Bool) → σ → List Char → Step σ
  | bound, first, state, cs =>
    match nextKey first cs with
    | .error stop => .error stop
    | .ok (.closing rest) => .ok (state, rest)
    | .ok (.part rest) =>
      match bound with
      | [] => fail .endInObject rest
      | _ :: bound =>
        match readText rest with
        | .error stop => .error stop
        | .ok (key, rest) =>
          match member (String.ofList key) state rest with
          | .error stop => .error stop
          | .ok (state, rest) => readMembers member bound false state rest

/-- Reads a list from behind its opening bracket on. -/
def listBody {α : Type} (item : List Char → Step α) (cs : List Char) : Step (List α) :=
  enclose closeList settleList (items item cs true [] cs)

/-- Reads an object from behind its opening brace on and ends with `finish`. -/
def objectBody {σ α : Type} (start : σ) (member : String → σ → List Char → Step σ)
    (finish : σ → Except Cause α) (cs : List Char) : Step α :=
  enclose closeObject settleObject <|
    match readMembers member cs true start cs with
    | .error stop => .error stop
    | .ok (state, rest) =>
      match finish state with
      | .ok a => .ok (a, rest)
      | .error cause => .error (.loose cause rest)

/-! ## Values of any type -/

def afterColon {α : Type} (value : List Char → Step α) (cs : List Char) : Step α :=
  match colon cs with
  | .error stop => .error stop
  | .ok rest => value rest

/-- Reads a member of an object whose members are kept. -/
def keepMember (value : List Char → Step Value) (key : String) (kept : Members)
    (cs : List Char) : Step Members :=
  match afterColon value cs with
  | .error stop => .error stop
  | .ok (v, rest) => .ok (Members.insert key v kept, rest)

/-- What a word of three literals stands for, with the text behind it. -/
def wordValue {α : Type} (letters : List Char) (a : α) (cs : List Char) : Step α :=
  match word letters cs with
  | .error stop => .error stop
  | .ok rest => .ok (a, rest)

/-- Reads a value of any type, given how the two kinds of container are read behind their opening
bracket. -/
def readAny (list object : List Char → Step Value) (cs : List Char) : Step Value :=
  match dropSpace cs with
  | [] => fail .endInValue []
  | c :: rest =>
    if c = 'n' then wordValue ['u', 'l', 'l'] .null rest
    else if c = 't' then wordValue ['r', 'u', 'e'] (.bool true) rest
    else if c = 'f' then wordValue ['a', 'l', 's', 'e'] (.bool false) rest
    else if c = '"' then
      match readText rest with
      | .error stop => .error stop
      | .ok (s, rest) => .ok (.text (String.ofList s), rest)
    else if c = '-' ∨ isDigit c then
      match readNumber (c :: rest) with
      | .error stop => .error stop
      | .ok (n, rest) => .ok (.number n, rest)
    else if c = '[' then list rest
    else if c = '\x7b' then object rest
    else failNext .valueExpected (c :: rest)

/-- Fails on a container that no room is left for; `rest` is the text behind its bracket. -/
def tooDeep {α : Type} (rest : List Char) : Step α :=
  .error (.placed .tooDeep (Text.byteLength rest))

/-- Reads a value of any type and keeps it. -/
def Reader.value : Reader Value
  | 0, cs => readAny tooDeep tooDeep cs
  | room + 1, cs =>
    readAny
      (fun rest => match listBody (Reader.value room) rest with
        | .error stop => .error stop
        | .ok (vs, rest) => .ok (.list vs, rest))
      (fun rest => match objectBody [] (keepMember (Reader.value room)) .ok rest with
        | .error stop => .error stop
        | .ok (ms, rest) => .ok (.object ms, rest))
      cs

/-! ## Values of one type -/

/-- Fails on a value that is not of the expected type, having passed over it unless it is a
container. -/
def unexpected {α : Type} (expected : String) (cs : List Char) : Step α :=
  let wrong (found : Found) : Except Stop (List Char) → Step α
    | .error stop => .error stop
    | .ok rest => fail (.wrongType found expected) rest
  match cs with
  | [] => failNext .valueExpected []
  | c :: rest =>
    if c = 'n' then wrong .null (word ['u', 'l', 'l'] rest)
    else if c = 't' then wrong (.bool true) (word ['r', 'u', 'e'] rest)
    else if c = 'f' then wrong (.bool false) (word ['a', 'l', 's', 'e'] rest)
    else if c = '-' ∨ isDigit c then
      match readNumber (c :: rest) with
      | .error stop => .error stop
      | .ok (n, rest) => fail (.wrongType (.number n) expected) rest
    else if c = '"' then
      match readText rest with
      | .error stop => .error stop
      | .ok (s, rest) => fail (.wrongType (.text (String.ofList s)) expected) rest
    else if c = '[' then fail (.wrongType .sequence expected) (c :: rest)
    else if c = '\x7b' then fail (.wrongType .map expected) (c :: rest)
    else failNext .valueExpected (c :: rest)

/-- Runs a reader on the text from the first character that is no blank on; the text must not end
before. -/
def atValue {α : Type} (read : Char → List Char → Step α) (cs : List Char) : Step α :=
  match dropSpace cs with
  | [] => fail .endInValue []
  | c :: rest => read c rest

def Reader.text : Reader String := fun _ => atValue fun c rest =>
  if c = '"' then
    match readText rest with
    | .error stop => .error stop
    | .ok (s, rest) => .ok (String.ofList s, rest)
  else unexpected "a string" (c :: rest)

def Reader.bool : Reader Bool := fun _ => atValue fun c rest =>
  if c = 't' then wordValue ['r', 'u', 'e'] true rest
  else if c = 'f' then wordValue ['a', 'l', 's', 'e'] false rest
  else unexpected "a boolean" (c :: rest)

/-- Reads the missing value where a choice has no content. -/
def Reader.unit : Reader Unit := fun _ => atValue fun c rest =>
  if c = 'n' then wordValue ['u', 'l', 'l'] () rest else unexpected "unit" (c :: rest)

def Reader.integer (expected : String) (low high : Int) : Reader Int := fun _ =>
  atValue fun c rest =>
    if c = '-' ∨ isDigit c then
      match readNumber (c :: rest) with
      | .error stop => .error stop
      | .ok (.int i, rest) =>
        if low ≤ i ∧ i ≤ high then .ok (i, rest)
        else fail (.wrongValue (.number (.int i)) expected) rest
      | .ok (.double x, rest) => fail (.wrongType (.number (.double x)) expected) rest
    else unexpected expected (c :: rest)

/-- Reads what may be missing: `null` stands for that. -/
def Reader.option {α : Type} (value : Reader α) : Reader (Option α) := fun room cs =>
  match dropSpace cs with
  | 'n' :: rest => wordValue ['u', 'l', 'l'] none rest
  | cs =>
    match value room cs with
    | .error stop => .error stop
    | .ok (a, rest) => .ok (some a, rest)

/-- Reads a list whose items have one type. -/
def Reader.list {α : Type} (item : Reader α) : Reader (List α) := fun room => atValue fun c rest =>
  if c = '[' then
    match room with
    | 0 => tooDeep rest
    | room + 1 => listBody (item room) rest
  else unexpected "a sequence" (c :: rest)

def Reader.members : Reader Members := fun room => atValue fun c rest =>
  if c = '\x7b' then
    match room with
    | 0 => tooDeep rest
    | room + 1 => objectBody [] (keepMember (Reader.value room)) .ok rest
  else unexpected "a map" (c :: rest)

/-- Reads a string that its type may refuse. -/
def Reader.refined {α : Type} (parse : String → Except String α) : Reader α := fun room cs =>
  match Reader.text room cs with
  | .error stop => .error stop
  | .ok (s, rest) =>
    match parse s with
    | .ok a => .ok (a, rest)
    | .error reason => .error (.loose (.refused reason) rest)

/-- The alternative with this name, or the fault of there being none; `rest` follows the name. -/
def pick {α : Type} (known : List (String × α)) (name : List Char) (rest : List Char) : Step α :=
  match known.find? (·.1 == String.ofList name) with
  | some (_, a) => .ok (a, rest)
  | none => fail (.unknownVariant (String.ofList name) (known.map (·.1))) rest

def variantName {α : Type} (known : List (String × α)) : List Char → Step α := atValue fun c rest =>
  if c = '"' then
    match readText rest with
    | .error stop => .error stop
    | .ok (name, rest) => pick known name rest
  else unexpected "variant identifier" (c :: rest)

/-- Reads one of some named alternatives: its name, or an object with the name as its only key and
`null` as the value. -/
def Reader.choice {α : Type} (known : List (String × α)) : Reader α := fun room =>
  atValue fun c rest =>
    if c = '"' then variantName known (c :: rest)
    else if c = '\x7b' then
      match room with
      | 0 => tooDeep rest
      | room + 1 =>
        match variantName known rest with
        | .error stop => .error stop
        | .ok (a, rest) =>
          match afterColon (Reader.unit room) rest with
          | .error stop => .error stop
          | .ok ((), rest) =>
            match dropSpace rest with
            | [] => fail .endInObject []
            | d :: behind =>
              if d = '\x7d' then .ok (a, behind) else fail .valueExpected (d :: behind)
    else failNext .valueExpected (c :: rest)

/-! ## Whole texts -/

/-- Reads a text that holds one value and nothing else but blanks. -/
def Reader.run {α : Type} (read : Reader α) (text : List Char) : Except Stop α :=
  match read nestingLimit text with
  | .error stop => .error stop
  | .ok (a, rest) =>
    match dropSpace rest with
    | [] => .ok a
    | c :: more => failNext .trailingCharacters (c :: more)

/-- Reads a text, with a report on the first fault in it. -/
def Reader.parse {α : Type} (read : Reader α) (text : String) : Except Fault α :=
  (read.run text.toList).mapError (Fault.of text.toList)

end LedgerClient.Json
