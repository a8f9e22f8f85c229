/-!
# Options and operands

How the arguments of a command are cut into options with their values and operands. An option has a
long name, which follows two dashes, and may have a letter, which follows one; letters may be
joined. A value follows its option, in the same argument or in the next one, which must not begin
with a dash. Behind two dashes alone all arguments are operands.

An option and its value are taken together when the next option or operand is met, or at the end:
which of two mistakes is reported depends on it.
-/

namespace LedgerClient.Shell

/-- Why arguments make no command; asking for help or for the version is among the reasons. -/
inductive UsageError
  | help
  | version
  | unknownCommand
  | missingOperand
  /-- An option that the command does not have, or an operand too many. -/
  | unknownArgument
  /-- An option that may be given once is given again. -/
  | repeatedOption
  /-- An option that takes no value has one. -/
  | unexpectedValue
  | missingValue
  | invalidValue
deriving DecidableEq, Repr

/-- What an option does. -/
inductive Effect
  | help
  | version
  | mark
  /-- It has a value, which must pass a test, and may be given again if `repeats` says so. -/
  | value (repeats : Bool) (accepts : String → Bool)

/-- An option. -/
structure Opt where
  name : String
  letter : Option Char
  effect : Effect

/-- What a command may be given. -/
structure Grammar where
  options : List Opt
  /-- How many operands it takes at most. -/
  operands : Nat
  /-- The names of the commands that may follow. -/
  commands : List String

def helpOption : Opt := ⟨"help", some 'h', .help⟩

namespace Grammar

def named? (g : Grammar) (name : String) : Option Opt :=
  (g.options ++ [helpOption]).find? (·.name == name)

def lettered? (g : Grammar) (letter : Char) : Option Opt :=
  (g.options ++ [helpOption]).find? (·.letter == some letter)

end Grammar

/-- What has been read of some arguments. -/
structure Reading where
  /-- The options with their values, in order. -/
  given : List (String × String)
  /-- The last option, if it has not been taken, with its value, if it has been met. -/
  pending : Option (Opt × Option String)
  operands : List String

namespace Reading

def start : Reading := ⟨[], none, []⟩

def has (r : Reading) (name : String) : Bool := r.given.any (·.1 == name)

def values (r : Reading) (name : String) : List String :=
  (r.given.filter (·.1 == name)).map (·.2)

/-- Whether the value of an option comes next. -/
def awaitsValue (r : Reading) : Bool :=
  match r.pending with
  | some (_, none) => true
  | _ => false

def take (o : Opt) (value : String) (r : Reading) : Except UsageError Reading :=
  match o.effect with
  | .help => .error .help
  | .version => .error .version
  | .mark =>
    if r.has o.name then .error .repeatedOption
    else .ok { r with given := r.given ++ [(o.name, value)] }
  | .value repeats accepts =>
    if !repeats && r.has o.name then .error .repeatedOption
    else if accepts value then .ok { r with given := r.given ++ [(o.name, value)] }
    else .error .invalidValue

def settle (r : Reading) : Except UsageError Reading :=
  match r.pending with
  | none => .ok r
  | some (_, none) => .error .missingValue
  | some (o, some value) => { r with pending := none }.take o value

/-- Meets an option that has its value, if any, in the same argument. -/
def meetOption (o : Opt) (attached : Option String) (r : Reading) : Except UsageError Reading := do
  match o.effect, attached with
  | .value _ _, none => return { ← r.settle with pending := some (o, none) }
  | .value _ _, some value => (← r.settle).take o value
  | _, some _ => throw .unexpectedValue
  | _, none => (← r.settle).take o ""

/-- Meets joined letters. What follows the letter of an option with a value is its value, behind an
equals sign if there is one. -/
def meetLetters (g : Grammar) : List Char → Reading → Except UsageError Reading
  | [], r => .ok r
  | c :: cs, r =>
    match g.lettered? c with
    | none => .error .unknownArgument
    | some o =>
      match o.effect, cs with
      | .value _ _, [] => r.meetOption o none
      | .value _ _, '=' :: value => r.meetOption o (some (String.ofList value))
      | .value _ _, value => r.meetOption o (some (String.ofList value))
      | _, _ => (r.meetOption o none).bind (meetLetters g cs)

def meetLong (g : Grammar) (cs : List Char) (r : Reading) : Except UsageError Reading :=
  let name := cs.takeWhile (· ≠ '=')
  let attached := match cs.dropWhile (· ≠ '=') with
    | [] => none
    | _ :: value => some (String.ofList value)
  match g.named? (String.ofList name) with
  | none => .error .unknownArgument
  | some o => r.meetOption o attached

def meetOperand (g : Grammar) (trailing : Bool) (a : String) (r : Reading) :
    Except UsageError Reading :=
  if r.operands.length < g.operands then
    r.settle.map fun r => { r with operands := r.operands ++ [a] }
  else if g.commands.isEmpty || (trailing && g.commands.contains a) then .error .unknownArgument
  else .error .unknownCommand

/-- Meets an argument that is no command's name. -/
def meet (g : Grammar) (a : String) (r : Reading) : Except UsageError Reading :=
  match a.toList with
  | '-' :: '-' :: cs => r.meetLong g cs
  | '-' :: c :: cs => r.meetLetters g (c :: cs)
  | _ =>
    match r.pending with
    | some (o, none) => .ok { r with pending := some (o, some a) }
    | _ => r.meetOperand g false a

/-- Reads arguments up to the name of a command, which comes with the arguments behind it. The last
option may be pending. -/
def read (g : Grammar) : (trailing : Bool) → List String → Reading →
    Except UsageError (Reading × Option (String × List String))
  | _, [], r => .ok (r, none)
  | true, a :: rest, r => (r.meetOperand g true a).bind (read g true rest)
  | false, a :: rest, r =>
    if !r.awaitsValue && g.commands.contains a then .ok (r, some (a, rest))
    else if a = "--" then read g true rest r
    else (r.meet g a).bind (read g false rest)

end Reading

end LedgerClient.Shell
