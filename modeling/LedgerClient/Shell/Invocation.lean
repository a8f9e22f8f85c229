import LedgerClient.Connection.Settings
import LedgerClient.Shell.Option
import LedgerClient.Stream.Category
import LedgerClient.Text.Number

/-!
# The command line

What the arguments of the program ask for: the server with its time limits, and what to do there.
-/

namespace LedgerClient.Shell

/-- What to do. -/
inductive Action
  | repl
  | ping
  | serverInfo
  | tx (hash : String)
  | submit (blob : String) (failHard : Bool)
  | request (command : String) (parameters : Option String)
  | watch (streams : List Stream.Category) (accounts : List String)
deriving DecidableEq, Repr

/-- What the arguments of the program ask for. -/
structure Invocation where
  server : String
  /-- Seconds to wait for each answer; zero is for ever. -/
  timeout : UInt64
  /-- Seconds that the server may be silent. -/
  liveness : UInt64
  /-- What to do, if anything is said about it. -/
  action : Option Action
deriving DecidableEq, Repr

/-! ## Options -/

private def single (name : String) (letter : Option Char) (accepts : String → Bool) : Opt :=
  ⟨name, letter, .value false accepts⟩

private def repeated (name : String) (letter : Char) (accepts : String → Bool) : Opt :=
  ⟨name, some letter, .value true accepts⟩

/-- Whether a text is a number of 64 bits. -/
def isWord64 (s : String) : Bool := (Text.word64? s.toList).isSome

/-- The values between the commas of an option's value. -/
def listed (s : String) : List String := (Text.pieces (· == ',') s.toList).map String.ofList

/-- The category of streams that a text names. -/
def stream? (s : String) : Option Stream.Category := (Stream.Category.parse s).toOption

def mainGrammar : Grammar where
  options := [single "server" (some 's') fun _ => true, single "timeout" (some 't') isWord64,
    single "liveness" none isWord64, ⟨"version", some 'V', .version⟩]
  operands := 0
  commands := ["repl", "ping", "server-info", "tx", "submit", "request", "watch", "help"]

def submitGrammar : Grammar := ⟨[⟨"fail-hard", none, .mark⟩], 1, []⟩

def watchGrammar : Grammar :=
  ⟨[repeated "streams" 's' fun s => (listed s).all fun s => (stream? s).isSome,
    repeated "accounts" 'a' fun _ => true], 0, []⟩

/-- What a command without options may be given. -/
def operandGrammar (operands : Nat) : Grammar := ⟨[], operands, []⟩

/-! ## Commands -/

def readAll (g : Grammar) (arguments : List String) : Except UsageError Reading :=
  (Reading.start.read g false arguments).bind fun (r, _) => r.settle

/-- The action that follows from a command's operands, the first of which must be there. -/
private def operated (r : Reading) (make : String → List String → Action) :
    Except UsageError Action :=
  match r.operands with
  | [] => .error .missingOperand
  | first :: others => .ok (make first others)

def watchOf (r : Reading) : Action :=
  let streams := (r.values "streams").flatMap listed
  .watch (if r.has "streams" then streams.filterMap stream? else [.ledger])
    ((r.values "accounts").flatMap listed)

/-- Help is asked for with the name of a command behind it, if any. -/
def helpAbout : List String → UsageError
  | [] => .help
  | [name] => if mainGrammar.commands.contains name then .help else .unknownCommand
  | _ => .unknownCommand

/-- The action of a command with its arguments. -/
def actionOf (command : String) (arguments : List String) : Except UsageError Action :=
  match command with
  | "repl" => (readAll (operandGrammar 0) arguments).map fun _ => .repl
  | "ping" => (readAll (operandGrammar 0) arguments).map fun _ => .ping
  | "server-info" => (readAll (operandGrammar 0) arguments).map fun _ => .serverInfo
  | "tx" => do operated (← readAll (operandGrammar 1) arguments) fun hash _ => .tx hash
  | "submit" => do
    let r ← readAll submitGrammar arguments
    operated r fun blob _ => .submit blob (r.has "fail-hard")
  | "request" => do
    operated (← readAll (operandGrammar 2) arguments) fun name others =>
      .request name others.head?
  | "watch" => (readAll watchGrammar arguments).map watchOf
  | _ => .error (helpAbout arguments)

/-- The number that is given for an option, or the one that stands for it. -/
private def numberOf (r : Reading) (name : String) (missing : UInt64) : UInt64 :=
  ((r.values name).head?.bind fun s => Text.word64? s.toList).getD missing

/-- Reads the arguments of the program. The server is the one that is named among them, or else the
one in the environment. -/
def Invocation.parse (endpoint : Option String) (arguments : List String) :
    Except UsageError Invocation := do
  let (r, command) ← Reading.start.read mainGrammar false arguments
  let action ← command.mapM fun (name, rest) => actionOf name rest
  let r ← r.settle
  return {
    server := ((r.values "server").head?.or endpoint).getD Connection.defaultEndpoint
    timeout := numberOf r "timeout" 30
    liveness := numberOf r "liveness" 60
    action }

/-- The settings of the connection that is asked for. There are none when the liveness window is too
long. -/
def Invocation.settings? (i : Invocation) : Option Connection.Settings :=
  ((Connection.Settings.ofEndpoint i.server).withLivenessWindow?
      (.ofSeconds i.liveness.toNat)).map fun s =>
    { s with
      requestTimeout := if i.timeout = 0 then none else some (.ofSeconds i.timeout.toNat) }

end LedgerClient.Shell
