import LedgerClient.Shell.Prompt

/-!
# The client

The program that sends commands: one that the arguments name, those typed at a prompt, or a
subscription whose events are printed until the session is over.
-/

namespace LedgerClient.Shell

open Text (paint)

def UsageError.message : UsageError → String
  | .help => "Usage: xrpl-remote-cli [OPTIONS] [COMMAND]"
  | .version => "xrpl-remote-cli 0.1.0"
  | .unknownCommand => "unrecognized subcommand"
  | .missingOperand => "a required argument was not provided"
  | .unknownArgument => "unexpected argument found"
  | .repeatedOption => "an argument cannot be used multiple times"
  | .unexpectedValue => "unexpected value for an option found; no more were expected"
  | .missingValue => "a value is required for an option but none was supplied"
  | .invalidValue => "invalid value for an option"

/-- What arguments that make no command lead to. -/
def UsageError.printed (e : UsageError) : Printed :=
  match e with
  | .help => ⟨0, e.message ++ "\n", ""⟩
  | .version => ⟨0, e.message ++ "\n", ""⟩
  | e => ⟨2, "", "error: " ++ e.message ++ "\n"⟩

namespace Client

def unconnected (colours : Bool) (e : ClientError) : Printed :=
  (Printed.failed e.inspect).before ""
    (paint colours .red "Connection failed" ++ ": " ++ e.message ++ "\n")

def refused (colours : Bool) (e : Refusal) : Printed :=
  ⟨1, "", Prompt.showRefusal colours e ++ "\n"⟩

def once (w : Surroundings) (task : Task) (v : Conversation) : Printed :=
  match (Prompt.perform w.colours task v).1 with
  | .ok text => ⟨0, text ++ "\n", ""⟩
  | .error e => refused w.colours e

def ledgerOf : Outcome → String
  | .subscription s => (s.ledgerIndex.map toString).getD "-"
  | _ => "-"

/-- Subscribes, and prints events until the session is over. -/
def watch (w : Surroundings) (streams : List Stream.Category) (accounts : List String)
    (v : Conversation) : Printed :=
  match v.call (.subscribe streams accounts) with
  | (.error e, _) => refused w.colours (.client e)
  | (.ok result, v) =>
    ⟨0, eventLines v.events,
      paint w.colours .green "Watching" ++ " " ++
        paint w.colours .cyan (Stream.Category.join streams) ++ " (ledger: " ++ ledgerOf result ++
        ")\n" ++ paint w.colours .dimmed "Press Ctrl+C to stop..." ++ "\n" ++
        paint w.colours .red "Connection closed" ++ ": " ++ v.ending.message ++ "\n"⟩

/-- Whether an action is to read commands from the standard input. -/
def isPrompted : Option Action → Bool
  | none => true
  | some .repl => true
  | some _ => false

def perform (w : Surroundings) (i : Invocation) (s : Connection.Settings) : Printed :=
  match i.action with
  | none => Prompt.run w s
  | some .repl => Prompt.run w s
  | some action =>
    match w.connect s with
    | .error e => unconnected w.colours e
    | .ok v =>
      match action, Task.ofAction? w.files action with
      | .watch streams accounts, _ => watch w streams accounts v
      | _, some task => once w task v
      | _, none => .nothing

def serverVariable : String := "XRPL_REMOTE_ENDPOINT"

def run (w : Surroundings) : Printed :=
  match Invocation.parse (w.environment serverVariable) w.arguments with
  | .error e => e.printed
  | .ok i =>
    match i.settings? with
    | none => .brokenOff
    | some s => perform w i s

end Client

end LedgerClient.Shell
