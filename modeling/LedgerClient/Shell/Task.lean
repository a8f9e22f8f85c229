import LedgerClient.Session.Call
import LedgerClient.Shell.Invocation
import LedgerClient.Shell.Operand
import LedgerClient.Shell.Report
import LedgerClient.Text.LowerCase

/-!
# What a user asks for

A command of the command line and a line at the prompt both come down to a `Task`: something to be
said at once, or a call of which the result is reported.
-/

namespace LedgerClient.Shell

/-- What comes of something that a user asks for. -/
inductive Task
  | say (text : String)
  | refuse (e : Refusal)
  /-- A call is made, and its result reported. -/
  | call (c : Call) (report : Report)

namespace Task

/-- A task, unless something is wrong with what was asked for. -/
def ofResult {α : Type} (result : Except Refusal α) (make : α → Task) : Task :=
  match result with
  | .ok a => make a
  | .error e => .refuse e

def lookUp (hash : String) : Task :=
  ofResult ((Hash.parse hash).mapError .protocol) fun hash => .call (.tx hash) .transaction

/-- Submits the transaction that an operand stands for. -/
def submit (files : Files) (blob : String) (failHard : Bool) : Task :=
  ofResult (transactionOf files blob) fun c =>
    .call (.command (.submit { c with failHard := c.failHard || failHard })) .submission

def request (name : String) (parameters : Except Refusal Json.Value) : Task :=
  ofResult parameters fun v => .call (.raw name v) .json

/-- What a command of the command line comes down to. Those that go on for longer than one call come
down to nothing here. -/
def ofAction? (files : Files) : Action → Option Task
  | .repl => none
  | .watch _ _ => none
  | .ping => some (.call .ping .pong)
  | .serverInfo => some (.call .serverInfo .serverInfo)
  | .tx hash => some (lookUp hash)
  | .submit blob failHard => some (submit files blob failHard)
  | .request name none => some (request name (.ok .null))
  | .request name (some operand) => some (request name (parametersOf files operand))

/-! ## Lines at the prompt -/

def helpText : String :=
  "\nAvailable commands:\n" ++
  "  help                            Show this help\n" ++
  "  ping                            Ping the server\n" ++
  "  info                            Get server info\n\n" ++
  "  tx <hash>                       Look up a transaction\n" ++
  "  submit <hex_blob>               Submit a signed transaction\n\n" ++
  "  subscribe <stream>...           Follow ledger, transactions or server\n" ++
  "  unsubscribe <stream>...         Stop following streams\n\n" ++
  "  request <command> [params_json] Send any command\n\n" ++
  "  quit, exit                      Exit the REPL\n"

/-- A task about streams, of which there must be at least one. -/
private def aboutStreams (words : List String) (usage : String)
    (make : List Stream.Category → Task) : Task :=
  ofResult ((Stream.Category.parseList words).mapError .protocol) fun streams =>
    if streams.isEmpty then .say usage else make streams

/-- The task of a word at the prompt with the words behind it; the word that ends the conversation
has none. -/
def ofWords? (files : Files) (command : String) (words : List String) : Option Task :=
  match command with
  | "help" | "?" => some (.say helpText)
  | "quit" | "exit" | "q" => none
  | "ping" => some (.call .ping .pong)
  | "info" => some (.call .serverInfo .serverInfo)
  | "tx" =>
    match words with
    | [] => some (.say "Usage: tx <hash>")
    | hash :: _ => some (lookUp hash)
  | "submit" =>
    match words with
    | [] => some (.say "Usage: submit <hex_blob>")
    | blob :: _ => some (submit files blob false)
  | "subscribe" | "sub" =>
    some (aboutStreams words "Usage: subscribe <stream>..." fun streams =>
      .call (.subscribe streams []) (.subscribed streams))
  | "unsubscribe" | "unsub" =>
    some (aboutStreams words "Usage: unsubscribe <stream>..." fun streams =>
      .call (.unsubscribe streams) (.unsubscribed streams))
  | "request" | "r" =>
    match words with
    | [] => some (.say "Usage: request <command> [params_json]")
    | [name] => some (request name (.ok .null))
    | name :: parameters => some (request name (valueOf (Text.joinWith " " parameters)))
  | command => some (.say ("Unknown command: " ++ command ++ ". Type 'help' for help."))

/-- The task of a line at the prompt; the line that ends the conversation has none. -/
def ofLine? (files : Files) (line : String) : Option Task :=
  match Text.words line.toList with
  | [] => some (.say "")
  | command :: words =>
    ofWords? files (String.ofList (Text.lower command)) (words.map String.ofList)

end Task

end LedgerClient.Shell
