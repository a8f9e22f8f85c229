import LedgerClient.Shell.Client
import LedgerClient.Shell.Monitor

/-!
# The programs

The client, and with `monitor` for the first argument the monitor. What is around them is read
before they run: the variables, the files that can be named and, for a prompt, the standard input.

There are no sockets here: the network is one without hosts, so that no server is ever reached and
no session begins. What the programs do with a session is in `Client.run` and `Monitor.run`, for any
network and any conversation, and which conversation a session brings is in `Session.conversation`.
-/

namespace LedgerClient.Shell

def variableNames : List String :=
  [Config.fileVariable, Config.streamsVariable, Client.serverVariable,
    "XRPL_REMOTE_CONNECT_TIMEOUT", "XRPL_REMOTE_WRITE_TIMEOUT", "XRPL_REMOTE_PING_INTERVAL",
    "XRPL_REMOTE_LIVENESS_WINDOW", "XRPL_REMOTE_REQUEST_TIMEOUT"]

/-- What the system reports when a file cannot be read. -/
def systemErrorOf : IO.Error → SystemError
  | .noFileOrDirectory _ _ _ => .fileNotFound
  | .inappropriateType _ _ _ => .isADirectory
  | .permissionDenied _ code details => ⟨code.toNat, "PermissionDenied", details⟩
  | e => ⟨5, "Uncategorized", toString e⟩

def readNamed (name : String) : IO (String × Except SystemError (List UInt8)) := do
  try return (name, .ok (← IO.FS.readBinFile name).data.toList)
  catch e => return (name, .error (systemErrorOf e))

/-- Whether commands are read from the standard input. -/
def asksForInput (endpoint : Option String) (arguments : List String) : Bool :=
  match Invocation.parse endpoint arguments with
  | .ok i => Client.isPrompted i.action
  | .error _ => false

partial def readInput (stdin : IO.FS.Stream) (text : String) : IO String := do
  let line ← stdin.getLine
  if line.isEmpty then return text else readInput stdin (text ++ line)

def surroundings (isClient : Bool) (arguments : List String) : IO Surroundings := do
  let values ← variableNames.mapM fun name => return (name, ← IO.getEnv name)
  let environment := fun name => (values.lookup name).bind id
  let prompted := isClient && asksForInput (environment Client.serverVariable) arguments
  let input ← if prompted then readInput (← IO.getStdin) "" else pure ""
  let words := arguments ++ input.splitOn "\n" ++ (Text.words input.toList).map String.ofList
  let names := (environment Config.fileVariable).toList ++ words.filterMap fileOf?
  let files ← names.mapM readNamed
  return {
    arguments
    environment
    files := fun name => (files.lookup name).getD (.error .fileNotFound)
    lines := Prompt.linesOf input
    colours := false
    network := .none
    converse := fun _ => ⟨[], [], .closed, true⟩ }

end LedgerClient.Shell

open LedgerClient.Shell in
def main (arguments : List String) : IO UInt32 := do
  let printed ← match arguments with
    | "monitor" :: rest => Monitor.run <$> surroundings false rest
    | _ => Client.run <$> surroundings true arguments
  IO.print printed.output
  IO.eprint printed.errors
  return printed.code.toUInt32
