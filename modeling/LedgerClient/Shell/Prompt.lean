import LedgerClient.Shell.Program

/-!
# The prompt

A conversation with a user: lines are read, and what each comes down to is done, until a line ends
it, the input ends, or the session is lost.
-/

namespace LedgerClient.Shell.Prompt

open Text (paint)

/-- The lines of an input. What is behind the last end of a line is a line if it is not empty. -/
def linesOf (input : String) : List String :=
  let lines := input.splitOn "\n"
  if lines.getLast? = some "" then lines.dropLast else lines

def mark (colours : Bool) : String := paint colours .cyan "xrpl>" ++ " "

def showRefusal (colours : Bool) (e : Refusal) : String :=
  paint colours .red "Error" ++ ": " ++ e.message

def perform (colours : Bool) (task : Task) (v : Conversation) :
    Except Refusal String × Conversation :=
  match task with
  | .say text => (.ok text, v)
  | .refuse e => (.error e, v)
  | .call c report =>
    match v.call c with
    | (.ok result, v) => (.ok (report.text colours result), v)
    | (.error e, v) => (.error (.client e), v)

def talk (colours : Bool) (files : Files) : List String → Conversation → String
  | lines, v =>
    if v.isOver then paint colours .red "Connection lost" ++ ": " ++ v.ending.message ++ "\n"
    else match lines with
      | [] => mark colours ++ "^D\n"
      | line :: rest =>
        let line := Text.trim line.toList
        mark colours ++
          if line.isEmpty then talk colours files rest v
          else match Task.ofLine? files (String.ofList line) with
            | none => ""
            | some task =>
              match perform colours task v with
              | (.ok text, v) => text ++ "\n\n" ++ talk colours files rest v
              | (.error e, v) => showRefusal colours e ++ "\n\n" ++ talk colours files rest v

def run (w : Surroundings) (s : Connection.Settings) : Printed :=
  let greeting := paint w.colours .heading "xrpl-remote CLI" ++ "\nConnecting to " ++ s.endpoint ++
    "...\n"
  match w.connect s with
  | .error e => (Printed.failed e.inspect).before greeting ""
  | .ok v =>
    Printed.nothing.before
      (greeting ++ paint w.colours .green "Connected!" ++
        "\nType 'help' for available commands.\n\n" ++ talk w.colours w.files w.lines v ++
        paint w.colours .dimmed "Disconnected." ++ "\n") ""

end LedgerClient.Shell.Prompt
