import LedgerClient.Config.Load
import LedgerClient.Connection.Dial
import LedgerClient.Session.Conversation
import LedgerClient.Shell.Task

/-!
# Programs

What a program prints and the code that it ends with, given everything around it. The programs
themselves are `Client.run` and `Monitor.run`.
-/

namespace LedgerClient.Shell

open Text (paint)

/-- What is around a program. -/
structure Surroundings where
  arguments : List String
  environment : Config.Environment
  files : Files
  /-- The lines of the standard input. -/
  lines : List String
  colours : Bool
  network : Connection.Network
  /-- What a session with a server that was reached brings. -/
  converse : Endpoint → Conversation

/-- What a program leaves behind: what it printed, and the code that it ended with. -/
structure Printed where
  code : Nat
  output : String
  errors : String
deriving DecidableEq, Repr

namespace Printed

def nothing : Printed := ⟨0, "", ""⟩

def before (output errors : String) (p : Printed) : Printed :=
  ⟨p.code, output ++ p.output, errors ++ p.errors⟩

/-- A program that fails ends by showing its error. -/
def failed (inspected : String) : Printed := ⟨1, "", "Error: " ++ inspected ++ "\n"⟩

/-- A program that cannot represent a duration breaks off. -/
def brokenOff : Printed := ⟨101, "", "overflow when multiplying duration by scalar\n"⟩

end Printed

def eventLines (events : List Stream.Event) : String :=
  String.join (events.map fun e => e.text ++ "\n")

def Surroundings.connect (w : Surroundings) (s : Connection.Settings) :
    Except ClientError Conversation :=
  match Connection.establish w.network s with
  | .error e => .error (.connect e)
  | .ok endpoint => .ok (w.converse endpoint)

end LedgerClient.Shell
