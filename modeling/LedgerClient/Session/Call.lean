import LedgerClient.ClientError
import LedgerClient.Command.Basic
import LedgerClient.Response

/-!
# Calls

What a caller asks of a session. The arguments of a call are checked before it becomes a command,
and the response to the command becomes the result of the call.
-/

namespace LedgerClient

/-- What a caller asks of a session. -/
inductive Call
  | tx (hash : Hash)
  /-- Submits the bytes of a transaction. -/
  | submit (bytes : List UInt8)
  | submitBlob (blob : String)
  | subscribe (streams : List Stream.Category) (accounts : List String)
  | unsubscribe (streams : List Stream.Category)
  | ping
  | serverInfo
  | raw (name : String) (parameters : Json.Value)
  | command (c : Command)

namespace Call

/-- The command of a call whose arguments pass their checks. -/
def command? : Call → Except ClientError Command
  | .tx hash => .ok (.tx ⟨hash, false⟩)
  | .submit bytes =>
    if bytes.isEmpty then .error (.invalidArgument "transaction blob is empty")
    else .ok (.submit (.ofBytes bytes))
  | .submitBlob blob => ((SubmitCommand.ofBlob blob).mapError .protocol).map .submit
  | .subscribe streams accounts => .ok (.subscribe ⟨streams, accounts⟩)
  | .unsubscribe streams => .ok (.unsubscribe ⟨streams, []⟩)
  | .ping => .ok .ping
  | .serverInfo => .ok .serverInfo
  | .raw name parameters =>
    if (Text.trim name.toList).isEmpty then .error (.invalidArgument "command name is empty")
    else match parameters with
      | .object members => .ok (.raw (.of name members))
      | .null => .ok (.raw (.of name []))
      | other =>
        .error (.invalidArgument ("parameters must be a JSON object, got " ++ other.compact))
  | .command c => .ok c

end Call

/-- The result of a call whose command is answered. -/
def Response.callResult (r : Response) : Except ClientError Outcome :=
  match r.outcome with
  | .ok (.ok result) => .ok result
  | .ok (.error e) => .error (.remote e)
  | .error e => .error (.malformedResponse r.id e.message)

end LedgerClient
