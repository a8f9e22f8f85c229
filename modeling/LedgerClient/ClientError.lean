import LedgerClient.Connection.Error
import LedgerClient.ProtocolError
import LedgerClient.RemoteError
import LedgerClient.Text.Inspect

/-!
# Errors of commands

What a caller is told when a command has no result.
-/

namespace LedgerClient

def Json.Fault.inspect (fault : Json.Fault) : String :=
  let place := fault.place.getD ⟨0, 0⟩
  "Error(" ++ Text.quoted fault.cause.message ++ ", line: " ++ toString place.line ++
    ", column: " ++ toString place.column ++ ")"

def ProtocolError.inspect : ProtocolError → String
  | .json fault => Text.Inspect.parts "Json" [fault.inspect]
  | .invalidUtf8 => "InvalidUtf8"
  | .invalidHash reason => Text.Inspect.parts "InvalidHash" [Text.quoted reason]
  | .invalidBlob reason => Text.Inspect.parts "InvalidBlob" [Text.quoted reason]
  | .unknownStream name => Text.Inspect.parts "UnknownStream" [Text.quoted name]
  | .unmatchedResponse id => Text.Inspect.parts "UnmatchedResponse" [toString id]
  | .unrouted type => Text.Inspect.parts "Unrouted" [Text.quoted type]
  | .missingField name => Text.Inspect.parts "MissingField" [Text.quoted name]

def RemoteError.inspect (e : RemoteError) : String :=
  Text.Inspect.named "RemoteError"
    [("error", Text.quoted e.token), ("error_code", Text.Inspect.optional toString e.code),
      ("error_message", Text.Inspect.optional Text.quoted e.details)]

/-- Why a command has no result. -/
inductive ClientError
  /-- The session was closed before the command. -/
  | notConnected
  /-- The session ended before the answer. -/
  | connectionClosed
  | timeout (limit : Duration)
  | remote (e : RemoteError)
  /-- The command has no JSON text. -/
  | serialize (id : Nat) (reason : String)
  /-- The answer does not fit the command. -/
  | malformedResponse (id : Nat) (reason : String)
  | duplicateId (id : Nat)
  | invalidArgument (reason : String)
  | protocol (e : ProtocolError)
  | connect (e : ConnectError)

namespace ClientError

def message : ClientError → String
  | .notConnected => "not connected"
  | .connectionClosed => "connection closed"
  | .timeout limit => "request timed out after " ++ limit.text
  | .remote e => "server error: " ++ e.message
  | .serialize id reason =>
    "command id=" ++ toString id ++ " could not be serialized: " ++ reason
  | .malformedResponse id reason =>
    "malformed response for id=" ++ toString id ++ ": " ++ reason
  | .duplicateId id => "request id " ++ toString id ++ " is already pending"
  | .invalidArgument reason => "invalid argument: " ++ reason
  | .protocol e => "protocol error: " ++ e.message
  | .connect e => "connect failed: " ++ e.message

def inspect : ClientError → String
  | .notConnected => "NotConnected"
  | .connectionClosed => "ConnectionClosed"
  | .timeout limit => Text.Inspect.parts "Timeout" [limit.text]
  | .remote e => Text.Inspect.parts "Remote" [e.inspect]
  | .serialize id reason =>
    Text.Inspect.named "Serialize" [("id", toString id), ("reason", Text.quoted reason)]
  | .malformedResponse id reason =>
    Text.Inspect.named "MalformedResponse" [("id", toString id), ("reason", Text.quoted reason)]
  | .duplicateId id => Text.Inspect.parts "DuplicateId" [toString id]
  | .invalidArgument reason => Text.Inspect.parts "InvalidArgument" [Text.quoted reason]
  | .protocol e => Text.Inspect.parts "Protocol" [e.inspect]
  | .connect e => Text.Inspect.parts "Connect" [e.inspect]

def isRetryable : ClientError → Bool
  | .timeout _ => true
  | .connectionClosed => true
  | .remote e => e.isRetryable
  | _ => false

end ClientError

end LedgerClient
