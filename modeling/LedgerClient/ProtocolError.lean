import LedgerClient.Json.Fault

/-!
# Protocol errors

What can be wrong with a single frame or command. None of these ends a session: the frame or the
command is dropped and the connection goes on.
-/

namespace LedgerClient

/-- What is wrong with a frame or a command. -/
inductive ProtocolError
  /-- A text that is not the JSON it should be, or a value that cannot be written. -/
  | json (fault : Json.Fault)
  | invalidUtf8
  | invalidHash (reason : String)
  | invalidBlob (reason : String)
  | unknownStream (name : String)
  /-- A response to no command that is waiting. -/
  | unmatchedResponse (id : Nat)
  /-- A frame that is neither a response nor an event. -/
  | unrouted (type : String)
  | missingField (name : String)

def ProtocolError.message : ProtocolError → String
  | .json fault => "JSON error: " ++ fault.message
  | .invalidUtf8 => "invalid UTF-8 in frame"
  | .invalidHash reason => "invalid hash: " ++ reason
  | .invalidBlob reason => "invalid transaction blob: " ++ reason
  | .unknownStream name => "unknown stream category: " ++ name
  | .unmatchedResponse id =>
    "response id " ++ toString id ++ " does not match any pending command"
  | .unrouted type =>
    "frame of type '" ++ type ++ "' carries no id and is not a known stream"
  | .missingField name => "missing required field: " ++ name

/-- Reports a fault of a JSON text as a protocol error. -/
def ProtocolError.ofJson {α : Type} (result : Except Json.Fault α) : Except ProtocolError α :=
  result.mapError .json

end LedgerClient
