import LedgerClient.Command.Outcome
import LedgerClient.ProtocolError
import LedgerClient.RemoteError

/-!
# Responses

The server's answer to a command: its id, a status, and a result or the details of an error. The
result is read in the shape that the command asks for.
-/

namespace LedgerClient

open Json (Field Fields Record)

/-- Whether a command succeeded. -/
inductive Status
  | success
  | error
deriving DecidableEq, Repr

namespace Status

def name : Status → String
  | .success => "success"
  | .error => "error"

def codec : Json.Codec Status := .choice [("success", .success), ("error", .error)] name

end Status

/-- The answer to a command. -/
structure Response where
  id : Nat
  status : Status
  /-- The type of the frame, empty if it names none. -/
  type : String
  result : Option Outcome
  errorToken : Option String
  errorCode : Option Int
  errorMessage : Option String

namespace Response

/-- The members of an answer whose result has a shape. -/
def record (shape : Shape) : Record Response
    [Nat, Status, String, Option Outcome, Option String, Option Int, Option String] where
  name := "Response"
  fields :=
    .cons (.required "id" .nat64) <|
    .cons (.required "status" Status.codec) <|
    .cons (.omitting "type" .text "" String.isEmpty) <|
    .cons (.optionalInObject "result" (Outcome.codec shape)) <|
    .cons (.optional "error" .text) <|
    .cons (.optional "error_code" .int32) <|
    .cons (.optional "error_message" .text) .nil
  make := fun (a, b, c, d, e, f, g, ()) => ⟨a, b, c, d, e, f, g⟩
  row := fun r => (r.id, r.status, r.type, r.result, r.errorToken, r.errorCode, r.errorMessage, ())

def success (id : Nat) (result : Outcome) : Response :=
  ⟨id, .success, "response", some result, none, none, none⟩

def failure (id : Nat) (e : RemoteError) : Response :=
  ⟨id, .error, "response", none, some e.token, e.code, e.details⟩

/-- Reads the frame of an answer whose result has a shape. -/
def decode (shape : Shape) (frame : String) : Except ProtocolError Response :=
  ProtocolError.ofJson ((record shape).codec.decode frame)

/-- The JSON text of an answer. The shape does not matter for writing. -/
def text (r : Response) : String := (record .untyped).codec.encode r

def isSuccess (r : Response) : Bool := r.status == .success

def isError (r : Response) : Bool := r.status == .error

/-- The result of an answer, or the error that the server reports. -/
def outcome (r : Response) : Except ProtocolError (Except RemoteError Outcome) :=
  match r.status with
  | .success =>
    match r.result with
    | some result => .ok (.ok result)
    | none => .error (.missingField "result")
  | .error => .ok (.error ⟨r.errorToken.getD "unknown", r.errorCode, r.errorMessage⟩)

end Response

end LedgerClient
