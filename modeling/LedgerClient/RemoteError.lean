import LedgerClient.Json.Record

/-!
# Errors reported by the server

What a response with the status `error` carries: a token, and often a code and a message.
-/

namespace LedgerClient

open Json (Field Fields Record Value)

/-- An error that the server reports. -/
structure RemoteError where
  token : String
  code : Option Int
  details : Option String
deriving DecidableEq, Repr

namespace RemoteError

def record : Record RemoteError [String, Option Int, Option String] where
  name := "RemoteError"
  fields :=
    .cons (.required "error" .text) <|
    .cons (.optional "error_code" .int32) <|
    .cons (.optional "error_message" .text) .nil
  make := fun (token, code, details, ()) => ⟨token, code, details⟩
  row := fun e => (e.token, e.code, e.details, ())

/-- An error of which only the token is known. -/
def ofToken (token : String) : RemoteError := ⟨token, none, none⟩

/-- Reads a reported error from a value. A fault of the value has no place in a text. -/
def ofValue? (v : Value) : Except Json.Fault RemoteError :=
  (record.codec.decode v.compact).mapError fun fault => { fault with place := none }

def message (e : RemoteError) : String :=
  match e.code, e.details with
  | some code, some details => e.token ++ " (" ++ toString code ++ "): " ++ details
  | none, some details => e.token ++ ": " ++ details
  | some code, none => e.token ++ " (" ++ toString code ++ ")"
  | none, none => e.token

/-- The tokens of conditions that pass: load and availability. -/
def passingTokens : List String :=
  ["slowDown", "tooBusy", "noNetwork", "noCurrent", "noClosed", "amendmentBlocked"]

def isRetryable (e : RemoteError) : Bool := passingTokens.contains e.token

end RemoteError

end LedgerClient
