import LedgerClient.Connection.Error
import LedgerClient.Uri

/-!
# Endpoints

The address of a server, `ws://host:port/path`. `Endpoint.resolve` says which host and port to dial.
-/

namespace LedgerClient

/-- Where to connect to. -/
structure Endpoint where
  uri : Uri
  /-- The host and the port to dial. -/
  address : String
deriving DecidableEq, Repr

namespace Endpoint

/-- The port of an endpoint that names none. -/
def defaultPort : Nat := 80

def bareHost (host : List Char) : List Char :=
  ((host.dropWhile (· = '[')).reverse.dropWhile (· = ']')).reverse

/-- A host and a port as they are dialled: a host with colons is in brackets. -/
def dialText (host : List Char) (port : Nat) : String :=
  let text := String.ofList host
  (if host.contains ':' then "[" ++ text ++ "]" else text) ++ ":" ++ toString port

def resolve (endpoint : String) : Except ConnectError Endpoint :=
  let invalid (reason : String) : Except ConnectError Endpoint :=
    .error (.invalidEndpoint (endpoint ++ ": " ++ reason))
  match Uri.parse endpoint with
  | .error fault => invalid fault.message
  | .ok uri =>
    match uri.scheme with
    | none => invalid "missing scheme"
    | some scheme =>
      if scheme ≠ "ws" then .error (.unsupportedScheme scheme)
      else if uri.host.isEmpty then invalid "missing host"
      else .ok ⟨uri, dialText (bareHost uri.host) (uri.port?.getD defaultPort)⟩

end Endpoint

end LedgerClient
