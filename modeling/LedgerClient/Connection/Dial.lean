import LedgerClient.Connection.Settings
import LedgerClient.Endpoint

/-!
# Opening a connection

The settings are checked, the endpoint is resolved, its address is dialled and the handshake is
made, in this order. What the network answers is a parameter.
-/

namespace LedgerClient.Connection

/-- What comes of dialling an address. -/
inductive DialOutcome
  | reached
  | refused (cause : SystemError)
  /-- There is no answer in time. -/
  | silent
deriving DecidableEq, Repr

/-- What comes of the handshake with a server that was reached. -/
inductive HandshakeOutcome
  | accepted
  | rejected (reason : String)
  /-- There is no answer in time. -/
  | silent
deriving DecidableEq, Repr

/-- A network, by what comes of dialling an address and of the handshake there. -/
structure Network where
  dial : String → DialOutcome
  handshake : Endpoint → HandshakeOutcome

def Network.none : Network := ⟨fun _ => .refused .networkUnreachable, fun _ => .silent⟩

def establish (network : Network) (s : Settings) : Except ConnectError Endpoint :=
  match s.check with
  | .error e => .error e
  | .ok () =>
    match Endpoint.resolve s.endpoint with
    | .error e => .error e
    | .ok endpoint =>
      match network.dial endpoint.address with
      | .refused cause => .error (.dial endpoint.address cause)
      | .silent => .error (.timeout s.connectTimeout)
      | .reached =>
        match network.handshake endpoint with
        | .accepted => .ok endpoint
        | .rejected reason => .error (.handshake reason)
        | .silent => .error (.timeout s.connectTimeout)

end LedgerClient.Connection
