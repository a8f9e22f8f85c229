import LedgerClient.Envelope
import LedgerClient.Socket.Basic
import LedgerClient.Session.End

/-!
# What a receiver makes of a frame

Texts are handed on, and so are binary frames that hold a text. Keepalives and other frames only
show that the peer is there. A close frame, a fault of the socket and its end are the end of the
receiver.
-/

namespace LedgerClient

/-- What a receiver makes of something that it received. -/
inductive Reception
  | text (s : String)
  /-- It shows that the peer is there. -/
  | keepalive
  | garbled (e : ProtocolError)
  | over (reason : SessionEnd)

def Incoming.reception : Incoming → Reception
  | .text s => .text s
  | .binary payload =>
    match decodeUtf8 payload with
    | .ok s => .text s
    | .error e => .garbled e
  | .ping => .keepalive
  | .pong => .keepalive
  | .raw => .keepalive
  | .close => .over .closedByPeer
  | .ended => .over .closedByPeer
  | .failed fault => .over (.socket fault.message)

end LedgerClient
