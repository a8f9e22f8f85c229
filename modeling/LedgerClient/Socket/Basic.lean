/-!
# Sockets

What comes out of a socket and what can go wrong with it.
-/

namespace LedgerClient

/-- What goes wrong with a socket. -/
inductive SocketFault
  | connectionClosed
  | alreadyClosed
  /-- The peer is gone without a close frame. -/
  | resetWithoutHandshake
  | other (message : String)
deriving DecidableEq, Repr

def SocketFault.message : SocketFault → String
  | .connectionClosed => "Connection closed normally"
  | .alreadyClosed => "Trying to work with closed connection"
  | .resetWithoutHandshake =>
    "WebSocket protocol error: Connection reset without closing handshake"
  | .other message => message

/-- What the receiving half of a socket gives. -/
inductive Incoming
  | text (s : String)
  | binary (payload : ByteArray)
  | ping
  | pong
  | close
  /-- A frame that is none of the above. -/
  | raw
  | failed (fault : SocketFault)
  | ended

/-- Something that is there to be received from a time on. -/
structure Arrival where
  time : Nat
  item : Incoming

/-- What is handed to the sending half of a socket. -/
inductive Outgoing
  | text (s : String)
  | ping
  | close
deriving DecidableEq, Repr

end LedgerClient
