import LedgerClient.Duration
import LedgerClient.Text.Inspect

/-!
# The end of a session

Why a session is over.
-/

namespace LedgerClient

/-- Why a session is over. -/
inductive SessionEnd
  | closed
  | closedByPeer
  /-- Nothing was received for so long. -/
  | livenessExpired (window : Duration)
  /-- A frame could not be written in this time. -/
  | writeTimeout (limit : Duration)
  | socket (reason : String)
deriving DecidableEq, Repr

namespace SessionEnd

def message : SessionEnd → String
  | .closed => "closed locally"
  | .closedByPeer => "closed by peer"
  | .livenessExpired window => "no frame received within " ++ window.text
  | .writeTimeout limit => "write timed out after " ++ limit.text
  | .socket reason => "socket error: " ++ reason

def inspect : SessionEnd → String
  | .closed => "Closed"
  | .closedByPeer => "ClosedByPeer"
  | .livenessExpired window => Text.Inspect.parts "LivenessExpired" [window.text]
  | .writeTimeout limit => Text.Inspect.parts "WriteTimeout" [limit.text]
  | .socket reason => Text.Inspect.parts "Socket" [Text.quoted reason]

def isSocket : SessionEnd → Bool
  | .socket _ => true
  | _ => false

end SessionEnd

end LedgerClient
