import LedgerClient.Config.Basic
import LedgerClient.Text.Blank
import LedgerClient.Text.Number

/-!
# Variables that override a configuration

A variable that is set to something usable takes the place of the field it stands for; one that is
not is passed over.
-/

namespace LedgerClient.Config

/-- The variables that are set. -/
abbrev Environment := String → Option String

/-- The number that a variable is set to, with blanks around it if any. -/
def Environment.number? (environment : Environment) (name : String) : Option UInt64 :=
  (environment name).bind fun text => Text.word64? (Text.trim text.toList)

/-- A server with what the variables say about it. -/
def Remote.override (environment : Environment) (r : Remote) : Remote where
  endpoint := ((environment "XRPL_REMOTE_ENDPOINT").filter (!·.isEmpty)).getD r.endpoint
  connectTimeout := (environment.number? "XRPL_REMOTE_CONNECT_TIMEOUT").getD r.connectTimeout
  writeTimeout := (environment.number? "XRPL_REMOTE_WRITE_TIMEOUT").getD r.writeTimeout
  pingInterval := (environment.number? "XRPL_REMOTE_PING_INTERVAL").or r.pingInterval
  livenessWindow := (environment.number? "XRPL_REMOTE_LIVENESS_WINDOW").getD r.livenessWindow
  requestTimeout := (environment.number? "XRPL_REMOTE_REQUEST_TIMEOUT").getD r.requestTimeout
  outgoingCapacity := r.outgoingCapacity
  streamCapacity := r.streamCapacity

/-- The entries of a list of streams, which are between commas; blank ones count for nothing. -/
def streamEntries (list : String) : List (Except ProtocolError Stream.Category) :=
  let entries := (Text.pieces (· == ',') list.toList).filter fun cs => !(Text.trim cs).isEmpty
  entries.map fun cs => Stream.Category.parse (String.ofList cs)

def streamsOf (list : String) : List Stream.Category :=
  (streamEntries list).filterMap fun
    | .ok category => some category
    | .error _ => none

/-- What is wrong with the entries of a list that are no streams. -/
def streamFaults (list : String) : List ProtocolError :=
  (streamEntries list).filterMap fun
    | .ok _ => none
    | .error e => some e

def streamsVariable : String := "XRPL_REMOTE_STREAMS"

/-- A subscription with what the variables say about it. -/
def Subscription.override (environment : Environment) (s : Subscription) : Subscription where
  streams := ((environment streamsVariable).map streamsOf).getD s.streams
  accounts := s.accounts

def override (environment : Environment) (c : Config) : Config :=
  ⟨c.remote.override environment, c.subscription.override environment⟩

/-- The entries of the variables that are passed over. -/
def Environment.ignored (environment : Environment) : List ProtocolError :=
  ((environment streamsVariable).map streamFaults).getD []

end LedgerClient.Config
