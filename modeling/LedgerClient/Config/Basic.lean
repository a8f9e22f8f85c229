import LedgerClient.Connection.Settings
import LedgerClient.Stream.Category

/-!
# Configuration

What a user may set: the server with its time limits in whole seconds, and what to subscribe to.
`Config.settings?` are the settings of the connection that a configuration asks for.
-/

namespace LedgerClient

/-- The server and how to talk to it. -/
structure Config.Remote where
  endpoint : String
  /-- Seconds; so are the other limits. -/
  connectTimeout : UInt64
  writeTimeout : UInt64
  /-- The interval of pings, if it is not to follow the liveness window. -/
  pingInterval : Option UInt64
  livenessWindow : UInt64
  /-- How long a caller waits for an answer; zero is for ever. -/
  requestTimeout : UInt64
  outgoingCapacity : UInt64
  streamCapacity : UInt64
deriving DecidableEq, Repr

/-- What to subscribe to. -/
structure Config.Subscription where
  streams : List Stream.Category
  accounts : List String
deriving DecidableEq, Repr

/-- A configuration. -/
structure Config where
  remote : Config.Remote
  subscription : Config.Subscription
deriving DecidableEq, Repr

namespace Config

/-- The server of a configuration that says nothing about it. -/
def Remote.default : Remote where
  endpoint := Connection.defaultEndpoint
  connectTimeout := 5
  writeTimeout := 10
  pingInterval := none
  livenessWindow := 60
  requestTimeout := 30
  outgoingCapacity := 10
  streamCapacity := 10

/-- What is subscribed to when nothing is said about it: ledgers. -/
def Subscription.default : Subscription := ⟨[.ledger], []⟩

def default : Config := ⟨.default, .default⟩

def seconds (n : UInt64) : Duration := .ofSeconds n.toNat

/-- The settings of the connection that a configuration asks for. There are none when the interval
of pings would follow a liveness window that is too long. -/
def settings? (c : Config) : Option Connection.Settings :=
  ((Connection.Settings.ofEndpoint c.remote.endpoint).withLivenessWindow?
      (seconds c.remote.livenessWindow)).map fun s =>
    { s with
      connectTimeout := seconds c.remote.connectTimeout
      writeTimeout := seconds c.remote.writeTimeout
      pingInterval := (c.remote.pingInterval.map seconds).getD s.pingInterval
      requestTimeout := if c.remote.requestTimeout = 0 then none
        else some (seconds c.remote.requestTimeout)
      outgoingCapacity := c.remote.outgoingCapacity.toNat
      streamCapacity := c.remote.streamCapacity.toNat }

end Config

end LedgerClient
