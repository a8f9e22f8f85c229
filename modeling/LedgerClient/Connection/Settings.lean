import LedgerClient.Connection.Error

/-!
# Settings of a connection

The endpoint, the time limits and the queue capacities of a session. The interval of pings follows
the liveness window unless it is set after it: nine tenths of the window. `Settings.check` holds the
settings against each other.
-/

namespace LedgerClient

namespace Connection

/-- The settings of a connection. -/
structure Settings where
  endpoint : String
  /-- How long dialling and the handshake may each take. -/
  connectTimeout : Duration
  /-- How long writing a frame may take. -/
  writeTimeout : Duration
  /-- How long the server may be silent. -/
  livenessWindow : Duration
  pingInterval : Duration
  /-- How long a caller waits for an answer, if not for ever. -/
  requestTimeout : Option Duration
  outgoingCapacity : Nat
  streamCapacity : Nat
deriving DecidableEq, Repr

/-- The endpoint of a server on the same machine. -/
def defaultEndpoint : String := "ws://127.0.0.1:6006"

namespace Settings

def ofEndpoint (endpoint : String) : Settings where
  endpoint := endpoint
  connectTimeout := .ofSeconds 5
  writeTimeout := .ofSeconds 10
  livenessWindow := .ofSeconds 60
  pingInterval := .ofSeconds 54
  requestTimeout := some (.ofSeconds 30)
  outgoingCapacity := 10
  streamCapacity := 10

/-- Nine tenths of a window. There is no answer when nine windows are too long to be held. -/
def pingIntervalOf? (window : Duration) : Option Duration :=
  let nine : Duration := ⟨window.nanos * 9⟩
  if nine.isHeld then some ⟨nine.nanos / 10⟩ else none

/-- Sets the liveness window, and the interval of pings after it. -/
def withLivenessWindow? (window : Duration) (s : Settings) : Option Settings :=
  (pingIntervalOf? window).map fun pingInterval =>
    { s with livenessWindow := window, pingInterval }

def check (s : Settings) : Except ConnectError Unit :=
  if s.pingInterval.isZero then
    .error (.invalidConfig "ping_interval must be greater than zero")
  else if s.livenessWindow.nanos ≤ s.pingInterval.nanos then
    .error (.invalidConfig "ping_interval must be shorter than liveness_window")
  else if s.writeTimeout.isZero then
    .error (.invalidConfig "write_timeout must be greater than zero")
  else if s.connectTimeout.isZero then
    .error (.invalidConfig "connect_timeout must be greater than zero")
  else if s.outgoingCapacity = 0 ∨ s.streamCapacity = 0 then
    .error (.invalidConfig "queue capacities must be greater than zero")
  else .ok ()

end Settings

end Connection

end LedgerClient
