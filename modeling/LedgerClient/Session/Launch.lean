import LedgerClient.Session.Basic

/-!
# Launching a session

What has to be made when a session begins: the queues between its tasks, the ticker by which the
writer pings and the first deadline of the reader. A `Runtime` says what can be made on it. A session
is launched if everything can be made, the writer and the reader each at the moment when they begin.
-/

namespace LedgerClient

/-- What sessions run on, by what can be made there. -/
structure Runtime where
  /-- Whether a queue with room for so many items can be made. -/
  makesQueue : Nat → Bool
  /-- Whether something can be made to happen whenever a duration has passed. -/
  makesTicker : Duration → Bool
  /-- Whether clocks can tell a moment. -/
  tells : Nat → Bool
  makesQueue_iff (capacity : Nat) :
    makesQueue capacity = true ↔ 0 < capacity ∧ capacity ≤ Session.maxCapacity
  makesTicker_iff (period : Duration) : makesTicker period = true ↔ 0 < period.nanos
  tells_of_le {t t' : Nat} : t ≤ t' → tells t' = true → tells t = true

/-- Something that happens at a moment and then whenever a period has passed. -/
structure Ticker where
  first : Nat
  period : Duration
deriving DecidableEq, Repr

namespace Runtime

/-- A runtime whose clocks tell the moments before the end of time. -/
def standard : Runtime where
  makesQueue capacity := 0 < capacity ∧ capacity ≤ Session.maxCapacity
  makesTicker period := 0 < period.nanos
  tells t := t < Session.endOfTime
  makesQueue_iff _ := decide_eq_true_iff
  makesTicker_iff _ := decide_eq_true_iff
  tells_of_le hle h := decide_eq_true (Nat.lt_of_le_of_lt hle (of_decide_eq_true h))

def queue? {α : Type} (r : Runtime) (capacity : Nat) : Option (Mailbox α) :=
  if r.makesQueue capacity then some (.bounded capacity) else none

/-- The moment that comes a duration after another. -/
def later? (r : Runtime) (t : Nat) (d : Duration) : Option Nat :=
  if r.tells (t + d.nanos) then some (t + d.nanos) else none

def ticker? (r : Runtime) (first : Nat) (period : Duration) : Option Ticker :=
  if r.makesTicker period then some ⟨first, period⟩ else none

end Runtime

/-- A session whose tasks have begun. -/
structure Launched where
  session : Session
  pings : Ticker
  /-- How long the reader waits for the first frame. -/
  deadline : Nat

/-- A session with everything made for it, by when the writer and the reader began. -/
def Launched.of (settings : Connection.Settings) (writing reading : Nat) : Launched where
  session := .start settings
  pings := ⟨writing + settings.pingInterval.nanos, settings.pingInterval⟩
  deadline := reading + settings.livenessWindow.nanos

/-- Launches a session whose writer and reader begin at the given moments. There is none if
something cannot be made for it. -/
def Session.launch? (r : Runtime) (settings : Connection.Settings) (writing reading : Nat) :
    Option Launched := do
  let intake ← r.queue? settings.outgoingCapacity
  let events ← r.queue? settings.streamCapacity
  let outbound ← r.queue? innerCapacity
  let frames ← r.queue? innerCapacity
  let deadline ← r.later? reading settings.livenessWindow
  let first ← r.later? writing settings.pingInterval
  let pings ← r.ticker? first settings.pingInterval
  let session := Session.start settings
  let dispatcher := { session.dispatcher with intake, events, outbound, frames }
  return { session := { session with dispatcher }, pings, deadline }

end LedgerClient
