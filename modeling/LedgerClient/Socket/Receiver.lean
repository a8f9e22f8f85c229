import LedgerClient.Socket.Clock
import LedgerClient.Socket.Reception

/-!
# The receiver

The task that receives frames and hands their texts to the dispatcher. Anything that is received
pushes its deadline out by the liveness window; silence until the deadline ends the session, but
what is there at the deadline is still received. `Receiver.run` follows one receiver through
everything that arrives.
-/

namespace LedgerClient.Receiver

/-- How a receiver is set up. -/
structure Setting where
  clock : Clock
  window : Duration

/-- How long the dispatcher takes to accept the text with a number; no time is given once the
dispatcher is gone. -/
abbrev Consumer := Nat → Option Nat

/-- A receiver that waits for the next arrival. -/
structure State where
  now : Nat
  deadline : Nat
  /-- The texts that were handed on, with their times. -/
  forwarded : List (Nat × String)
  /-- What was wrong with the frames that were passed over. -/
  discarded : List ProtocolError

/-- What a receiver has done in the end. -/
structure Report where
  forwarded : List (Nat × String)
  discarded : List ProtocolError
  reason : SessionEnd
  time : Nat

/-- A receiver at the start of a session. -/
def start (setting : Setting) : State := ⟨0, setting.window.nanos, [], []⟩

def State.finish (s : State) (reason : SessionEnd) : Report :=
  ⟨s.forwarded, s.discarded, reason, s.now⟩

/-- When the receiver gives up if nothing arrives. -/
def State.expiry (setting : Setting) (s : State) : Nat :=
  max s.now (setting.clock.wake s.deadline)

def State.forward (consumer : Consumer) (text : String) (s : State) : Except Report State :=
  match consumer s.forwarded.length with
  | none => .error (s.finish .closed)
  | some delay =>
    .ok { s with now := s.now + delay, forwarded := s.forwarded ++ [(s.now + delay, text)] }

def State.receive (consumer : Consumer) (item : Incoming) (s : State) : Except Report State :=
  match item.reception with
  | .text text => s.forward consumer text
  | .keepalive => .ok s
  | .garbled e => .ok { s with discarded := s.discarded ++ [e] }
  | .over reason => .error (s.finish reason)

def State.expire (setting : Setting) (s : State) : Report :=
  { s with now := s.expiry setting }.finish (.livenessExpired setting.window)

def follow (setting : Setting) (consumer : Consumer) : List Arrival → State → Report
  | [], s => s.expire setting
  | arrival :: arrivals, s =>
    let now := max s.now arrival.time
    if now ≤ s.expiry setting then
      let s := { s with now, deadline := now + setting.window.nanos }
      match s.receive consumer arrival.item with
      | .ok s => follow setting consumer arrivals s
      | .error report => report
    else s.expire setting

/-- The life of a receiver; after the last arrival there is silence. -/
def run (setting : Setting) (consumer : Consumer) (arrivals : List Arrival) : Report :=
  follow setting consumer arrivals (start setting)

end LedgerClient.Receiver
