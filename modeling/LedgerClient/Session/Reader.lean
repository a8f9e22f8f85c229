import LedgerClient.Dispatcher.Basic
import LedgerClient.Socket.Reception

/-!
# The reader of a session

What the reader beside a dispatcher is doing, without regard to time. It receives frames and puts
their texts into the dispatcher's queue, one at a time. When it stops it gives up its end of the
queue, which is how the dispatcher learns of it.
-/

namespace LedgerClient

/-- What a reader is doing. -/
inductive Reader
  | idle
  /-- It hands a text to the dispatcher. -/
  | holding (text : String)
  | stopped (reason : SessionEnd)
  /-- It was given up before it had a reason to stop. -/
  | abandoned

namespace Reader

/-- Gives up the reader's end of the queue. -/
def release (d : Dispatcher) : Dispatcher := { d with frames := d.frames.dropSender }

def receive (item : Incoming) (r : Reader) (d : Dispatcher) : Option (Reader × Dispatcher) :=
  match r with
  | .idle =>
    match item.reception with
    | .text text => some (.holding text, d)
    | .keepalive => some (.idle, d)
    | .garbled _ => some (.idle, d)
    | .over reason => some (.stopped reason, release d)
  | _ => none

/-- Hands over the text that it holds; without a dispatcher to take it the reader stops. -/
def hand (r : Reader) (d : Dispatcher) : Option (Reader × Dispatcher) :=
  match r with
  | .holding text =>
    if d.frames.hasReceiver then
      match d.frames.push? text with
      | some frames => some (.idle, { d with frames })
      | none => none
    else some (.stopped .closed, release d)
  | _ => none

/-- Has waited for a frame for too long. -/
def expire (window : Duration) (r : Reader) (d : Dispatcher) : Option (Reader × Dispatcher) :=
  match r with
  | .idle => some (.stopped (.livenessExpired window), release d)
  | _ => none

/-- Gives the reader up. One that has stopped keeps its reason. -/
def giveUp (r : Reader) (d : Dispatcher) : Reader × Dispatcher :=
  match r with
  | .stopped reason => (.stopped reason, d)
  | _ => (.abandoned, release d)

/-- Why the reader has stopped, if it has. -/
def reason? : Reader → Option SessionEnd
  | .stopped reason => some reason
  | _ => none

end Reader

end LedgerClient
