import LedgerClient.Session.Caller
import LedgerClient.Session.Owner

/-!
# What happens in a session

`Moment` lists the single things that can happen, each to one of the tasks, callers or owners of a
session, and `step` does them. They may happen in any order, so that what holds after every list of
moments holds however the tasks take turns, if each moment is done before the next one begins. In
particular nothing comes in while the dispatcher looks at its inputs (`Dispatcher.serve`).

Once the dispatcher and the writer have stopped it is said why the session is over, as `judge` has
it.
-/

namespace LedgerClient.Session

/-! ## The end -/

/-- Why a session is over. A session that was closed on this side is closed; otherwise the reader
knows best, unless it has not stopped or stopped only because the dispatcher had, and then the
writer does. -/
def judge (shutdown : Shutdown) (read : Option SessionEnd) (written : SessionEnd) : SessionEnd :=
  match shutdown with
  | .closed => .closed
  | _ =>
    match read with
    | none => written
    | some reason => if reason = .closed then written else reason

/-- Says why the session is over, once the dispatcher and the writer have stopped. The reader is
given up if it is still at work. -/
def conclude (s : Session) : Option Session :=
  match s.ending, s.dispatcher.phase, s.writer.reason? with
  | none, .stopped shutdown, some written =>
    let (reader, dispatcher) := s.reader.giveUp s.dispatcher
    some { s with
      reader
      dispatcher
      ending := some (judge shutdown s.reader.reason? written) }
  | _, _, _ => none

/-! ## Moments -/

/-- Something that happens in a session. -/
inductive Moment
  | enter (call : Call)
  | allocate (place : Nat)
  | enqueue (id : Nat)
  | collect (id : Nat)
  | expire (id : Nat)
  | abandon (id : Nat)
  | shut
  | raise
  | disown
  | takeEvent
  | dropEvents
  | dispatch (closeFirst : Bool)
  /-- The writer takes what its queue has, writes a ping, or learns what came of a write. -/
  | take
  | ping
  | written (w : Sender.Written)
  /-- The reader receives a frame, hands a text over, or has waited too long. -/
  | arrive (item : Incoming)
  | hand
  | silence
  | conclude

/-- The session with the writer after a move. -/
def withWriter (s : Session) (r : Writer × Dispatcher) : Session :=
  { s with writer := r.1, dispatcher := r.2 }

/-- The session with the reader after a move. -/
def withReader (s : Session) (r : Reader × Dispatcher) : Session :=
  { s with reader := r.1, dispatcher := r.2 }

/-- The session after something happens in it, if it can happen. -/
def step (m : Moment) (s : Session) : Option Session :=
  match m with
  | .enter call => (s.enter? call).toOption
  | .allocate place => s.allocate place
  | .enqueue id => s.enqueue id
  | .collect id => s.collect id
  | .expire id => s.expire id
  | .abandon id => s.abandon id
  | .shut => some s.shut
  | .raise => s.raise
  | .disown => s.disown
  | .takeEvent => s.takeEvent.map (·.2)
  | .dropEvents => some s.dropEvents
  | .dispatch closeFirst =>
    (s.dispatcher.step closeFirst).map fun dispatcher => { s with dispatcher }
  | .take => (s.writer.take s.dispatcher).map s.withWriter
  | .ping => s.writer.ping.map fun writer => { s with writer }
  | .written w => (s.writer.learn s.settings.writeTimeout w s.dispatcher).map s.withWriter
  | .arrive item => (s.reader.receive item s.dispatcher).map s.withReader
  | .hand => (s.reader.hand s.dispatcher).map s.withReader
  | .silence => (s.reader.expire s.settings.livenessWindow s.dispatcher).map s.withReader
  | .conclude => s.conclude

/-- The session after a moment; what cannot happen changes nothing. -/
def live (s : Session) (m : Moment) : Session := (s.step m).getD s

def run (s : Session) (moments : List Moment) : Session := moments.foldl live s

theorem run_concat (s : Session) (moments : List Moment) (m : Moment) :
    s.run (moments ++ [m]) = (s.run moments).live m := by
  simp [run]

end LedgerClient.Session
