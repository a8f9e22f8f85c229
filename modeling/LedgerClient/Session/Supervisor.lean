import LedgerClient.Session.Moment

/-!
# The supervisor of a session

The task that says why a session is over. It waits for the dispatcher and for the writer. Unless the
session was closed on this side it then waits for the reader as well, but not longer than a grace.
-/

namespace LedgerClient

/-- How long the reader has to stop after the dispatcher and the writer. -/
def readerGrace : Duration := .ofMillis 250

/-- Whether the dispatcher and the writer have stopped. -/
def Session.isFinished (s : Session) : Bool :=
  match s.dispatcher.phase, s.writer.reason? with
  | .stopped _, some _ => true
  | _, _ => false

/-- A session with its supervisor in time. -/
structure Supervised where
  session : Session
  now : Nat
  /-- When the dispatcher and the writer had both stopped, once they have. -/
  since : Option Nat

namespace Supervised

def start (settings : Connection.Settings) : Supervised := ⟨.start settings, 0, none⟩

/-- Something that happens to a supervised session. -/
inductive Moment
  /-- So many nanoseconds pass. -/
  | pass (nanos : Nat)
  | within (m : Session.Moment)

/-- Whether the time of the reader is up. -/
def isLate (t : Supervised) : Bool :=
  match t.since with
  | some since => since + readerGrace.nanos ≤ t.now
  | none => false

/-- Whether the supervisor waits no more: the session was closed on this side, the reader has said
why it stopped, or its time is up. -/
def isSettled (t : Supervised) : Bool :=
  match t.session.dispatcher.phase with
  | .stopped .closed => true
  | _ => t.session.reader.reason?.isSome || t.isLate

/-- Whether something can happen as far as the supervisor is concerned. -/
def allows (m : Session.Moment) (t : Supervised) : Bool :=
  match m with
  | .conclude => t.isSettled
  | _ => true

/-- The supervised session with its session after a moment. -/
def withSession (t : Supervised) (session : Session) : Supervised where
  session := session
  now := t.now
  since := t.since <|> if session.isFinished then some t.now else none

/-- The supervised session after something happens to it, if it can happen. -/
def step (m : Moment) (t : Supervised) : Option Supervised :=
  match m with
  | .pass nanos => some { t with now := t.now + nanos }
  | .within m => if t.allows m then (t.session.step m).map t.withSession else none

/-- The supervised session after a moment; what cannot happen changes nothing. -/
def live (t : Supervised) (m : Moment) : Supervised := (t.step m).getD t

def run (t : Supervised) (moments : List Moment) : Supervised := moments.foldl live t

end Supervised

end LedgerClient
