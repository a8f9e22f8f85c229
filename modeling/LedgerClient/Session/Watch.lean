import LedgerClient.Session.Moment

/-!
# Watching a session

A monitor and its session as one system. The monitor makes a single call, which subscribes to what
it watches, and takes events only after that call has its result; then it prints one line for each
event until there are no more and the session is over.
-/

namespace LedgerClient

/-- What a monitor is doing. -/
inductive Watch.Phase
  /-- It waits for the result of its call. -/
  | asking
  | following
  | failed (e : ClientError)
  | over (reason : SessionEnd)

/-- A monitor with its session. -/
structure Watch where
  session : Session
  phase : Watch.Phase
  /-- The events that were printed, in order. -/
  printed : List Stream.Event

namespace Watch

/-- A monitor whose session has just begun and which makes its call. -/
def start (settings : Connection.Settings) (interest : Interest) : Watch where
  session := { Session.start settings with entered := [.subscribe interest] }
  phase := .asking
  printed := []

/-- Something that happens to a monitor. -/
inductive Moment
  | within (m : Session.Moment)
  | answered
  | print
  /-- There are no more events and the session is over. -/
  | finish

/-- Whether a moment belongs to the tasks of the session or to the monitor's call. What is left is
what an owner does: new calls, closing, and taking or giving up events. -/
def isInner : Session.Moment → Bool
  | .enter _ => false
  | .shut => false
  | .raise => false
  | .disown => false
  | .takeEvent => false
  | .dropEvents => false
  | _ => true

/-- The result of the monitor's call, once there is one. -/
def answer? (w : Watch) : Option (Except ClientError Outcome) :=
  match w.session.exchanges with
  | [⟨_, _, .returned reply⟩] => some (reply.bind Response.callResult)
  | _ => none

/-- The monitor after something happens to it, if it can happen. -/
def step (m : Moment) (w : Watch) : Option Watch :=
  match m, w.phase with
  | .within m, _ =>
    if isInner m then (w.session.step m).map fun session => { w with session } else none
  | .answered, .asking =>
    w.answer?.map fun
      | .ok _ => { w with phase := .following }
      | .error e => { w with phase := .failed e }
  | .print, .following =>
    w.session.takeEvent.map fun (event, session) =>
      { w with session, printed := w.printed ++ [event] }
  | .finish, .following =>
    match w.session.dispatcher.events.head, w.session.ending with
    | .ended, some reason => some { w with phase := .over reason }
    | _, _ => none
  | _, _ => none

/-- The monitor after a moment; what cannot happen changes nothing. -/
def live (w : Watch) (m : Moment) : Watch := (w.step m).getD w

def run (w : Watch) (moments : List Moment) : Watch := moments.foldl live w

end Watch

end LedgerClient
