import LedgerClient.Session.Conversation
import LedgerClient.Session.Watch

/-!
# Calls one after the other

A caller with its session as one system. It makes its calls in order and each only when it has the
result of the one before, as the prompt does, and the client with its single call. Meanwhile the
tasks of the session go on, and events are taken or given up.
-/

namespace LedgerClient

/-- A caller that makes one call after the other, with its session. -/
structure Dialogue where
  session : Session
  /-- The calls that are still to be made. -/
  calls : List Call
  /-- Whether the caller waits for the result of a call. -/
  isWaiting : Bool
  /-- The results of the calls so far, in order. -/
  results : List (Except ClientError Outcome)

namespace Dialogue

/-- A caller whose session has just begun. -/
def start (settings : Connection.Settings) (calls : List Call) : Dialogue :=
  ⟨.start settings, calls, false, []⟩

/-- Something that happens to a caller. -/
inductive Moment
  | within (m : Session.Moment)
  | ask
  | answered

/-- Whether a moment is not up to the caller. -/
def isOther : Session.Moment → Bool
  | .takeEvent => true
  | .dropEvents => true
  | m => Watch.isInner m

/-- The caller after something happens to it, if it can happen. A call that is refused has its result
at once. -/
def step (m : Moment) (d : Dialogue) : Option Dialogue :=
  match m with
  | .within m =>
    if isOther m then (d.session.step m).map fun session => { d with session } else none
  | .ask =>
    match d.isWaiting, d.calls with
    | false, c :: calls =>
      match d.session.enter? c with
      | .error e => some { d with calls, results := d.results ++ [.error e] }
      | .ok session => some { d with session, calls, isWaiting := true }
    | _, _ => none
  | .answered =>
    match d.isWaiting, d.session.entered, d.session.exchanges.getLast? with
    | true, [], some ⟨_, _, .returned reply⟩ =>
      some { d with isWaiting := false, results := d.results ++ [reply.bind Response.callResult] }
    | _, _, _ => none

/-- The caller after a moment; what cannot happen changes nothing. -/
def live (d : Dialogue) (m : Moment) : Dialogue := (d.step m).getD d

def run (d : Dialogue) (moments : List Moment) : Dialogue := moments.foldl live d

end Dialogue

end LedgerClient
