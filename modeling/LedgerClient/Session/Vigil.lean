import LedgerClient.Session.Watch
import LedgerClient.Shell.Monitor

/-!
# A monitor that may be interrupted

While a monitor follows its events it may be told to stop. Then it closes its session, takes no more
events and waits for the session to be over. Why it is over decides how the monitor exits.
-/

namespace LedgerClient

/-- A monitor that may be interrupted. -/
structure Vigil where
  watch : Watch
  /-- Whether it was told to stop. -/
  interrupted : Bool

namespace Vigil

def start (settings : Connection.Settings) (interest : Interest) : Vigil :=
  ⟨.start settings interest, false⟩

/-- Something that happens to a monitor that may be interrupted. -/
inductive Moment
  | within (m : Watch.Moment)
  /-- It is told to stop, and lets no call in any more. -/
  | interrupt
  /-- It raises the close signal. -/
  | raise
  /-- The session that it has closed is over. -/
  | leave

/-- Whether a moment goes on in the tasks of the session. -/
def isTask : Watch.Moment → Bool
  | .within _ => true
  | _ => false

/-- The monitor with its session after a moment. -/
def withSession (v : Vigil) (session : Session) : Vigil :=
  { v with watch := { v.watch with session } }

/-- The monitor after something happens to it, if it can happen. -/
def step (m : Moment) (v : Vigil) : Option Vigil :=
  match m, v.watch.phase, v.interrupted with
  | .within m, _, interrupted =>
    if interrupted && ! isTask m then none
    else (v.watch.step m).map fun watch => { v with watch }
  | .interrupt, .following, false =>
    some { v.withSession v.watch.session.shut with interrupted := true }
  | .raise, .following, true => v.watch.session.raise.map v.withSession
  | .leave, .following, true =>
    v.watch.session.ending.map fun reason =>
      { v with watch := { v.watch with phase := .over reason } }
  | _, _, _ => none

/-- The monitor after a moment; what cannot happen changes nothing. -/
def live (v : Vigil) (m : Moment) : Vigil := (v.step m).getD v

def run (v : Vigil) (moments : List Moment) : Vigil := moments.foldl live v

/-- How the monitor exits, once it does because its session is over. -/
def exit? (v : Vigil) : Option Shell.Printed :=
  match v.watch.phase with
  | .over reason => some (Shell.Monitor.ended reason)
  | _ => none

end Vigil

end LedgerClient
