import LedgerClient.Shell.Program

/-!
# The monitor

The program that subscribes to what its configuration names and prints every event as a line of
JSON. It succeeds only if the session was closed on this side.
-/

namespace LedgerClient.Shell.Monitor

def isIdle (s : Config.Subscription) : Bool := s.streams.isEmpty && s.accounts.isEmpty

/-- What the end of a session leads to. -/
def ended (reason : SessionEnd) : Printed :=
  match reason with
  | .closed => .nothing
  | reason => .failed reason.inspect

/-- Subscribes, and prints events until the session is over. -/
def follow (s : Config.Subscription) (v : Conversation) : Printed :=
  match v.call (.subscribe s.streams s.accounts) with
  | (.error e, _) => .failed e.inspect
  | (.ok _, v) => (ended v.ending).before (eventLines v.events) ""

def run (w : Surroundings) : Printed :=
  match Config.load? w.files w.environment with
  | none => .brokenOff
  | some (.error e) => .failed e.inspect
  | some (.ok (c, s)) =>
    if isIdle c.subscription then
      .failed (Text.quoted "subscribe.streams and subscribe.accounts are both empty")
    else match w.connect s with
      | .error e => .failed e.inspect
      | .ok v => follow c.subscription v

end LedgerClient.Shell.Monitor
