import LedgerClient.Dispatcher.Basic
import LedgerClient.Duration
import LedgerClient.Socket.Clock
import LedgerClient.Socket.Basic
import LedgerClient.Session.End

/-!
# The sender

The task that writes commands to the socket in their order and a ping after each interval. A command
without a JSON text is reported and passed over. The sender ends when its queue is closed or a write
fails or takes too long; unless the socket has failed, it then tries to send a close frame and closes
the socket, for as long as a write may take.

`State.turn` is one turn of its loop: it waits for the next command or the next ping, whichever is
due first, and writes it. If both are due at once either may come first; `Setting.ties` decides.
-/

namespace LedgerClient.Sender

/-- How a socket deals with a write, or with being closed. -/
inductive Response
  /-- It is done after so many nanoseconds. -/
  | after (delay : Nat)
  /-- It fails after so many nanoseconds. -/
  | fails (fault : SocketFault) (delay : Nat := 0)
  | never
deriving DecidableEq, Repr

/-- The circumstances of a sender. -/
structure Setting where
  clock : Clock
  pingInterval : Duration
  writeTimeout : Duration
  /-- How the socket deals with the write of a number. -/
  sink : Nat → Response
  /-- Whether a command goes before a ping in the turn of a number if both are due. -/
  ties : Nat → Bool
  /-- The commands with the times at which they are queued, in order. -/
  commands : List (Nat × Outbound)
  /-- When the queue is closed, if it ever is. -/
  closing : Option Nat
  /-- How the socket deals with being closed. -/
  shutting : Response := .after 0

/-- What came of a write, or of closing the socket. -/
inductive Written
  | done
  | failed (fault : SocketFault)
  /-- It took longer than a write may take. -/
  | late
deriving DecidableEq, Repr

/-- The end to which a write leads, if it leads to one. -/
def Written.reason? (limit : Duration) : Written → Option SessionEnd
  | .done => none
  | .failed fault => some (.socket fault.message)
  | .late => some (.writeTimeout limit)

/-- Something that the sender did to the socket, and when that was over or given up. -/
inductive Call
  | send (time : Nat) (frame : Outgoing) (written : Written)
  | close (time : Nat)
deriving DecidableEq, Repr

/-- A sender. -/
structure State where
  now : Nat
  /-- The deadline of the next ping. -/
  tick : Nat
  /-- The commands that are still to come. -/
  commands : List (Nat × Outbound)
  /-- How many turns and how many writes there were. -/
  turns : Nat
  writes : Nat
  calls : List Call
  failures : List WriteFailure
  reason : Option SessionEnd
  /-- What came of closing the socket, if that was tried. -/
  parting : Option Written

/-- A sender at the start of a session. -/
def start (setting : Setting) : State :=
  ⟨0, setting.pingInterval.nanos, setting.commands, 0, 0, [], [], none, none⟩

/-- When a write has to be over that begins at a time. -/
def Setting.limit (setting : Setting) (now : Nat) : Nat :=
  setting.clock.wake (now + setting.writeTimeout.nanos)

/-- How something ends that begins at a time, takes so long and is given up at a limit, and when. -/
def settled (setting : Setting) (limit now delay : Nat) (written : Written) : Written × Nat :=
  let time := setting.clock.wake (now + delay)
  if time ≤ limit then (written, time) else (.late, limit)

/-- What comes, up to a limit, of something that is asked of the socket at a time, and when. -/
def outcomeBy (setting : Setting) (limit now : Nat) : Response → Written × Nat
  | .after delay => settled setting limit now delay .done
  | .fails fault delay => settled setting limit now delay (.failed fault)
  | .never => (.late, limit)

/-- What comes of a write at a time, and when. -/
def outcome (setting : Setting) (now : Nat) : Response → Written × Nat :=
  outcomeBy setting (setting.limit now) now

def State.send (setting : Setting) (frame : Outgoing) (s : State) : Written × State :=
  let (written, now) := outcome setting s.now (setting.sink s.writes)
  (written, { s with now, writes := s.writes + 1, calls := s.calls ++ [.send now frame written] })

/-- Closes the socket, up to a limit. -/
def State.shut (setting : Setting) (limit : Nat) (s : State) : State :=
  let (parting, now) := outcomeBy setting limit s.now setting.shutting
  { s with now, calls := s.calls ++ [.close now], parting := some parting }

/-- Ends the sender. Unless the socket has failed, a close frame is tried, and the socket is closed
behind it if there is time left. Both together may take as long as a write. -/
def State.finish (setting : Setting) (reason : SessionEnd) (s : State) : State :=
  let limit := setting.limit s.now
  let s := { s with reason := some reason }
  if reason.isSocket then s
  else match s.send setting .close with
    | (.late, s) => s
    | (_, s) => s.shut setting limit

/-- Writes a frame and ends if that fails or takes too long. -/
def State.write (setting : Setting) (frame : Outgoing) (s : State) : State :=
  let (written, s) := s.send setting frame
  match written.reason? setting.writeTimeout with
  | none => s
  | some reason => s.finish setting reason

/-- Takes a command from the queue and writes it. -/
def State.takeCommand (setting : Setting) (out : Outbound) (s : State) : State :=
  match out.command.encode out.id with
  | .ok frame => s.write setting (.text frame)
  | .error error => { s with failures := s.failures ++ [⟨out.id, error⟩] }

/-- How late a ping may be before the ones after it are put off as well. -/
def tolerance : Nat := 5 * Duration.perMilli

/-- Writes a ping and sets the time of the next: an interval later, counted from when this one was
due, or from now if that is too long ago. -/
def State.ping (setting : Setting) (s : State) : State :=
  let base := if s.tick + tolerance < s.now then s.now else s.tick
  { s with tick := base + setting.pingInterval.nanos }.write setting .ping

/-- When the queue has something next: a command or its end. -/
def State.queueTime (setting : Setting) (s : State) : Option Nat :=
  match s.commands with
  | (time, _) :: _ => some (max s.now time)
  | [] => setting.closing.map (max s.now)

def State.tickTime (setting : Setting) (s : State) : Nat := max s.now (setting.clock.wake s.tick)

/-- Takes what the queue has: a command, or its end. -/
def State.takeNext (setting : Setting) (s : State) : State :=
  match s.commands with
  | (_, out) :: commands => { s with commands }.takeCommand setting out
  | [] => s.finish setting .closed

/-- Whether the queue comes before the next ping. -/
def State.queueFirst (setting : Setting) (s : State) : Bool :=
  match s.queueTime setting with
  | none => false
  | some time =>
    time < s.tickTime setting || (time == s.tickTime setting && setting.ties s.turns)

def State.turn (setting : Setting) (s : State) : State :=
  let next := { s with turns := s.turns + 1 }
  match s.reason with
  | some _ => s
  | none =>
    if s.queueFirst setting then
      { next with now := (s.queueTime setting).getD s.now }.takeNext setting
    else { next with now := s.tickTime setting }.ping setting

/-- A sender after at most so many more turns. -/
def State.after (setting : Setting) : Nat → State → State
  | 0, s => s
  | turns + 1, s =>
    match s.reason with
    | some _ => s
    | none => State.after setting turns (s.turn setting)

/-- A sender after at most so many turns. -/
def run (setting : Setting) (turns : Nat) : State := (start setting).after setting turns

end LedgerClient.Sender
