import LedgerClient.Dispatcher.Basic
import LedgerClient.Socket.Sender

/-!
# The writer of a session

What the writer beside a dispatcher is doing, without regard to time. It takes commands from the
outbound queue and hands their frames to the socket, one at a time; a command without a JSON text is
reported instead. When it stops it gives up its ends of the queues.
-/

namespace LedgerClient

/-- What a writer has handed to the socket. -/
inductive Parcel
  | command (out : Outbound) (text : String)
  | ping
  | close

/-- What a writer is doing. -/
inductive Writer.Phase
  /-- It waits for a command or for the time of a ping. -/
  | idle
  /-- The socket is busy with a command or a ping. -/
  | writing
  /-- The socket is busy with the close frame or with being closed. -/
  | closing (reason : SessionEnd)
  | stopped (reason : SessionEnd)

/-- A writer, and what it has handed to the socket in order. -/
structure Writer where
  phase : Writer.Phase
  handed : List Parcel

namespace Writer

/-- A writer at the start of a session. -/
def start : Writer := ⟨.idle, []⟩

def hand (p : Parcel) (phase : Phase) (w : Writer) : Writer :=
  { w with phase, handed := w.handed ++ [p] }

/-- Gives up the writer's ends of the queues. -/
def release (d : Dispatcher) : Dispatcher :=
  { d with outbound := d.outbound.dropReceiver, failures := d.failures.dropSender }

/-- Ends the writer. Unless the socket has failed, a close frame is handed to it first. -/
def finish (reason : SessionEnd) (w : Writer) (d : Dispatcher) : Writer × Dispatcher :=
  if reason.isSocket then ({ w with phase := .stopped reason }, release d)
  else (w.hand .close (.closing reason), d)

/-- Reports a command that has no JSON text. -/
def report (failure : WriteFailure) (d : Dispatcher) : Dispatcher :=
  match d.failures.push? failure with
  | some failures => { d with failures }
  | none => d

/-- Takes what the queue has: a command, which is handed to the socket or reported, or the end of
the queue, which is the end of the writer. -/
def take (w : Writer) (d : Dispatcher) : Option (Writer × Dispatcher) :=
  match w.phase with
  | .idle =>
    match d.outbound.head with
    | .item out rest =>
      let d := { d with outbound := rest }
      match out.command.encode out.id with
      | .ok text => some (w.hand (.command out text) .writing, d)
      | .error error => some (w, report ⟨out.id, error⟩ d)
    | .empty => none
    | .ended => some (w.finish .closed d)
  | _ => none

def ping (w : Writer) : Option Writer :=
  match w.phase with
  | .idle => some (w.hand .ping .writing)
  | _ => none

/-- Learns what came of the write that the socket was busy with. -/
def learn (limit : Duration) (written : Sender.Written) (w : Writer) (d : Dispatcher) :
    Option (Writer × Dispatcher) :=
  match w.phase with
  | .writing =>
    match written.reason? limit with
    | none => some ({ w with phase := .idle }, d)
    | some reason => some (w.finish reason d)
  | .closing reason => some ({ w with phase := .stopped reason }, release d)
  | _ => none

/-- Why the writer has stopped, if it has. -/
def reason? (w : Writer) : Option SessionEnd :=
  match w.phase with
  | .stopped reason => some reason
  | _ => none

end Writer

end LedgerClient
