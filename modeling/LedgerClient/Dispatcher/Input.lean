import LedgerClient.Dispatcher.Basic

/-!
# What happens to a dispatcher from outside

Callers, the reader, the writer and the consumer of events act on the queues of a dispatcher while
it runs. `Input` lists what they can do, and `apply` does it.
-/

namespace LedgerClient

namespace Dispatcher

/-- Something that happens to the queues of a dispatcher. -/
inductive Input
  /-- A caller hands in a command. -/
  | submit (s : Submission)
  | leave (ticket : Ticket)
  /-- A caller that has stopped waiting gives up its id. -/
  | abandon (id : Nat)
  | frame (text : String)
  | writeFailure (failure : WriteFailure)
  /-- The close signal is raised or taken back. -/
  | signal (raised : Bool)
  /-- Nobody is left to raise the close signal, to submit, to abandon, to read or to write. -/
  | dropSignal
  | dropIntake
  | dropAbandoned
  | dropFrames
  | dropFailures
  /-- The writer or the consumer of events is gone. -/
  | dropOutbound
  | dropEvents
  /-- The writer or the consumer takes an item. -/
  | takeOutbound
  | takeEvent

/-- What came of an item for a queue. -/
inductive Acceptance
  | accepted
  /-- The queue is full or has no receiver. -/
  | refused
  /-- There was no sender to send it with. -/
  | unsent
deriving DecidableEq, Repr

def offer {α : Type} (a : α) (m : Mailbox α) : Acceptance × Mailbox α :=
  if m.hasSender then
    match m.push? a with
    | some m => (.accepted, m)
    | none => (.refused, m)
  else (.unsent, m)

def dropHead {α : Type} (m : Mailbox α) : Mailbox α := { m with items := m.items.drop 1 }

/-- What came of an item that was sent, if one was, and the dispatcher afterwards. A command that is
not accepted is dropped. -/
def apply (input : Input) (d : Dispatcher) : Option Acceptance × Dispatcher :=
  match input with
  | .submit s =>
    match offer s d.intake with
    | (.accepted, intake) => (some .accepted, { d with intake })
    | (acceptance, _) => (some acceptance, d.settle s.ticket .dropped)
  | .leave ticket => (none, { d with gone := ticket :: d.gone })
  | .abandon id =>
    let (acceptance, abandoned) := offer id d.abandoned
    (some acceptance, { d with abandoned })
  | .frame text =>
    let (acceptance, frames) := offer text d.frames
    (some acceptance, { d with frames })
  | .writeFailure failure =>
    let (acceptance, failures) := offer failure d.failures
    (some acceptance, { d with failures })
  | .signal raised =>
    match d.signal with
    | .ownerless => (none, d)
    | _ => (none, { d with signal := if raised then .raised else .quiet })
  | .dropSignal => (none, { d with signal := .ownerless })
  | .dropIntake => (none, { d with intake := d.intake.dropSender })
  | .dropAbandoned => (none, { d with abandoned := d.abandoned.dropSender })
  | .dropFrames => (none, { d with frames := d.frames.dropSender })
  | .dropFailures => (none, { d with failures := d.failures.dropSender })
  | .dropOutbound => (none, { d with outbound := d.outbound.dropReceiver })
  | .dropEvents => (none, { d with events := d.events.dropReceiver })
  | .takeOutbound => (none, { d with outbound := dropHead d.outbound })
  | .takeEvent => (none, { d with events := dropHead d.events })

/-- A moment in the life of a dispatcher: something happens to it, or it makes a move. -/
inductive Moment
  | input (i : Input)
  | move (closeFirst : Bool)

def live (d : Dispatcher) : Moment → Dispatcher
  | .input i => (d.apply i).2
  | .move closeFirst => (d.step closeFirst).getD d

def run (d : Dispatcher) (moments : List Moment) : Dispatcher := moments.foldl live d

theorem run_append (d : Dispatcher) (earlier later : List Moment) :
    d.run (earlier ++ later) = (d.run earlier).run later :=
  List.foldl_append

end Dispatcher

end LedgerClient
