import LedgerClient.Dispatcher.Table
import LedgerClient.Envelope
import LedgerClient.Mailbox
import LedgerClient.Stream.Event

/-!
# The dispatcher

The task that owns the pending commands. It takes commands from the intake, notes each one before it
hands it to the writer, and takes the frames that come in: a response goes to the caller that waits
for it, an event to the queue of events.

`step` is one move of the dispatcher: between commands it looks at its inputs in a fixed order (the
close signal, abandoned ids, write failures, frames, commands), and while a queue is full it waits
with the command or the event in its hand. `replies` and `discarded` keep what it did to callers and
frames, in order.

A look at the inputs is taken to be one step: all five are seen as they are at one time, and what
comes in meanwhile counts as coming before or after. Tasks that really run at once could put
something into an input that was just found empty while the dispatcher looks at the next one; such a
run, in which an input that comes later in the order is served first, is not among those of `step`.
-/

namespace LedgerClient

/-- A command on its way in. -/
structure Submission where
  id : Nat
  command : Command
  ticket : Ticket

/-- A command on its way to the writer. -/
structure Outbound where
  id : Nat
  command : Command

/-- A command that could not be written. -/
structure WriteFailure where
  id : Nat
  error : ProtocolError

/-- Why the dispatcher stopped. -/
inductive Shutdown
  | closed
  | framesEnded
  | writerGone
deriving DecidableEq, Repr

/-- The signal by which a session is closed. -/
inductive CloseSignal
  | quiet
  | raised
  /-- Nobody is left who could raise it. -/
  | ownerless
deriving DecidableEq, Repr

def CloseSignal.isRaised : CloseSignal → Bool
  | .quiet => false
  | .raised => true
  | .ownerless => true

/-- What the dispatcher is doing. -/
inductive Phase
  /-- It looks for something to do. -/
  | idle
  /-- It hands a command to the writer. -/
  | sending (out : Outbound)
  /-- It hands an event to the consumer. -/
  | delivering (event : Stream.Event)
  | stopped (reason : Shutdown)

/-- The capacities of the bounded queues of a session. -/
structure Capacities where
  intake : Nat
  frames : Nat
  outbound : Nat
  events : Nat
deriving DecidableEq, Repr

/-- The dispatcher with its queues. -/
structure Dispatcher where
  phase : Phase
  table : Table
  signal : CloseSignal
  abandoned : Mailbox Nat
  failures : Mailbox WriteFailure
  frames : Mailbox String
  intake : Mailbox Submission
  outbound : Mailbox Outbound
  events : Mailbox Stream.Event
  /-- Whether events still have a consumer, as far as the dispatcher knows. -/
  delivers : Bool
  /-- The callers that do not wait any more. -/
  gone : List Ticket
  /-- What became of commands, in order. -/
  replies : List (Ticket × Verdict)
  /-- What was wrong with the frames that were discarded, in order. -/
  discarded : List ProtocolError

namespace Dispatcher

def start (c : Capacities) : Dispatcher where
  phase := .idle
  table := .empty
  signal := .quiet
  abandoned := .unbounded
  failures := .unbounded
  frames := .bounded c.frames
  intake := .bounded c.intake
  outbound := .bounded c.outbound
  events := .bounded c.events
  delivers := true
  gone := []
  replies := []
  discarded := []

def settle (ticket : Ticket) (verdict : Verdict) (d : Dispatcher) : Dispatcher :=
  { d with replies := d.replies ++ [(ticket, verdict)] }

def discard (e : ProtocolError) (d : Dispatcher) : Dispatcher :=
  { d with discarded := d.discarded ++ [e] }

/-- Stops: the callers of all pending commands are told, queued commands are dropped, and the other
ends of all queues find them closed. -/
def stop (reason : Shutdown) (d : Dispatcher) : Dispatcher :=
  { d with
    phase := .stopped reason
    table := .empty
    abandoned := d.abandoned.dropReceiver
    failures := d.failures.dropReceiver
    frames := d.frames.dropReceiver
    intake := d.intake.dropReceiver
    outbound := d.outbound.dropSender
    events := d.events.dropSender
    delivers := false
    replies := d.replies ++ d.table.closingVerdicts ++
      d.intake.items.map fun s => (s.ticket, .dropped) }

/-- Gives up the pending command with an id. -/
def abandon (id : Nat) (d : Dispatcher) : Dispatcher :=
  match d.table.find? id with
  | none => d
  | some p => { d with table := d.table.erase id }.settle p.ticket .dropped

/-- Tells the caller of a pending command that it could not be written. -/
def writeFailed (failure : WriteFailure) (d : Dispatcher) : Dispatcher :=
  match d.table.find? failure.id with
  | none => d
  | some p =>
    { d with table := d.table.erase failure.id }.settle p.ticket
      (.told (.error (.serialize failure.id failure.error.message)))

/-- Settles a pending command by the frame of its response. -/
def complete (id : Nat) (p : Pending) (frame : String) (d : Dispatcher) : Dispatcher :=
  let d := { d with table := d.table.erase id }
  match Response.decode p.shape frame with
  | .ok response => d.settle p.ticket (.told (.ok response))
  | .error e =>
    (d.settle p.ticket (.told (.error (.malformedResponse id e.message)))).discard e

/-- Takes an event in hand, if it has a consumer. -/
def deliver (event : Stream.Event) (d : Dispatcher) : Dispatcher :=
  if d.delivers then { d with phase := .delivering event } else d

def handleFrame (frame : String) (d : Dispatcher) : Dispatcher :=
  match Envelope.decode frame with
  | .error e => d.discard e
  | .ok envelope =>
    match envelope.route with
    | .stream kind =>
      match Stream.Event.decode kind frame with
      | .error e => d.discard e
      | .ok event => d.deliver event
    | .response id =>
      match d.table.find? id with
      | none => d.discard (.unmatchedResponse id)
      | some p => d.complete id p frame
    | .unrouted type => d.discard (.unrouted type)

/-- Notes a command and takes it in hand for the writer. -/
def submit (s : Submission) (d : Dispatcher) : Dispatcher :=
  if d.gone.contains s.ticket then d.settle s.ticket .skipped
  else
    match d.table.insert? s.id ⟨s.command.name, s.command.shape, s.ticket⟩ with
    | none => d.settle s.ticket (.told (.error (.duplicateId s.id)))
    | some table => { d with table, phase := .sending ⟨s.id, s.command⟩ }

/-- Looks at the inputs in their order, all as they are now, and deals with the first that has
something. Nothing happens while all are empty. -/
def serve (d : Dispatcher) : Option Dispatcher :=
  if d.signal.isRaised then some (d.stop .closed)
  else match d.abandoned.head with
    | .item id rest => some ({ d with abandoned := rest }.abandon id)
    | .ended => some (d.stop .closed)
    | .empty => match d.failures.head with
      | .item failure rest => some ({ d with failures := rest }.writeFailed failure)
      | .ended => some (d.stop .writerGone)
      | .empty => match d.frames.head with
        | .item frame rest => some ({ d with frames := rest }.handleFrame frame)
        | .ended => some (d.stop .framesEnded)
        | .empty => match d.intake.head with
          | .item s rest => some ({ d with intake := rest }.submit s)
          | .ended => some (d.stop .closed)
          | .empty => none

/-- Hands a command to the writer. Without a writer the command fails and the dispatcher stops. -/
def send (out : Outbound) (d : Dispatcher) : Option Dispatcher :=
  if d.outbound.hasReceiver then
    match d.outbound.push? out with
    | none => none
    | some outbound => some { d with outbound, phase := .idle }
  else
    match d.table.find? out.id with
    | none => some (d.stop .writerGone)
    | some p =>
      some (({ d with table := d.table.erase out.id }.settle p.ticket
        (.told (.error .connectionClosed))).stop .writerGone)

/-- Hands an event to the consumer, unless the session is to be closed. If it is and there is room
as well, `closeFirst` decides. -/
def pushEvent (closeFirst : Bool) (event : Stream.Event) (d : Dispatcher) : Option Dispatcher :=
  let given : Option Dispatcher :=
    if d.events.hasReceiver then
      match d.events.push? event with
      | none => none
      | some events => some { d with events, phase := .idle }
    else some { d with delivers := false, phase := .idle }
  let left : Option Dispatcher := if d.signal.isRaised then some { d with phase := .idle } else none
  if closeFirst then left <|> given else given <|> left

/-- One move of the dispatcher; there is none while it waits and after it has stopped. -/
def step (closeFirst : Bool) (d : Dispatcher) : Option Dispatcher :=
  match d.phase with
  | .idle => d.serve
  | .sending out => d.send out
  | .delivering event => d.pushEvent closeFirst event
  | .stopped _ => none

def advance : Nat → Dispatcher → Dispatcher
  | 0, d => d
  | moves + 1, d =>
    match d.step true with
    | none => d
    | some d => advance moves d

/-- As many moves as a dispatcher can make without new input: two for each queued item, one for
what it has in hand and one to stop. -/
def patience (d : Dispatcher) : Nat :=
  2 * (d.abandoned.items.length + d.failures.items.length + d.frames.items.length +
    d.intake.items.length) + 2

def rest (d : Dispatcher) : Dispatcher := d.advance d.patience

end Dispatcher

end LedgerClient
