import LedgerClient.Connection.Settings
import LedgerClient.Session.Reader
import LedgerClient.Session.Writer

/-!
# Sessions

A session with everything in it: the dispatcher, the writer, the reader and the callers. The modules
beside this one say what callers and owners can do, and `Session.Moment` lists all that can happen.
-/

namespace LedgerClient

/-- How far a call has come since it got its id. -/
inductive Stage
  /-- It waits for room in the intake. -/
  | queueing
  | waiting
  /-- Its time is up; its id has not been given up yet. -/
  | expired
  | returned (reply : Except ClientError Response)

/-- Whether a call waits for room in the intake. -/
def Stage.isQueueing : Stage → Bool
  | .queueing => true
  | _ => false

/-- Whether a call has come to its end. -/
def Stage.isReturned : Stage → Bool
  | .returned _ => true
  | _ => false

/-- A command that got an id, and how far it has come. -/
structure Exchange where
  id : Nat
  command : Command
  stage : Stage

/-- How many commands may wait for the writer, and how many frames for the dispatcher. -/
def innerCapacity : Nat := 64

/-- A session. -/
structure Session where
  settings : Connection.Settings
  dispatcher : Dispatcher
  writer : Writer
  reader : Reader
  isOpen : Bool
  /-- The commands of calls that have been let in and have no id yet. -/
  entered : List Command
  nextId : Nat
  /-- What has become of the calls that got an id, in the order of their ids. -/
  exchanges : List Exchange
  /-- Why the session is over, once that is known. -/
  ending : Option SessionEnd

namespace Session

def start (settings : Connection.Settings) : Session where
  settings := settings
  dispatcher := .start
    ⟨settings.outgoingCapacity, innerCapacity, innerCapacity, settings.streamCapacity⟩
  writer := .start
  reader := .idle
  isOpen := true
  entered := []
  nextId := 1
  exchanges := []
  ending := none

def maxCapacity : Nat := (1 <<< 61) - 1

/-- The first moment, in nanoseconds, that no clock can tell. -/
def endOfTime : Nat := (1 <<< 63) * Duration.perSecond

/-- Begins a session at a moment, if it can begin: its queues have room for an item and are not too
large, pings have an interval, and the first ping and the first deadline lie before the end of time.
-/
def start? (now : Nat) (settings : Connection.Settings) : Option Session :=
  if 0 < settings.outgoingCapacity ∧ settings.outgoingCapacity ≤ maxCapacity ∧
      0 < settings.streamCapacity ∧ settings.streamCapacity ≤ maxCapacity ∧
      0 < settings.pingInterval.nanos ∧ now + settings.pingInterval.nanos < endOfTime ∧
      now + settings.livenessWindow.nanos < endOfTime then
    some (start settings)
  else none

def find? (id : Nat) (s : Session) : Option Exchange := s.exchanges.find? (·.id == id)

/-- The session with an exchange at another stage. -/
def setStage (id : Nat) (stage : Stage) (s : Session) : Session :=
  { s with exchanges := s.exchanges.map fun x => if x.id == id then { x with stage } else x }

/-- Whether somebody can still put a command into the intake. -/
def feedsIntake (s : Session) : Bool :=
  s.isOpen || ! s.entered.isEmpty || s.exchanges.any (·.stage.isQueueing)

/-- Closes the intake if nobody can put a command into it any more. -/
def settleIntake (s : Session) : Session :=
  if s.feedsIntake then s
  else { s with dispatcher := { s.dispatcher with intake := s.dispatcher.intake.dropSender } }

end Session

end LedgerClient
