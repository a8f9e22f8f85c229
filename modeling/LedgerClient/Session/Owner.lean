import LedgerClient.Session.Basic

/-!
# Owners of a session

An owner closes a session by letting no call in any more and then raising the close signal, or gives
it up altogether. The events are taken or given up apart from that.
-/

namespace LedgerClient.Session

/-- Lets no call in any more: the first half of closing. -/
def shut (s : Session) : Session := { s with isOpen := false }.settleIntake

/-- Raises the close signal: the second half of closing. -/
def raise (s : Session) : Option Session :=
  if s.isOpen then none
  else match s.dispatcher.signal with
    | .ownerless => none
    | _ => some { s with dispatcher := { s.dispatcher with signal := .raised } }

/-- Gives the session up. No call may be under way. -/
def disown (s : Session) : Option Session :=
  if s.entered.isEmpty && s.exchanges.all (·.stage.isReturned) then
    some ({ s with
      isOpen := false
      dispatcher := { s.dispatcher with
        abandoned := s.dispatcher.abandoned.dropSender
        signal := .ownerless } }.settleIntake)
  else none

def takeEvent (s : Session) : Option (Stream.Event × Session) :=
  match s.dispatcher.events.head with
  | .item event rest => some (event, { s with dispatcher := { s.dispatcher with events := rest } })
  | _ => none

def dropEvents (s : Session) : Session :=
  { s with dispatcher := { s.dispatcher with events := s.dispatcher.events.dropReceiver } }

end LedgerClient.Session
