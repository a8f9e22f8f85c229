import LedgerClient.Session.Basic
import LedgerClient.Session.Call

/-!
# Callers of a session

A call is let in, gets the next id and enters the intake, each in a step of its own. A caller whose
time is up first stops waiting and then gives up its id. A call whose arguments are refused, or that
comes after the session was closed, leaves no trace.
-/

namespace LedgerClient.Session

/-- Lets a call in, or answers it at once: its arguments are checked, and then whether the session
is open. -/
def enter? (call : Call) (s : Session) : Except ClientError Session :=
  match call.command? with
  | .error e => .error e
  | .ok command =>
    if s.isOpen then .ok { s with entered := s.entered ++ [command] }
    else .error .notConnected

/-- Gives the next id to one of the calls that have been let in. -/
def allocate (place : Nat) (s : Session) : Option Session :=
  match s.entered[place]? with
  | none => none
  | some command => some
    { s with
      entered := s.entered.eraseIdx place
      nextId := s.nextId + 1
      exchanges := s.exchanges ++ [⟨s.nextId, command, .queueing⟩] }

/-- Puts the command of a call into the intake. Without a dispatcher the call fails. -/
def enqueue (id : Nat) (s : Session) : Option Session :=
  match s.find? id with
  | some ⟨_, command, .queueing⟩ =>
    if s.dispatcher.intake.hasReceiver then
      match s.dispatcher.intake.push? ⟨id, command, id⟩ with
      | none => none
      | some intake =>
        let s := { s with dispatcher := { s.dispatcher with intake } }
        some (s.setStage id .waiting).settleIntake
    else some (s.setStage id (.returned (.error .connectionClosed))).settleIntake
  | _ => none

/-- What a caller learns from what became of its command. -/
def replyOf : Verdict → Except ClientError Response
  | .told reply => reply
  | .skipped => .error .connectionClosed
  | .dropped => .error .connectionClosed

/-- A caller learns what became of its command. -/
def collect (id : Nat) (s : Session) : Option Session :=
  match s.find? id with
  | some ⟨_, _, .waiting⟩ =>
    (s.dispatcher.replies.find? (·.1 == id)).map fun r => s.setStage id (.returned (replyOf r.2))
  | _ => none

/-- The time of a caller is up: it stops waiting. -/
def expire (id : Nat) (s : Session) : Option Session :=
  match s.settings.requestTimeout, s.find? id with
  | some _, some ⟨_, _, .queueing⟩ => some (leave s)
  | some _, some ⟨_, _, .waiting⟩ => some (leave s)
  | _, _ => none
where
  /-- The caller is gone for the dispatcher. -/
  leave (s : Session) : Session :=
    ({ s with dispatcher := { s.dispatcher with gone := id :: s.dispatcher.gone } }.setStage id
      .expired).settleIntake

/-- A caller whose time is up gives up its id. -/
def abandon (id : Nat) (s : Session) : Option Session :=
  match s.settings.requestTimeout, s.find? id with
  | some limit, some ⟨_, _, .expired⟩ =>
    let abandoned := (s.dispatcher.abandoned.push? id).getD s.dispatcher.abandoned
    some ({ s with dispatcher := { s.dispatcher with abandoned } }.setStage id
      (.returned (.error (.timeout limit))))
  | _, _ => none

end LedgerClient.Session
