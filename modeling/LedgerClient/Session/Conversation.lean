import LedgerClient.Session.Basic
import LedgerClient.Session.Call
import LedgerClient.Stream.Event

/-!
# Conversations

A session as the programs of the command line see it: the replies to their commands in order, the
events, and why it is over in the end. With the last reply the session ends.
-/

namespace LedgerClient

/-- What a session brings. -/
structure Conversation where
  replies : List (Except ClientError Response)
  events : List Stream.Event
  ending : SessionEnd
  isOver : Bool

namespace Conversation

/-- The result of a call, and the conversation behind it. Only a call whose arguments pass their
checks takes a reply. -/
def call (c : Call) (v : Conversation) : Except ClientError Outcome × Conversation :=
  match c.command? with
  | .error e => (.error e, v)
  | .ok _ =>
    match v.replies with
    | [] => (.error .connectionClosed, { v with isOver := true })
    | reply :: rest => (reply.bind Response.callResult, { v with replies := rest })

/-- The results of calls that are made one after the other, and the conversation behind them. -/
def answers : List Call → Conversation → List (Except ClientError Outcome) × Conversation
  | [], v => ([], v)
  | c :: calls, v =>
    let first := v.call c
    let rest := answers calls first.2
    (first.1 :: rest.1, rest.2)

end Conversation

/-- The reply to a call that has come to its end. -/
def Exchange.reply? (x : Exchange) : Option (Except ClientError Response) :=
  match x.stage with
  | .returned reply => some reply
  | _ => none

namespace Session

/-- The replies to the calls that have come to their ends, in the order of their ids. -/
def replies (s : Session) : List (Except ClientError Response) :=
  s.exchanges.filterMap Exchange.reply?

/-- What a session has brought, with the events that were taken from it and why it ends. -/
def conversation (s : Session) (events : List Stream.Event) (ending : SessionEnd) : Conversation :=
  ⟨s.replies, events, ending, false⟩

end Session

end LedgerClient
