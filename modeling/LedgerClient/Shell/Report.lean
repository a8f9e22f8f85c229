import LedgerClient.Command.Outcome
import LedgerClient.Stream.Event
import LedgerClient.Text.Paint

/-!
# Reports

How results and events are shown to a user.
-/

namespace LedgerClient.Shell

open Text (paint)

/-- The colour of a transaction's result, by the class that its first three letters name: applied,
to be tried again or costing a fee only, and failed. -/
def resultInk (code : String) : Text.Ink :=
  match code.toList.take 3 with
  | ['t', 'e', 's'] => .green
  | ['t', 'e', 'r'] => .yellow
  | ['t', 'e', 'c'] => .yellow
  | _ => .red

/-- The result of a transaction in the colour of its class. -/
def showResult (colours : Bool) (code : String) : String := paint colours (resultInk code) code

/-- A line of a report that may be missing. -/
def detail (label : String) : Option String → String
  | none => ""
  | some text => "\n  " ++ label ++ text

def showTransaction (colours : Bool) (t : TransactionResult) : String :=
  paint colours .bold (t.transactionType.getD "Transaction") ++ " " ++
    paint colours .cyan t.hash.text ++ " (" ++
    (if t.validated then paint colours .green "validated" else paint colours .yellow "pending") ++
    ")" ++
    detail "Account: " t.account ++
    detail "Ledger:  " (t.ledgerIndex.map toString) ++
    detail "Result:  " (t.transactionResult?.map (showResult colours))

def showSubmission (colours : Bool) (s : SubmissionResult) : String :=
  showResult colours s.engineResult ++ " (" ++ toString s.engineResultCode ++ "): " ++
    s.engineResultMessage

def showEvent : Stream.Event → String
  | .ledger l =>
    "[ledger] #" ++ toString l.ledgerIndex ++ " closed with " ++ toString l.txnCount ++ " tx"
  | .transaction t => "[transaction] " ++ t.hash?.getD "?" ++ " " ++ t.engineResult
  | .server s =>
    "[server] " ++ s.serverStatus ++ " (load " ++ toString s.loadFactor ++ "/" ++
      toString s.loadBase ++ ")"

/-- What is said about a result. -/
inductive Report
  | pong
  | serverInfo
  | transaction
  | submission
  | subscribed (streams : List Stream.Category)
  | unsubscribed (streams : List Stream.Category)
  | json
deriving DecidableEq, Repr

private def streamNames (colours : Bool) (streams : List Stream.Category) : String :=
  paint colours .cyan (Stream.Category.join streams)

/-- The text of a report about a result. A result of another shape than the report is about has
nothing to be said. -/
def Report.text (colours : Bool) : Report → Outcome → String
  | .pong, _ => paint colours .green "PONG"
  | .serverInfo, .serverInfo s => s.info.pretty
  | .transaction, .transaction t => showTransaction colours t
  | .submission, .submission s => showSubmission colours s
  | .subscribed streams, .subscription s =>
    paint colours .green "Subscribed" ++ " " ++ streamNames colours streams ++
      (match s.ledgerIndex with
        | none => ""
        | some index => " (ledger: " ++ toString index ++ ")")
  | .unsubscribed streams, _ =>
    paint colours .green "Unsubscribed" ++ " " ++ streamNames colours streams
  | .json, .untyped v => v.pretty
  | _, _ => ""

end LedgerClient.Shell
