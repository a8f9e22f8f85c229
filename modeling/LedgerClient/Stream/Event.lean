import LedgerClient.Calendar
import LedgerClient.Hash
import LedgerClient.Json.Record
import LedgerClient.Stream.Category

/-!
# Stream events

What the server pushes to a client that has subscribed: closed ledgers, transactions and changes of
the server's load. `Event.decode` reads the frame of an event whose kind is known. `Event.codec`
writes events with a leading member `stream` that names their category.
-/

namespace LedgerClient.Stream

open Json (Codec Field Fields Record Value)

/-- A ledger was closed. -/
structure LedgerClosed where
  ledgerIndex : Nat
  ledgerHash : Hash
  /-- The closing time, in seconds since the beginning of 2000. -/
  ledgerTime : Nat
  feeBase : Nat
  feeRef : Option Nat
  reserveBase : Nat
  reserveInc : Nat
  txnCount : Nat
  validatedLedgers : Option String
deriving DecidableEq

namespace LedgerClosed

/-- The members of a closed ledger; all may be missing. -/
def record : Record LedgerClosed
    [Nat, Hash, Nat, Nat, Option Nat, Nat, Nat, Nat, Option String] where
  name := "LedgerClosed"
  fields :=
    .cons (.defaulted "ledger_index" .nat32 0) <|
    .cons (.defaulted "ledger_hash" Hash.codec .zero) <|
    .cons (.defaulted "ledger_time" .nat64 0) <|
    .cons (.defaulted "fee_base" .nat64 0) <|
    .cons (.optional "fee_ref" .nat64) <|
    .cons (.defaulted "reserve_base" .nat64 0) <|
    .cons (.defaulted "reserve_inc" .nat64 0) <|
    .cons (.defaulted "txn_count" .nat32 0) <|
    .cons (.optional "validated_ledgers" .text) .nil
  make := fun (a, b, c, d, e, f, g, h, i, ()) => ⟨a, b, c, d, e, f, g, h, i⟩
  row := fun l => (l.ledgerIndex, l.ledgerHash, l.ledgerTime, l.feeBase, l.feeRef, l.reserveBase,
    l.reserveInc, l.txnCount, l.validatedLedgers, ())

/-- The seconds from the beginning of 1970 to that of 2000. -/
def epochOffset : Nat := 946684800

/-- The closing time in seconds since the beginning of 1970, if it has a date. -/
def closeTime? (l : LedgerClosed) : Option Nat :=
  let seconds := l.ledgerTime + epochOffset
  if seconds ≤ Calendar.lastSecond then some seconds else none

end LedgerClosed

/-- A transaction was applied to a ledger. -/
structure TransactionApplied where
  engineResult : String
  engineResultCode : Int
  engineResultMessage : String
  ledgerHash : Option Hash
  ledgerIndex : Option Nat
  validated : Bool
  transaction : Value
  meta? : Option Value

namespace TransactionApplied

def record : Record TransactionApplied
    [String, Int, String, Option Hash, Option Nat, Bool, Value, Option Value] where
  name := "TransactionEvent"
  fields :=
    .cons (.required "engine_result" .text) <|
    .cons (.defaulted "engine_result_code" .int32 0) <|
    .cons (.defaulted "engine_result_message" .text "") <|
    .cons (.optional "ledger_hash" Hash.codec) <|
    .cons (.optional "ledger_index" .nat32) <|
    .cons (.defaulted "validated" .bool false) <|
    .cons (.required "transaction" .value) <|
    .cons (.optional "meta" .value) .nil
  make := fun (a, b, c, d, e, f, g, h, ()) => ⟨a, b, c, d, e, f, g, h⟩
  row := fun t => (t.engineResult, t.engineResultCode, t.engineResultMessage, t.ledgerHash,
    t.ledgerIndex, t.validated, t.transaction, t.meta?, ())

/-- The hash of the transaction, if its object has one. -/
def hash? (t : TransactionApplied) : Option String := (t.transaction.get? "hash").bind Value.text?

end TransactionApplied

/-- The load or the state of the server changed. -/
structure ServerStatus where
  serverStatus : String
  loadBase : Nat
  loadFactor : Nat
  baseFee : Option Nat
  hostid : Option String
deriving DecidableEq

namespace ServerStatus

def record : Record ServerStatus [String, Nat, Nat, Option Nat, Option String] where
  name := "ServerStatus"
  fields :=
    .cons (.required "server_status" .text) <|
    .cons (.defaulted "load_base" .nat32 0) <|
    .cons (.defaulted "load_factor" .nat32 0) <|
    .cons (.optional "base_fee" .nat64) <|
    .cons (.optional "hostid" .text) .nil
  make := fun (a, b, c, d, e, ()) => ⟨a, b, c, d, e⟩
  row := fun s => (s.serverStatus, s.loadBase, s.loadFactor, s.baseFee, s.hostid, ())

/-- Whether the server's load is above its base. -/
def isLoaded (s : ServerStatus) : Bool := s.loadBase < s.loadFactor

end ServerStatus

/-- An event. -/
inductive Event
  | ledger (l : LedgerClosed)
  | transaction (t : TransactionApplied)
  | server (s : ServerStatus)

namespace Event

def kind : Event → Kind
  | .ledger _ => .ledger
  | .transaction _ => .transaction
  | .server _ => .server

/-- The value of the member `stream` of a written event. -/
def tag : Event → String
  | .ledger _ => "ledger"
  | .transaction _ => "transaction"
  | .server _ => "server"

/-- Reads the frame of an event of a kind. -/
def decode (kind : Kind) (frame : String) : Except ProtocolError Event :=
  ProtocolError.ofJson <|
    match kind with
    | .ledger => (LedgerClosed.record.codec.decode frame).map .ledger
    | .transaction => (TransactionApplied.record.codec.decode frame).map .transaction
    | .server => (ServerStatus.record.codec.decode frame).map .server

/-- The members of a written event behind its tag. -/
def texts : Event → List (String × List Char)
  | .ledger l => LedgerClosed.record.texts l
  | .transaction t => TransactionApplied.record.texts t
  | .server s => ServerStatus.record.texts s

def text (e : Event) : String :=
  String.ofList (Json.membersChars (("stream", Json.textChars e.tag) :: e.texts))

end Event

end LedgerClient.Stream
