import LedgerClient.Hash
import LedgerClient.Json.Record

/-!
# Results of commands

The shapes of the `result` member of a successful response, and their union `Outcome`. Which of them
a command is answered with is its `Shape`.
-/

namespace LedgerClient

open Json (Codec Field Fields Members OpenRecord Reader Record Value)

/-- A transaction that was looked up. Members without a field of their own are kept. -/
structure TransactionResult where
  hash : Hash
  ledgerIndex : Option Nat
  validated : Bool
  transactionType : Option String
  account : Option String
  meta? : Option Value
  others : Members

namespace TransactionResult

def record : OpenRecord TransactionResult
    [Hash, Option Nat, Bool, Option String, Option String, Option Value] where
  name := "TxResult"
  fields :=
    .cons (.required "hash" Hash.codec) <|
    .cons (.optional "ledger_index" .nat32) <|
    .cons (.defaulted "validated" .bool false) <|
    .cons (.optional "TransactionType" .text) <|
    .cons (.optional "Account" .text) <|
    .cons (.optional "meta" .value) .nil
  make := fun (a, b, c, d, e, f, ()) others => ⟨a, b, c, d, e, f, others⟩
  row := fun t => (t.hash, t.ledgerIndex, t.validated, t.transactionType, t.account, t.meta?, ())
  others := others

/-- The result code that the transaction's metadata records. -/
def transactionResult? (t : TransactionResult) : Option String :=
  (t.meta?.bind (·.get? "TransactionResult")).bind Value.text?

end TransactionResult

/-- What became of a submitted transaction. -/
structure SubmissionResult where
  engineResult : String
  engineResultCode : Int
  engineResultMessage : String
  txBlob : String
  txJson : Value
  accepted : Option Bool
  applied : Option Bool
  broadcast : Option Bool
  kept : Option Bool
  queued : Option Bool

namespace SubmissionResult

def record : Record SubmissionResult
    [String, Int, String, String, Value, Option Bool, Option Bool, Option Bool, Option Bool,
      Option Bool] where
  name := "SubmitResult"
  fields :=
    .cons (.required "engine_result" .text) <|
    .cons (.required "engine_result_code" .int32) <|
    .cons (.required "engine_result_message" .text) <|
    .cons (.defaulted "tx_blob" .text "") <|
    .cons (.defaulted "tx_json" .value .null) <|
    .cons (.optional "accepted" .bool) <|
    .cons (.optional "applied" .bool) <|
    .cons (.optional "broadcast" .bool) <|
    .cons (.optional "kept" .bool) <|
    .cons (.optional "queued" .bool) .nil
  make := fun (a, b, c, d, e, f, g, h, i, j, ()) => ⟨a, b, c, d, e, f, g, h, i, j⟩
  row := fun s => (s.engineResult, s.engineResultCode, s.engineResultMessage, s.txBlob, s.txJson,
    s.accepted, s.applied, s.broadcast, s.kept, s.queued, ())

def isSuccess (s : SubmissionResult) : Bool := s.engineResult == "tesSUCCESS"

end SubmissionResult

/-- The answer to a subscription: the current ledger, if the ledger stream was asked for. -/
structure SubscriptionResult where
  ledgerIndex : Option Nat
  ledgerHash : Option Hash
  ledgerTime : Option Nat
  feeBase : Option Nat
  reserveBase : Option Nat
  reserveInc : Option Nat
  validatedLedgers : Option String
  others : Members

namespace SubscriptionResult

def record : OpenRecord SubscriptionResult
    [Option Nat, Option Hash, Option Nat, Option Nat, Option Nat, Option Nat, Option String] where
  name := "SubscribeResult"
  fields :=
    .cons (.optional "ledger_index" .nat32) <|
    .cons (.optional "ledger_hash" Hash.codec) <|
    .cons (.optional "ledger_time" .nat64) <|
    .cons (.optional "fee_base" .nat64) <|
    .cons (.optional "reserve_base" .nat64) <|
    .cons (.optional "reserve_inc" .nat64) <|
    .cons (.optional "validated_ledgers" .text) .nil
  make := fun (a, b, c, d, e, f, g, ()) others => ⟨a, b, c, d, e, f, g, others⟩
  row := fun s => (s.ledgerIndex, s.ledgerHash, s.ledgerTime, s.feeBase, s.reserveBase,
    s.reserveInc, s.validatedLedgers, ())
  others := others

end SubscriptionResult

/-- The state of the server. -/
structure ServerInfoResult where
  info : Value

namespace ServerInfoResult

def record : Record ServerInfoResult [Value] where
  name := "ServerInfoResult"
  fields := .cons (.required "info" .value) .nil
  make := fun (info, ()) => ⟨info⟩
  row := fun s => (s.info, ())

/-- The state that the server says it is in. -/
def serverState? (s : ServerInfoResult) : Option String :=
  (s.info.get? "server_state").bind Value.text?

def buildVersion? (s : ServerInfoResult) : Option String :=
  (s.info.get? "build_version").bind Value.text?

end ServerInfoResult

/-- The shape of a command's result. -/
inductive Shape
  | transaction
  | submission
  | subscription
  | serverInfo
  | members
  | untyped
deriving DecidableEq, Repr

/-- A command's result. -/
inductive Outcome
  | transaction (t : TransactionResult)
  | submission (s : SubmissionResult)
  | subscription (s : SubscriptionResult)
  | serverInfo (s : ServerInfoResult)
  | members (ms : Members)
  | untyped (v : Value)

namespace Outcome

def lift {α : Type} (wrap : α → Outcome) (read : Reader α) : Reader Outcome := fun room cs =>
  match read room cs with
  | .error stop => .error stop
  | .ok (a, rest) => .ok (wrap a, rest)

def read : Shape → Reader Outcome
  | .transaction => lift .transaction TransactionResult.record.codec.read
  | .submission => lift .submission SubmissionResult.record.codec.read
  | .subscription => lift .subscription SubscriptionResult.record.codec.read
  | .serverInfo => lift .serverInfo ServerInfoResult.record.codec.read
  | .members => lift .members Codec.members.read
  | .untyped => lift .untyped Codec.value.read

def chars : Outcome → List Char
  | .transaction t => TransactionResult.record.codec.write t
  | .submission s => SubmissionResult.record.codec.write s
  | .subscription s => SubscriptionResult.record.codec.write s
  | .serverInfo s => ServerInfoResult.record.codec.write s
  | .members ms => Codec.members.write ms
  | .untyped v => v.chars

def shape : Outcome → Shape
  | .transaction _ => .transaction
  | .submission _ => .submission
  | .subscription _ => .subscription
  | .serverInfo _ => .serverInfo
  | .members _ => .members
  | .untyped _ => .untyped

/-- How the results of a shape are read and written. -/
def codec (shape : Shape) : Codec Outcome := ⟨read shape, chars⟩

def text (o : Outcome) : String := String.ofList o.chars

end Outcome

end LedgerClient
