import LedgerClient.Command.Outcome
import LedgerClient.Json.Record
import LedgerClient.Stream.Category
import LedgerClient.Text.Blank

/-!
# Commands

The commands that can be sent to the server. Each has a name, parameters and a shape of result; a
request adds the id and the name to the parameters. `Command.unwritable` stands for a caller's own
command whose parameters have no JSON text.
-/

namespace LedgerClient

open Json (Field Fields Members Record Value)

/-- Looks up a transaction. -/
structure TxCommand where
  transaction : Hash
  binary : Bool
deriving DecidableEq

def TxCommand.record : Record TxCommand [Hash, Bool] where
  name := "TxCommand"
  fields :=
    .cons (.required "transaction" Hash.codec) <|
    .cons (.omitting "binary" .bool false (! ·)) .nil
  make := fun (a, b, ()) => ⟨a, b⟩
  row := fun c => (c.transaction, c.binary, ())

/-- Submits a signed transaction. -/
structure SubmitCommand where
  blob : String
  /-- Whether it must be neither queued nor relayed if it fails. -/
  failHard : Bool
deriving DecidableEq

namespace SubmitCommand

def record : Record SubmitCommand [String, Bool] where
  name := "SubmitCommand"
  fields :=
    .cons (.required "tx_blob" .text) <|
    .cons (.omitting "fail_hard" .bool false (! ·)) .nil
  make := fun (a, b, ()) => ⟨a, b⟩
  row := fun c => (c.blob, c.failHard, ())

def ofBytes (bytes : List UInt8) : SubmitCommand := ⟨Hex.encode bytes, false⟩

/-- Submits a transaction in hexadecimal, which may have blanks around it. It must not be empty. -/
def ofBlob (blob : String) : Except ProtocolError SubmitCommand :=
  match Hex.decode (String.ofList (Text.trim blob.toList)) with
  | .error fault => .error (.invalidBlob fault.message)
  | .ok bytes => if bytes.isEmpty then .error (.invalidBlob "empty") else .ok (ofBytes bytes)

end SubmitCommand

/-- The streams and accounts that a subscription begins or ends. -/
structure Interest where
  streams : List Stream.Category
  accounts : List String
deriving DecidableEq

/-- The parameters of `subscribe` and `unsubscribe`, by the name of the record. -/
def Interest.record (name : String) : Record Interest [List Stream.Category, List String] where
  name := name
  fields :=
    .cons (.omitting "streams" (.list Stream.Category.codec) [] List.isEmpty) <|
    .cons (.omitting "accounts" (.list .text) [] List.isEmpty) .nil
  make := fun (a, b, ()) => ⟨a, b⟩
  row := fun i => (i.streams, i.accounts, ())

/-- Parameters of which there are none, by the name of the record. -/
def noParameters (name : String) : Record Unit [] where
  name := name
  fields := .nil
  make := fun () => ()
  row := fun () => ()

/-- A command given by name. -/
structure RawCommand where
  name : String
  parameters : Members

/-- A command given by name. The members `id` and `command` belong to the request and are dropped
from the parameters. -/
def RawCommand.of (name : String) (parameters : Members) : RawCommand :=
  ⟨name, (parameters.erase "id").erase "command"⟩

/-- A command. -/
inductive Command
  | tx (c : TxCommand)
  | submit (c : SubmitCommand)
  | subscribe (i : Interest)
  | unsubscribe (i : Interest)
  | ping
  | serverInfo
  | raw (c : RawCommand)
  /-- A command whose parameters cannot be written. -/
  | unwritable (name reason : String)

namespace Command

def name : Command → String
  | .tx _ => "tx"
  | .submit _ => "submit"
  | .subscribe _ => "subscribe"
  | .unsubscribe _ => "unsubscribe"
  | .ping => "ping"
  | .serverInfo => "server_info"
  | .raw c => c.name
  | .unwritable name _ => name

def shape : Command → Shape
  | .tx _ => .transaction
  | .submit _ => .submission
  | .subscribe _ => .subscription
  | .unsubscribe _ => .members
  | .ping => .members
  | .serverInfo => .serverInfo
  | .raw _ => .untyped
  | .unwritable _ _ => .untyped

/-- The parameters of a command as they are written, or why they cannot be. -/
def parameters : Command → Except String (List (String × List Char))
  | .tx c => .ok (TxCommand.record.texts c)
  | .submit c => .ok (SubmitCommand.record.texts c)
  | .subscribe i => .ok ((Interest.record "SubscribeCommand").texts i)
  | .unsubscribe i => .ok ((Interest.record "UnsubscribeCommand").texts i)
  | .ping => .ok []
  | .serverInfo => .ok []
  | .raw c => .ok (Value.memberTexts c.parameters)
  | .unwritable _ reason => .error reason

/-- The parameters of a command as a JSON text. -/
def parametersText (c : Command) : Except ProtocolError String :=
  match c.parameters with
  | .ok members => .ok (String.ofList (Json.membersChars members))
  | .error reason => .error (.json ⟨.refused reason, none⟩)

/-- The frame of a request: a JSON object of the id, the command's name and its parameters. -/
def encode (id : Nat) (c : Command) : Except ProtocolError String :=
  match c.parameters with
  | .ok members =>
    .ok (String.ofList (Json.membersChars
      (("id", Json.natChars id) :: ("command", Json.textChars c.name) :: members)))
  | .error reason => .error (.json ⟨.refused reason, none⟩)

/-- The commands whose parameters can be read from JSON. -/
inductive Typed
  | tx
  | submit
  | subscribe
  | unsubscribe
  | ping
  | serverInfo
deriving DecidableEq, Repr

def decode (typed : Typed) (text : String) : Except Json.Fault Command :=
  match typed with
  | .tx => (TxCommand.record.codec.decode text).map .tx
  | .submit => (SubmitCommand.record.codec.decode text).map .submit
  | .subscribe => ((Interest.record "SubscribeCommand").codec.decode text).map .subscribe
  | .unsubscribe => ((Interest.record "UnsubscribeCommand").codec.decode text).map .unsubscribe
  | .ping => ((noParameters "PingCommand").codec.decode text).map fun () => .ping
  | .serverInfo => ((noParameters "ServerInfoCommand").codec.decode text).map fun () => .serverInfo

end Command

end LedgerClient
