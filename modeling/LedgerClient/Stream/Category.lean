import LedgerClient.Json.Codec
import LedgerClient.ProtocolError
import LedgerClient.Text.LowerCase

/-!
# Stream categories

The streams that a client can subscribe to, and the kinds of events that come from them. The type
that a frame names decides its kind through `Kind.table`; both the names of the pushed frames and
those of the categories are in it.
-/

namespace LedgerClient.Stream

/-- A stream that can be subscribed to. -/
inductive Category
  | ledger
  | transactions
  | server
deriving DecidableEq, Repr

/-- A kind of event. -/
inductive Kind
  | ledger
  | transaction
  | server
deriving DecidableEq, Repr

namespace Category

def all : List Category := [.ledger, .transactions, .server]

def name : Category → String
  | .ledger => "ledger"
  | .transactions => "transactions"
  | .server => "server"

/-- The kind of event that a category delivers. -/
def kind : Category → Kind
  | .ledger => .ledger
  | .transactions => .transaction
  | .server => .server

def named? (s : String) : Option Category := all.find? (·.name == s)

/-- Reads the name of a category in any case, with blanks around it. -/
def parse (s : String) : Except ProtocolError Category :=
  let name := String.ofList (Text.lower (Text.trim s.toList))
  match named? name with
  | some category => .ok category
  | none => .error (.unknownStream name)

def codec : Json.Codec Category := .choice (all.map fun c => (c.name, c)) name

def join (categories : List Category) : String := Text.joinWith ", " (categories.map name)

/-- Reads categories from arguments, each of which may hold several with commas between them. Empty
ones are passed over; the first that is unknown ends the reading. -/
def parseList (arguments : List String) : Except ProtocolError (List Category) :=
  let names := arguments.flatMap fun a => Text.pieces (· == ',') a.toList
  (names.filter (!·.isEmpty)).mapM fun cs => parse (String.ofList cs)

end Category

namespace Kind

/-- The type names of frames with the kinds of event that they hold. -/
def table : List (String × Kind) :=
  [("ledgerClosed", .ledger), ("ledger", .ledger), ("transaction", .transaction),
    ("transactions", .transaction), ("serverStatus", .server), ("server", .server)]

/-- The kind of event in frames of this type. -/
def ofType? (type : String) : Option Kind := (table.find? (·.1 == type)).map (·.2)

end Kind

end LedgerClient.Stream
