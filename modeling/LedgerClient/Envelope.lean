import LedgerClient.Json.Record
import LedgerClient.ProtocolError
import LedgerClient.Stream.Category

/-!
# Envelopes

The part of an incoming frame that decides where it goes: its type and, on responses, the id of the
command that is answered. A frame whose type is known as that of an event is an event, whatever id
it carries.
-/

namespace LedgerClient

open Json (Field Fields Record)

/-- The routing part of a frame. -/
structure Envelope where
  /-- The type of the frame, empty if it names none. -/
  type : String
  id : Option Nat
deriving DecidableEq, Repr

/-- Where a frame goes. -/
inductive Route
  | stream (kind : Stream.Kind)
  | response (id : Nat)
  | unrouted (type : String)
deriving DecidableEq, Repr

namespace Envelope

def record : Record Envelope [String, Option Nat] where
  name := "Envelope"
  fields :=
    .cons (.defaulted "type" .text "") <|
    .cons (.optional "id" .nat64) .nil
  make := fun (type, id, ()) => ⟨type, id⟩
  row := fun e => (e.type, e.id, ())

def decode (frame : String) : Except ProtocolError Envelope :=
  ProtocolError.ofJson (record.codec.decode frame)

def route (e : Envelope) : Route :=
  match Stream.Kind.ofType? e.type with
  | some kind => .stream kind
  | none =>
    match e.id with
    | some id => .response id
    | none => .unrouted e.type

end Envelope

/-- The text of a binary frame, which has to be UTF-8. -/
def decodeUtf8 (payload : ByteArray) : Except ProtocolError String :=
  match String.fromUTF8? payload with
  | some s => .ok s
  | none => .error .invalidUtf8

end LedgerClient
