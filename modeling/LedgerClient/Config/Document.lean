import LedgerClient.Config.Basic
import LedgerClient.Yaml.Decode
import LedgerClient.Yaml.Document
import LedgerClient.Yaml.Tree

/-!
# Configurations as documents

The names of the fields in a configuration file, how they are read and how they are written. A field
that is missing, and a section in which nothing is written, has its default; an interval of pings
that is not set is not written.
-/

namespace LedgerClient.Config

open Yaml (Document Node Tree field?)

/-! ## Writing -/

private def count (n : UInt64) : Tree := .number n.toNat

def Remote.toFields (r : Remote) : List (String × Tree) :=
  [("endpoint", .text r.endpoint), ("connect_timeout_secs", count r.connectTimeout),
    ("write_timeout_secs", count r.writeTimeout)] ++
  (r.pingInterval.map fun n => ("ping_interval_secs", count n)).toList ++
  [("liveness_window_secs", count r.livenessWindow),
    ("request_timeout_secs", count r.requestTimeout),
    ("outgoing_capacity", count r.outgoingCapacity), ("stream_capacity", count r.streamCapacity)]

def Subscription.toFields (s : Subscription) : List (String × Tree) :=
  [("streams", .list (s.streams.map fun c => .text c.name)),
    ("accounts", .list (s.accounts.map .text))]

def toFields (c : Config) : List (String × Tree) :=
  [("remote", .fields c.remote.toFields), ("subscribe", .fields c.subscription.toFields)]

def print (c : Config) : String := Tree.print c.toFields

/-! ## Reading -/

def number? (d : Document) (node : Node) : Option UInt64 :=
  (d.scalar? node).bind fun s => (s.natural? (UInt64.size - 1)).map UInt64.ofNat

def optionalNumber? (d : Document) (node : Node) : Option (Option UInt64) :=
  (d.scalar? node).bind
    (Yaml.Scalar.optional? fun s => (s.natural? (UInt64.size - 1)).map UInt64.ofNat)

def category? (d : Document) (node : Node) : Option Stream.Category :=
  ((d.scalar? node).bind Yaml.Scalar.choice?).bind Stream.Category.named?

def Remote.ofNode? (d : Document) (node : Node) : Option Remote := do
  let fields ← d.fields? node
  return {
    endpoint := ← field? fields "endpoint" Remote.default.endpoint d.text?
    connectTimeout :=
      ← field? fields "connect_timeout_secs" Remote.default.connectTimeout (number? d)
    writeTimeout := ← field? fields "write_timeout_secs" Remote.default.writeTimeout (number? d)
    pingInterval :=
      ← field? fields "ping_interval_secs" Remote.default.pingInterval (optionalNumber? d)
    livenessWindow :=
      ← field? fields "liveness_window_secs" Remote.default.livenessWindow (number? d)
    requestTimeout :=
      ← field? fields "request_timeout_secs" Remote.default.requestTimeout (number? d)
    outgoingCapacity :=
      ← field? fields "outgoing_capacity" Remote.default.outgoingCapacity (number? d)
    streamCapacity := ← field? fields "stream_capacity" Remote.default.streamCapacity (number? d) }

def Subscription.ofNode? (d : Document) (node : Node) : Option Subscription := do
  let fields ← d.fields? node
  let list {α : Type} (read : Node → Option α) (node : Node) : Option (List α) :=
    (d.items? node).bind (·.mapM read)
  return {
    streams := ← field? fields "streams" Subscription.default.streams (list (category? d))
    accounts := ← field? fields "accounts" Subscription.default.accounts (list d.text?) }

def ofDocument? (d : Document) : Option Config := do
  let fields ← d.fields? d.root
  return {
    remote := ← field? fields "remote" .default (Remote.ofNode? d)
    subscription := ← field? fields "subscribe" .default (Subscription.ofNode? d) }

def parse? (text : String) : Option Config := (Document.parse? text).bind ofDocument?

end LedgerClient.Config
