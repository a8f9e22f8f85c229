import Mathlib
import LedgerClient.Proofs.Config.Load

/-!
# The layers of a configuration

Ten fields make up a configuration. Each of them has one variable at most and one place in a file,
and is what the variable is taken for if it is set to something usable, else what the file says, else
its default (`Field.layered`). So no field depends on the variable or on the place of another one
(`layersApart`).
-/

namespace LedgerClient.Config

open Yaml (Document Node)

/-! ## Fields -/

/-- The fields of a configuration. -/
inductive Field
  | endpoint
  | connectTimeout
  | writeTimeout
  | pingInterval
  | livenessWindow
  | requestTimeout
  | outgoingCapacity
  | streamCapacity
  | streams
  | accounts
deriving DecidableEq, Repr

namespace Field

/-- What a field holds. -/
abbrev Value : Field → Type
  | .endpoint => String
  | .pingInterval => Option UInt64
  | .streams => List Stream.Category
  | .accounts => List String
  | .connectTimeout | .writeTimeout | .livenessWindow | .requestTimeout | .outgoingCapacity
  | .streamCapacity => UInt64

def get : (f : Field) → Config → f.Value
  | .endpoint, c => c.remote.endpoint
  | .connectTimeout, c => c.remote.connectTimeout
  | .writeTimeout, c => c.remote.writeTimeout
  | .pingInterval, c => c.remote.pingInterval
  | .livenessWindow, c => c.remote.livenessWindow
  | .requestTimeout, c => c.remote.requestTimeout
  | .outgoingCapacity, c => c.remote.outgoingCapacity
  | .streamCapacity, c => c.remote.streamCapacity
  | .streams, c => c.subscription.streams
  | .accounts, c => c.subscription.accounts

theorem ext {c c' : Config} (h : ∀ f : Field, f.get c = f.get c') : c = c' := by
  obtain ⟨⟨_, _, _, _, _, _, _, _⟩, ⟨_, _⟩⟩ := c
  obtain ⟨⟨_, _, _, _, _, _, _, _⟩, ⟨_, _⟩⟩ := c'
  cases h .endpoint
  cases h .connectTimeout
  cases h .writeTimeout
  cases h .pingInterval
  cases h .livenessWindow
  cases h .requestTimeout
  cases h .outgoingCapacity
  cases h .streamCapacity
  cases h .streams
  cases h .accounts
  rfl

/-! ## Variables -/

/-- The variable that stands for a field, if there is one. -/
def variableName? : Field → Option String
  | .endpoint => some "XRPL_REMOTE_ENDPOINT"
  | .connectTimeout => some "XRPL_REMOTE_CONNECT_TIMEOUT"
  | .writeTimeout => some "XRPL_REMOTE_WRITE_TIMEOUT"
  | .pingInterval => some "XRPL_REMOTE_PING_INTERVAL"
  | .livenessWindow => some "XRPL_REMOTE_LIVENESS_WINDOW"
  | .requestTimeout => some "XRPL_REMOTE_REQUEST_TIMEOUT"
  | .streams => some "XRPL_REMOTE_STREAMS"
  | .outgoingCapacity | .streamCapacity | .accounts => none

/-- The stream that an entry of a list names, in any case and with blanks around it. -/
def streamNamed? (entry : List Char) : Option Stream.Category :=
  Stream.Category.named? (String.ofList (Text.lower (Text.trim entry)))

/-- What a field holds when its variable is this text, if the text is usable. -/
def ofText? : (f : Field) → String → Option f.Value
  | .endpoint, text => if text = "" then none else some text
  | .pingInterval, text => (Text.word64? (Text.trim text.toList)).map some
  | .streams, text => some ((Text.pieces (· == ',') text.toList).filterMap streamNamed?)
  | .accounts, _ => none
  | .connectTimeout, text | .writeTimeout, text | .livenessWindow, text | .requestTimeout, text
  | .outgoingCapacity, text | .streamCapacity, text => Text.word64? (Text.trim text.toList)

/-- What the variables say about a field. -/
def ofVariables? (f : Field) (environment : Environment) : Option f.Value :=
  (f.variableName?.bind environment).bind f.ofText?

theorem eq_of_variableName? {f g : Field} :
    f.variableName?.isSome = true → f.variableName? = g.variableName? → f = g := by
  cases f <;> cases g <;> decide

theorem streamNamed?_of_blank {entry : List Char} (h : Text.trim entry = []) :
    streamNamed? entry = none := by
  rw [streamNamed?, h]
  decide

theorem parse_entry (entry : List Char) : Stream.Category.parse (String.ofList entry) =
    match streamNamed? entry with
    | some category => .ok category
    | none => .error (.unknownStream (String.ofList (Text.lower (Text.trim entry)))) := by
  cases h : streamNamed? entry with
  | none =>
    rw [streamNamed?] at h
    simp only [Stream.Category.parse, String.toList_ofList, h]
  | some category =>
    rw [streamNamed?] at h
    simp only [Stream.Category.parse, String.toList_ofList, h]

theorem streamsOf_eq (list : String) :
    streamsOf list = (Text.pieces (· == ',') list.toList).filterMap streamNamed? := by
  simp only [streamsOf, streamEntries, List.filterMap_map, List.filterMap_filter]
  congr 1
  funext entry
  by_cases h : Text.trim entry = []
  · simp [h, streamNamed?_of_blank h]
  · have hkept : (!(Text.trim entry).isEmpty) = true := by simpa using h
    rw [if_pos hkept, Function.comp_apply, parse_entry]
    cases streamNamed? entry <;> rfl

theorem get_override (f : Field) (environment : Environment) (c : Config) :
    f.get (c.override environment) = (f.ofVariables? environment).getD (f.get c) := by
  cases f with
  | endpoint =>
    show ((environment "XRPL_REMOTE_ENDPOINT").filter (!·.isEmpty)).getD c.remote.endpoint =
      ((environment "XRPL_REMOTE_ENDPOINT").bind (ofText? .endpoint)).getD c.remote.endpoint
    cases environment "XRPL_REMOTE_ENDPOINT" with
    | none => rfl
    | some text => by_cases h : text = "" <;> simp [ofText?, h, Option.filter]
  | pingInterval =>
    show (environment.number? "XRPL_REMOTE_PING_INTERVAL").or c.remote.pingInterval =
      ((environment "XRPL_REMOTE_PING_INTERVAL").bind (ofText? .pingInterval)).getD
        c.remote.pingInterval
    rw [Environment.number?]
    cases environment "XRPL_REMOTE_PING_INTERVAL" with
    | none => rfl
    | some text =>
      simp only [Option.bind_some, ofText?]
      cases Text.word64? (Text.trim text.toList) <;> rfl
  | streams =>
    show ((environment "XRPL_REMOTE_STREAMS").map streamsOf).getD c.subscription.streams =
      ((environment "XRPL_REMOTE_STREAMS").bind (ofText? .streams)).getD c.subscription.streams
    cases environment "XRPL_REMOTE_STREAMS" with
    | none => rfl
    | some text => exact streamsOf_eq text
  | _ => rfl

/-! ## Files -/

/-- The section of a file that a field is in. -/
def fileSection : Field → String
  | .streams | .accounts => "subscribe"
  | _ => "remote"

def name : Field → String
  | .endpoint => "endpoint"
  | .connectTimeout => "connect_timeout_secs"
  | .writeTimeout => "write_timeout_secs"
  | .pingInterval => "ping_interval_secs"
  | .livenessWindow => "liveness_window_secs"
  | .requestTimeout => "request_timeout_secs"
  | .outgoingCapacity => "outgoing_capacity"
  | .streamCapacity => "stream_capacity"
  | .streams => "streams"
  | .accounts => "accounts"

theorem eq_of_place {f g : Field} : f.fileSection = g.fileSection → f.name = g.name → f = g := by
  cases f <;> cases g <;> decide

/-- What the node of a field is read as. -/
def ofNode? : (f : Field) → Document → Node → Option f.Value
  | .endpoint, d, node => d.text? node
  | .pingInterval, d, node => optionalNumber? d node
  | .streams, d, node => (d.items? node).bind (·.mapM (category? d))
  | .accounts, d, node => (d.items? node).bind (·.mapM d.text?)
  | .connectTimeout, d, node | .writeTimeout, d, node | .livenessWindow, d, node
  | .requestTimeout, d, node | .outgoingCapacity, d, node | .streamCapacity, d, node =>
    number? d node

/-- The node under a name. -/
def nodeUnder? (fields : List (String × Node)) (name : String) : Option Node :=
  (fields.find? (·.1 == name)).map (·.2)

/-- What a document says about a field. -/
def ofDocument? (f : Field) (d : Document) : Option f.Value := do
  let sections ← d.fields? d.root
  let fields ← d.fields? (← nodeUnder? sections f.fileSection)
  f.ofNode? d (← nodeUnder? fields f.name)

end Field

theorem field?_cases {α : Type} {fields : List (String × Node)} {name : String} {missing a : α}
    {read : Node → Option α} (h : Yaml.field? fields name missing read = some a) :
    (Field.nodeUnder? fields name = none ∧ a = missing) ∨
      ∃ node, Field.nodeUnder? fields name = some node ∧ read node = some a := by
  unfold Yaml.field? at h
  rw [Field.nodeUnder?, ← List.head?_filter]
  split at h
  · rename_i heq
    rw [heq]
    exact .inl ⟨rfl, (Option.some.inj h).symm⟩
  · rename_i node heq
    rw [heq]
    exact .inr ⟨node, rfl, h⟩
  · cases h

theorem eq_of_field? {α : Type} {fields : List (String × Node)} {name : String} {missing a : α}
    {read : Node → Option α} (h : Yaml.field? fields name missing read = some a) :
    a = ((Field.nodeUnder? fields name).bind read).getD missing := by
  rcases field?_cases h with ⟨hnone, rfl⟩ | ⟨node, hsome, hread⟩
  · rw [hnone]
    rfl
  · rw [hsome, Option.bind_some, hread]
    rfl

theorem get_of_remote {d : Document} {node : Node} {r : Remote}
    (h : Remote.ofNode? d node = some r) : ∃ fields, d.fields? node = some fields ∧
      ∀ f : Field, f.fileSection = "remote" → ∀ s, f.get ⟨r, s⟩ =
        ((Field.nodeUnder? fields f.name).bind (f.ofNode? d)).getD (f.get default) := by
  simp only [Remote.ofNode?, Option.bind_eq_bind, Option.bind_eq_some_iff, Option.pure_def,
    Option.some.injEq] at h
  obtain ⟨fields, hfields, endpoint, hendpoint, connect, hconnect, write, hwrite, ping, hping,
    window, hwindow, request, hrequest, outgoing, houtgoing, events, hevents, rfl⟩ := h
  refine ⟨fields, hfields, fun f hf s => ?_⟩
  cases f with
  | endpoint => exact eq_of_field? hendpoint
  | connectTimeout => exact eq_of_field? hconnect
  | writeTimeout => exact eq_of_field? hwrite
  | pingInterval => exact eq_of_field? hping
  | livenessWindow => exact eq_of_field? hwindow
  | requestTimeout => exact eq_of_field? hrequest
  | outgoingCapacity => exact eq_of_field? houtgoing
  | streamCapacity => exact eq_of_field? hevents
  | streams => simp [Field.fileSection] at hf
  | accounts => simp [Field.fileSection] at hf

theorem get_of_subscription {d : Document} {node : Node} {s : Subscription}
    (h : Subscription.ofNode? d node = some s) : ∃ fields, d.fields? node = some fields ∧
      ∀ f : Field, f.fileSection = "subscribe" → ∀ r, f.get ⟨r, s⟩ =
        ((Field.nodeUnder? fields f.name).bind (f.ofNode? d)).getD (f.get default) := by
  simp only [Subscription.ofNode?, Option.bind_eq_bind, Option.bind_eq_some_iff, Option.pure_def,
    Option.some.injEq] at h
  obtain ⟨fields, hfields, streams, hstreams, accounts, haccounts, rfl⟩ := h
  refine ⟨fields, hfields, fun f hf r => ?_⟩
  cases f with
  | streams => exact eq_of_field? hstreams
  | accounts => exact eq_of_field? haccounts
  | _ => simp [Field.fileSection] at hf

theorem get_of_document {d : Document} {c : Config} (h : ofDocument? d = some c) (f : Field) :
    f.get c = (f.ofDocument? d).getD (f.get default) := by
  simp only [ofDocument?, Option.bind_eq_bind, Option.bind_eq_some_iff, Option.pure_def,
    Option.some.injEq] at h
  obtain ⟨sections, hsections, r, hr, s, hs, rfl⟩ := h
  simp only [Field.ofDocument?, hsections, Option.bind_eq_bind, Option.bind_some]
  by_cases hf : f.fileSection = "remote"
  · rw [hf]
    rcases field?_cases hr with ⟨hnone, rfl⟩ | ⟨node, hsome, hread⟩
    · rw [hnone]
      cases f <;> first | rfl | simp [Field.fileSection] at hf
    · obtain ⟨fields, hfields, hget⟩ := get_of_remote hread
      rw [hsome, Option.bind_some, hfields, Option.bind_some, hget f hf]
  · have hf' : f.fileSection = "subscribe" := by
      cases f <;> first | rfl | simp [Field.fileSection] at hf
    rw [hf']
    rcases field?_cases hs with ⟨hnone, rfl⟩ | ⟨node, hsome, hread⟩
    · rw [hnone]
      cases f <;> first | rfl | simp [Field.fileSection] at hf'
    · obtain ⟨fields, hfields, hget⟩ := get_of_subscription hread
      rw [hsome, Option.bind_some, hfields, Option.bind_some, hget f hf']

/-! ## Layers -/

/-- What a field is by its three layers: the variables, the file, if there is one, and its
default. -/
def Field.layered (f : Field) (environment : Environment) (file : Option Document) : f.Value :=
  (f.ofVariables? environment).getD ((file.bind f.ofDocument?).getD (f.get default))

/-- The file that lies beneath the variables: none if none is named, else one that is read and holds
a configuration. -/
inductive Lies (files : Files) (environment : Environment) : Option Document → Prop
  | nothing : environment fileVariable = none → Lies files environment none
  | file {name text : String} {d : Document} {c : Config} :
      environment fileVariable = some name → files.readText name = .ok text →
      Document.parse? text = some d → ofDocument? d = some c → Lies files environment (some d)

theorem beneath_of_lies {files : Files} {environment : Environment} {file : Option Document}
    (h : Lies files environment file) : ∃ c, beneath files environment = .ok c ∧
      ∀ f : Field, f.get c = (file.bind f.ofDocument?).getD (f.get default) := by
  cases h with
  | nothing hnone => exact ⟨default, by rw [beneath, hnone], fun f => rfl⟩
  | @file name text d c hname htext hparse hread =>
    refine ⟨c, ?_, get_of_document hread⟩
    simp only [beneath, hname, ofFile, htext, parse?, hparse, Option.bind_some, hread]

theorem lies_of_beneath {files : Files} {environment : Environment} {c : Config}
    (h : beneath files environment = .ok c) : ∃ file, Lies files environment file := by
  unfold beneath at h
  split at h
  · rename_i hnone
    exact ⟨none, .nothing hnone⟩
  · rename_i name hname
    unfold ofFile at h
    split at h
    · cases h
    · rename_i text htext
      split at h
      · cases h
      · rename_i c' hparse
        obtain ⟨d, hd, hread⟩ := Option.bind_eq_some_iff.mp hparse
        exact ⟨some d, .file hname htext hd hread⟩

theorem layered_of_lies {files : Files} {environment : Environment} {file : Option Document}
    (h : Lies files environment file) : ∃ c, layered files environment = .ok c ∧
      ∀ f : Field, f.get c = f.layered environment file := by
  obtain ⟨c, hc, hget⟩ := beneath_of_lies h
  refine ⟨c.override environment, by rw [layered_eq, hc]; rfl, fun f => ?_⟩
  rw [f.get_override, hget f, Field.layered]

theorem override_override (environment : Environment) (c : Config) :
    (c.override environment).override environment = c.override environment := by
  apply Field.ext
  intro f
  rw [f.get_override, f.get_override]
  cases f.ofVariables? environment <;> rfl

/-- **The layers of a configuration do not interfere.** The configuration that is loaded and checked
has in each field what its three layers say about this field; so it does not depend on another
field's variable or place in the file. Capacities and accounts have no variable, and overriding a
second time changes nothing. -/
theorem layersApart :
    (∀ files environment file, Lies files environment file →
      ∃ c, layered files environment = .ok c ∧ load? files environment = c.checked? ∧
        ∀ f : Field, f.get c = f.layered environment file) ∧
    (∀ files environment c, layered files environment = .ok c →
      ∃ file, Lies files environment file) ∧
    (∀ files environment file c files' environment' file' c', Lies files environment file →
      layered files environment = .ok c → Lies files' environment' file' →
      layered files' environment' = .ok c' →
      ∀ f : Field, f.variableName?.bind environment = f.variableName?.bind environment' →
        file.bind f.ofDocument? = file'.bind f.ofDocument? → f.get c = f.get c') ∧
    (∀ environment (c : Config) name value, ∀ f : Field, f.variableName? ≠ some name →
      f.get (c.override (Function.update environment name value)) =
        f.get (c.override environment)) ∧
    (∀ f g : Field, f.variableName?.isSome = true → f.variableName? = g.variableName? → f = g) ∧
    (∀ f g : Field, f.fileSection = g.fileSection → f.name = g.name → f = g) ∧
    (∀ environment (c : Config),
      (c.override environment).remote.outgoingCapacity = c.remote.outgoingCapacity ∧
      (c.override environment).remote.streamCapacity = c.remote.streamCapacity ∧
      (c.override environment).subscription.accounts = c.subscription.accounts ∧
      (c.override environment).override environment = c.override environment) := by
  refine ⟨?_, ?_, ?_, ?_, fun f g => Field.eq_of_variableName?, fun f g => Field.eq_of_place,
    fun environment c => ⟨rfl, rfl, rfl, override_override environment c⟩⟩
  · intro files environment file h
    obtain ⟨c, hc, hget⟩ := layered_of_lies h
    exact ⟨c, hc, by rw [load?, hc], hget⟩
  · intro files environment c h
    rw [layered_eq] at h
    cases hbeneath : beneath files environment with
    | error e =>
      rw [hbeneath] at h
      cases h
    | ok below => exact lies_of_beneath hbeneath
  · intro files environment file c files' environment' file' c' h hc h' hc' f hvariable hfile
    obtain ⟨d, hd, hget⟩ := layered_of_lies h
    obtain ⟨d', hd', hget'⟩ := layered_of_lies h'
    obtain rfl := Except.ok.inj (hd.symm.trans hc)
    obtain rfl := Except.ok.inj (hd'.symm.trans hc')
    rw [hget f, hget' f, Field.layered, Field.layered, Field.ofVariables?, Field.ofVariables?,
      hvariable, hfile]
  · intro environment c name value f hname
    have hsame : f.variableName?.bind (Function.update environment name value) =
        f.variableName?.bind environment := by
      cases hf : f.variableName? with
      | none => rfl
      | some other =>
        have hne : other ≠ name := fun heq => hname (by rw [hf, heq])
        exact Function.update_of_ne hne value environment
    rw [f.get_override, f.get_override, Field.ofVariables?, Field.ofVariables?, hsame]

/-- A file that sets the endpoint and a limit, under variables of which one is unusable and one
names no stream. -/
theorem layersApart_of_file :
    let files : Files := fun _ =>
      .ok "remote:\n  endpoint: ws://a\n  write_timeout_secs: 7\n".toUTF8.toList
    let environment : Environment := fun name =>
      if name = "XRPL_REMOTE_CONFIG" then some "c"
      else if name = "XRPL_REMOTE_ENDPOINT" then some "ws://b"
      else if name = "XRPL_REMOTE_WRITE_TIMEOUT" then some "soon"
      else if name = "XRPL_REMOTE_STREAMS" then some "server,, x,Ledger "
      else none
    ∃ file c, Lies files environment file ∧ layered files environment = .ok c ∧
      (∀ f : Field, f.get c = f.layered environment file) ∧
      c.remote.endpoint = "ws://b" ∧ c.remote.writeTimeout = 7 ∧ c.remote.connectTimeout = 5 ∧
      c.subscription.streams = [.server, .ledger] := by
  intro files environment
  have hname : environment fileVariable = some "c" := rfl
  have htext : files.readText "c" =
      .ok "remote:\n  endpoint: ws://a\n  write_timeout_secs: 7\n" := by cbv
  have hparse : parse? "remote:\n  endpoint: ws://a\n  write_timeout_secs: 7\n" =
      some ⟨{ Remote.default with endpoint := "ws://a", writeTimeout := 7 }, .default⟩ := by cbv
  obtain ⟨d, hd, hread⟩ := Option.bind_eq_some_iff.mp hparse
  have hlies : Lies files environment (some d) := .file hname htext hd hread
  obtain ⟨c, hc, -, hget⟩ := layersApart.1 files environment (some d) hlies
  have hwhole : layered files environment = .ok (override environment
      ⟨{ Remote.default with endpoint := "ws://a", writeTimeout := 7 }, .default⟩) := by
    simp only [layered, hname, ofFile, htext, hparse, Except.map]
  obtain heq : c = _ := Except.ok.inj (hc.symm.trans hwhole)
  have hvalues : c.remote.endpoint = "ws://b" ∧ c.remote.writeTimeout = 7 ∧
      c.remote.connectTimeout = 5 ∧ c.subscription.streams = [.server, .ledger] := by
    rw [heq]
    exact ⟨by decide +kernel, by decide +kernel, by decide +kernel, by decide +kernel⟩
  exact ⟨some d, c, hlies, hc, hget, hvalues⟩

end LedgerClient.Config
