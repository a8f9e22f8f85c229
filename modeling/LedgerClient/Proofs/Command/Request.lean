import LedgerClient.Command.Basic
import LedgerClient.Proofs.Hash
import LedgerClient.Proofs.Json.WrittenRecord
import LedgerClient.Proofs.Session.Views

/-!
# Requests come back as they were sent

A request is a JSON object of an id, the name of the command and its parameters. Its `entries` say
which members these are, apart from how they are written. Read as a value of any type, the text of a
request has exactly these members; read as the command that it is of, it is that command, since each
field that is left out is one that is missing by default; and read as an envelope it is what the
response with its id is. A command that is given by name loses the parameters that would take the
place of the id or the name.
-/

namespace LedgerClient

open Json (Codec Field Fields Holds Members Reader Record Taken Value Written)

/-! ## Parameters as values -/

/-- The streams and accounts of a subscription; what there is none of is left out. -/
def Interest.values (i : Interest) : List (String × Value) :=
  (if i.streams.isEmpty then []
    else [("streams", .list (i.streams.map fun s => .text s.name))]) ++
    if i.accounts.isEmpty then [] else [("accounts", .list (i.accounts.map .text))]

namespace Command

/-- The parameters of a command as values. -/
def values : Command → List (String × Value)
  | .tx c => ("transaction", .text c.transaction.text) ::
      if c.binary then [("binary", .bool true)] else []
  | .submit c => ("tx_blob", .text c.blob) ::
      if c.failHard then [("fail_hard", .bool true)] else []
  | .subscribe i => i.values
  | .unsubscribe i => i.values
  | .ping => []
  | .serverInfo => []
  | .raw c => c.parameters
  | .unwritable _ _ => []

/-- The members of a request. -/
def entries (id : Nat) (c : Command) : List (String × Value) :=
  ("id", .number (.int id)) :: ("command", .text c.name) :: c.values

/-- The commands that have a JSON text: a command that is given by name has parameters that are kept
as they are written. -/
def Encodable : Command → Prop
  | .raw c => ∃ parameters, c = .of c.name parameters ∧
      (Value.object parameters).Plain Json.nestingLimit
  | .unwritable _ _ => False
  | _ => True

/-- The type that a command's parameters can be read as. -/
def typed? : Command → Option Typed
  | .tx _ => some .tx
  | .submit _ => some .submit
  | .subscribe _ => some .subscribe
  | .unsubscribe _ => some .unsubscribe
  | .ping => some .ping
  | .serverInfo => some .serverInfo
  | .raw _ => none
  | .unwritable _ _ => none

end Command

theorem Interest.texts_eq (name : String) (i : Interest) :
    (Interest.record name).texts i = Value.memberTexts i.values := by
  obtain ⟨streams, accounts⟩ := i
  cases streams <;> cases accounts <;>
    simp [Record.texts, Interest.record, Fields.texts, Field.omitting, Interest.values, Codec.list,
      Stream.Category.codec, Codec.choice, Codec.text, Value.memberTexts, Value.chars,
      Json.itemTexts_eq_map, Function.comp_def]

namespace Command

theorem parameters_eq {c : Command} (h : c.Encodable) :
    c.parameters = .ok (Value.memberTexts c.values) := by
  cases c with
  | tx c =>
    obtain ⟨transaction, binary⟩ := c
    cases binary <;> rfl
  | submit c =>
    obtain ⟨blob, failHard⟩ := c
    cases failHard <;> rfl
  | subscribe i => rw [parameters, Interest.texts_eq, values]
  | unsubscribe i => rw [parameters, Interest.texts_eq, values]
  | ping => rfl
  | serverInfo => rfl
  | raw c => rfl
  | unwritable name reason => exact h.elim

theorem encode_eq {id : Nat} {c : Command} (h : c.Encodable) :
    c.encode id = .ok (String.ofList (Json.membersChars (Value.memberTexts (c.entries id)))) := by
  rw [encode, parameters_eq h]
  rfl

/-! ## The entries of a request -/

theorem plain_of_object {room : Nat} {members : Members}
    (h : (Value.object members).Plain (room + 1)) :
    members.Sorted ∧ ∀ m ∈ members, m.2.Plain room := by
  cases h with
  | object hsorted hmembers => exact ⟨hsorted, hmembers⟩

theorem mem_of_mem_of {name : String} {parameters : Members} {m : String × Value}
    (h : m ∈ (RawCommand.of name parameters).parameters) :
    m ∈ parameters ∧ m.1 ≠ "id" ∧ m.1 ≠ "command" := by
  simp only [RawCommand.of, Members.erase, List.mem_filter, bne_iff_ne] at h
  exact ⟨h.1.1, h.1.2, h.2⟩

theorem sorted_of {name : String} {parameters : Members} (h : parameters.Sorted) :
    (RawCommand.of name parameters).parameters.Sorted :=
  (h.filter _).filter _

theorem plain_of_texts {α : Type} (f : α → String) (as : List α) (room : Nat) :
    (Value.list (as.map fun a => .text (f a))).Plain (room + 1) := by
  refine .list fun v hv => ?_
  obtain ⟨a, -, rfl⟩ := List.mem_map.mp hv
  exact .text (f a)

theorem mem_values_of_interest {i : Interest} {m : String × Value} (h : m ∈ i.values) :
    (m.1 = "streams" ∨ m.1 = "accounts") ∧ ∀ room, m.2.Plain (room + 1) := by
  unfold Interest.values at h
  rcases List.mem_append.mp h with h | h
  · split at h
    · simp at h
    · obtain rfl := List.mem_singleton.mp h
      exact ⟨.inl rfl, plain_of_texts _ _⟩
  · split at h
    · simp at h
    · obtain rfl := List.mem_singleton.mp h
      exact ⟨.inr rfl, plain_of_texts (fun a => a) _⟩

theorem eq_of_mem_flag {b : Bool} {key : String} {m : String × Value}
    (h : m ∈ if b then [(key, Value.bool true)] else []) : m = (key, .bool true) := by
  split at h
  · exact List.mem_singleton.mp h
  · simp at h

theorem values_apart {c : Command} (h : c.Encodable) :
    ∀ m ∈ c.values, m.2.Plain (Json.nestingLimit - 1) ∧ m.1 ≠ "id" ∧ m.1 ≠ "command" := by
  intro m hm
  unfold values at hm
  split at hm
  · rcases List.mem_cons.mp hm with rfl | hm
    · exact ⟨.text _, by simp, by simp⟩
    · obtain rfl := eq_of_mem_flag hm
      exact ⟨.bool true, by decide, by decide⟩
  · rcases List.mem_cons.mp hm with rfl | hm
    · exact ⟨.text _, by simp, by simp⟩
    · obtain rfl := eq_of_mem_flag hm
      exact ⟨.bool true, by decide, by decide⟩
  · obtain ⟨hkey, hplain⟩ := mem_values_of_interest hm
    refine ⟨hplain _, ?_⟩
    rcases hkey with hkey | hkey <;> (rw [hkey]; decide)
  · obtain ⟨hkey, hplain⟩ := mem_values_of_interest hm
    refine ⟨hplain _, ?_⟩
    rcases hkey with hkey | hkey <;> (rw [hkey]; decide)
  · simp at hm
  · simp at hm
  · obtain ⟨parameters, hc, hplain⟩ := h
    rw [hc] at hm
    obtain ⟨hmem, hid, hcommand⟩ := mem_of_mem_of hm
    exact ⟨(plain_of_object hplain).2 m hmem, hid, hcommand⟩
  · simp at hm

theorem nodup_of_sorted {members : Members} (h : members.Sorted) : (members.map (·.1)).Nodup := by
  refine List.pairwise_map.mpr (h.imp fun hlt heq => ?_)
  exact String.lt_irrefl _ (heq ▸ hlt)

theorem nodup_values {c : Command} (h : c.Encodable) : (c.values.map (·.1)).Nodup := by
  unfold values
  split
  · split <;> simp
  · split <;> simp
  · unfold Interest.values
    split <;> split <;> simp
  · unfold Interest.values
    split <;> split <;> simp
  · exact List.nodup_nil
  · exact List.nodup_nil
  · obtain ⟨parameters, hc, hplain⟩ := h
    rw [hc]
    exact nodup_of_sorted (sorted_of (plain_of_object hplain).1)
  · exact List.nodup_nil

theorem nodup_entries {c : Command} (id : Nat) (h : c.Encodable) :
    ((c.entries id).map (·.1)).Nodup := by
  have hapart := values_apart h
  have hid : "id" ∉ c.values.map (·.1) := by
    intro hm
    obtain ⟨m, hm, hkey⟩ := List.mem_map.mp hm
    exact (hapart m hm).2.1 hkey
  have hcommand : "command" ∉ c.values.map (·.1) := by
    intro hm
    obtain ⟨m, hm, hkey⟩ := List.mem_map.mp hm
    exact (hapart m hm).2.2 hkey
  have hne : "id" ≠ "command" := by decide
  simp only [entries, List.map_cons]
  refine List.nodup_cons.mpr ⟨fun hm => ?_, List.nodup_cons.mpr ⟨hcommand, nodup_values h⟩⟩
  exact (List.mem_cons.mp hm).elim hne hid

theorem plain_id {id : Nat} (h : id < UInt64.size) (room : Nat) :
    (Value.number (.int id)).Plain room := by
  simp only [UInt64.size] at h
  exact .integer (by omega) (by omega)

theorem plain_entries {id : Nat} {c : Command} (hid : id < UInt64.size) (h : c.Encodable) :
    ∀ m ∈ c.entries id, m.2.Plain (Json.nestingLimit - 1) := by
  intro m hm
  rcases List.mem_cons.mp hm with rfl | hm
  · exact plain_id hid _
  · rcases List.mem_cons.mp hm with rfl | hm
    · exact .text _
    · exact (values_apart h m hm).1

/-! ## A request as an envelope -/

theorem envelope_of_entries {id : Nat} {c : Command} (hid : id < UInt64.size) (h : c.Encodable)
    (htype : ∀ m ∈ c.values, m.1 ≠ "type") :
    Envelope.decode (String.ofList (Json.membersChars (Value.memberTexts (c.entries id)))) =
      .ok ⟨"", some id⟩ := by
  have hnumber : Written (Codec.nat64.read (Json.nestingLimit - 1)) (Json.natChars id) id :=
    Json.written_natural _ hid (Nat.le_refl _)
  have hothers : ∀ m ∈ ("command", Value.text c.name) :: c.values,
      m.2.Plain (Json.nestingLimit - 1) ∧ Envelope.record.fields.declares m.1 = false := by
    intro m hm
    rcases List.mem_cons.mp hm with rfl | hm
    · exact ⟨.text _, rfl⟩
    · obtain ⟨hplain, hid, -⟩ := values_apart h m hm
      exact ⟨hplain, Response.undeclared_of_ne hid.symm (htype m hm).symm⟩
  have htaken : Taken (Envelope.record.member (Json.nestingLimit - 1))
      (Value.memberTexts (c.entries id)) Envelope.record.fields.empty (none, some (some id), ()) := by
    refine .cons (fun rest hr => ?_) (Record.taken_undeclared hothers _)
    have hread := Json.afterColon_alongside Json.option_of_natural
      (Json.afterColon_of_written hnumber hr)
    have hne : "type" ≠ "id" := by decide
    exact (Record.member_of_declared rfl).trans
      (Fields.readMember_other hne (Fields.readMember_named (.optional "id" .nat64) rfl hread))
  rw [Envelope.decode, Record.decode_of_taken htaken rfl]
  rfl

/-! ## A request as its command -/

theorem record_of_entries {α : Type} {βs : List Type} (r : Record α βs) (a : α) (c : Command)
    {id : Nat} (hid : id < UInt64.size) (hc : c.Encodable) (hp : c.parameters = .ok (r.texts a))
    (hd : r.fields.Distinct) (hk : r.fields.Kept (Json.nestingLimit - 1) (r.row a))
    (hfirst : r.fields.declares "id" = false) (hsecond : r.fields.declares "command" = false) :
    r.codec.decode (String.ofList (Json.membersChars (Value.memberTexts (c.entries id)))) =
      .ok (r.make (r.row a)) := by
  have hhead : ∀ m ∈ [("id", Value.number (.int id)), ("command", Value.text c.name)],
      m.2.Plain 0 ∧ r.fields.declares m.1 = false := by
    intro m hm
    rcases List.mem_cons.mp hm with rfl | hm
    · exact ⟨plain_id hid 0, hfirst⟩
    · obtain rfl := List.mem_singleton.mp hm
      exact ⟨.text c.name, hsecond⟩
  have htexts : r.texts a = Value.memberTexts c.values :=
    Except.ok.inj (hp.symm.trans (parameters_eq hc))
  have hdecode := Record.decode_texts hd hk hhead
  rw [htexts] at hdecode
  exact hdecode

theorem written_category (room : Nat) (s : Stream.Category) :
    Written (Stream.Category.codec.read room) (Stream.Category.codec.write s) s := by
  refine Json.written_choice room ?_
  cases s <;> rfl

theorem written_streams (room : Nat) (streams : List Stream.Category) :
    Written ((Codec.list Stream.Category.codec).read (room + 1))
      ((Codec.list Stream.Category.codec).write streams) streams :=
  Json.written_list (List.forall₂_map_left_iff.mpr
    (List.forall₂_same.mpr fun s _ => written_category room s))

theorem written_accounts (room : Nat) (accounts : List String) :
    Written ((Codec.list Codec.text).read (room + 1)) ((Codec.list Codec.text).write accounts)
      accounts :=
  Json.written_list (List.forall₂_map_left_iff.mpr
    (List.forall₂_same.mpr fun a _ => Json.written_text room a))

theorem kept_interest (name : String) (i : Interest) :
    (Interest.record name).fields.Kept (Json.nestingLimit - 1) ((Interest.record name).row i) :=
  ⟨Field.kept_omitting _ (fun h => List.isEmpty_iff.mp h) (written_streams _ i.streams),
    Field.kept_omitting _ (fun h => List.isEmpty_iff.mp h) (written_accounts _ i.accounts), trivial⟩

theorem kept_tx (c : TxCommand) :
    TxCommand.record.fields.Kept (Json.nestingLimit - 1) (TxCommand.record.row c) :=
  ⟨Field.kept_required _ (Hash.written _ c.transaction),
    Field.kept_omitting (c := .bool) _ (fun h => by simpa using h) (Json.written_bool 0 c.binary),
    trivial⟩

theorem kept_submit (c : SubmitCommand) :
    SubmitCommand.record.fields.Kept (Json.nestingLimit - 1) (SubmitCommand.record.row c) :=
  ⟨Field.kept_required (c := .text) _ (Json.written_text 0 c.blob),
    Field.kept_omitting (c := .bool) _ (fun h => by simpa using h) (Json.written_bool 0 c.failHard),
    trivial⟩

/-- A request is read back as the command that it is of. -/
theorem decode_of_entries {id : Nat} {c : Command} {typed : Typed} (hid : id < UInt64.size)
    (ht : c.typed? = some typed) :
    decode typed (String.ofList (Json.membersChars (Value.memberTexts (c.entries id)))) = .ok c := by
  unfold typed? at ht
  split at ht
  · rename_i c
    obtain rfl := Option.some.inj ht
    have hread := record_of_entries TxCommand.record c (.tx c) hid trivial rfl ⟨rfl, rfl, trivial⟩
      (kept_tx c) rfl rfl
    rw [decode, hread]
    rfl
  · rename_i c
    obtain rfl := Option.some.inj ht
    have hread := record_of_entries SubmitCommand.record c (.submit c) hid trivial rfl
      ⟨rfl, rfl, trivial⟩ (kept_submit c) rfl rfl
    rw [decode, hread]
    rfl
  · rename_i i
    obtain rfl := Option.some.inj ht
    have hread := record_of_entries (Interest.record "SubscribeCommand") i (.subscribe i) hid trivial
      rfl ⟨rfl, rfl, trivial⟩ (kept_interest _ i) rfl rfl
    rw [decode, hread]
    rfl
  · rename_i i
    obtain rfl := Option.some.inj ht
    have hread := record_of_entries (Interest.record "UnsubscribeCommand") i (.unsubscribe i) hid
      trivial rfl ⟨rfl, rfl, trivial⟩ (kept_interest _ i) rfl rfl
    rw [decode, hread]
    rfl
  · obtain rfl := Option.some.inj ht
    have hread := record_of_entries (noParameters "PingCommand") () .ping hid trivial rfl trivial
      trivial rfl rfl
    rw [decode, hread]
    rfl
  · obtain rfl := Option.some.inj ht
    have hread := record_of_entries (noParameters "ServerInfoCommand") () .serverInfo hid trivial rfl
      trivial trivial rfl rfl
    rw [decode, hread]
    rfl
  · simp at ht
  · simp at ht

/-! ## A request as an object -/

theorem erase_entries {id : Nat} {c : Command} (h : c.Encodable) :
    Members.erase "command" (Members.erase "id" (c.entries id)) = c.values := by
  have hid : c.values.filter (·.1 != "id") = c.values :=
    List.filter_eq_self.mpr fun m hm => by simp [(values_apart h m hm).2.1]
  have hcommand : c.values.filter (·.1 != "command") = c.values :=
    List.filter_eq_self.mpr fun m hm => by simp [(values_apart h m hm).2.2]
  simp [Members.erase, entries, hid, hcommand]

theorem others_of_entries {id : Nat} {r : RawCommand} (h : (Command.raw r).Encodable) :
    ((Members.ofList (entries id (.raw r))).erase "id").erase "command" = r.parameters := by
  have hsorted : r.parameters.Sorted := by
    obtain ⟨parameters, hr, hplain⟩ := h
    rw [hr]
    exact sorted_of (plain_of_object hplain).1
  have hperm := Members.ofList_perm (nodup_entries id h)
  refine Members.eq_of_perm (((Members.sorted_ofList _).filter _).filter _) hsorted ?_
  have hvalues : Members.erase "command" (Members.erase "id" (entries id (.raw r))) =
      r.parameters := erase_entries h
  rw [← hvalues]
  exact (hperm.filter _).filter _

/-- The text of a request and all that can be read off it. -/
structure RoundTrip (id : Nat) (c : Command) (text : String) : Prop where
  /-- It is what a command with this id is sent as. -/
  encoded : c.encode id = .ok text
  /-- It is an object. -/
  object : Holds .object text.toList
  /-- Its members are the id, the name and the parameters, as they stand there. -/
  members : Reader.entries.parse text = .ok (c.entries id)
  /-- None of them is repeated. -/
  distinct : ((c.entries id).map (·.1)).Nodup
  /-- So all of them are kept when it is read as a value. -/
  value : Codec.value.decode text = .ok (.object (Members.ofList (c.entries id)))
  kept : (Members.ofList (c.entries id)).Perm (c.entries id)
  /-- The id is that of the request and the name that of the command, whatever the parameters are. -/
  identity : (Members.ofList (c.entries id)).get? "id" = some (.number (.int id)) ∧
    (Members.ofList (c.entries id)).get? "command" = some (.text c.name)
  /-- The other members of a command that is given by name are the parameters that it was given,
  without the two. -/
  others : ∀ name parameters, c = .raw (.of name parameters) →
    ((Members.ofList (c.entries id)).erase "id").erase "command" =
      (parameters.erase "id").erase "command"
  /-- Read as the command that it is of, it is that command. -/
  typed : ∀ typed, c.typed? = some typed → Command.decode typed text = .ok c
  /-- Read as an envelope, it is what the response with its id is, unless a parameter is taken for
  the type. -/
  routed : (∀ m ∈ c.values, m.1 ≠ "type") →
    ∃ e, Envelope.decode text = .ok e ∧ e.route = .response id

/-- **Requests come back as they were sent**, with the id and the name that they were given. -/
theorem requestRoundTrip {id : Nat} {c : Command} (hid : id < UInt64.size) (hc : c.Encodable) :
    ∃ text, RoundTrip id c text := by
  have hplain := plain_entries hid hc
  have hnodup := nodup_entries id hc
  have hperm := Members.ofList_perm hnodup
  have hkeys : ((Members.ofList (c.entries id)).map (·.1)).Nodup := (hperm.map _).nodup_iff.mpr hnodup
  have hget (key : String) (v : Value) (hm : (key, v) ∈ c.entries id) :
      (Members.ofList (c.entries id)).get? key = some v :=
    Members.get?_of_mem hkeys (hperm.mem_iff.mpr hm)
  refine ⟨String.ofList (Json.membersChars (Value.memberTexts (c.entries id))), ?_⟩
  exact {
    encoded := encode_eq hc
    object := by
      rw [String.toList_ofList]
      exact Json.holds_of_plain hplain
    members := Json.parse_of_written (Json.written_entries hplain)
    distinct := hnodup
    value := Json.parse_of_written
      (Json.written_object fun m hm => Json.written_value (hplain m hm))
    kept := hperm
    identity := ⟨hget _ _ List.mem_cons_self,
      hget _ _ (List.mem_cons_of_mem _ List.mem_cons_self)⟩
    others := by
      rintro name parameters rfl
      exact others_of_entries hc
    typed := fun typed => decode_of_entries hid
    routed := fun htype => ⟨_, envelope_of_entries hid hc htype, rfl⟩ }

/-- Parameters that would put another id and another name in place of those of the request. -/
def intruding : Members :=
  [("command", .text "stop"), ("id", .number (.int 9)), ("limit", .list [.number (.int (-1)), .null])]

theorem plain_intruding : (Value.object intruding).Plain Json.nestingLimit := by
  refine .object ?_ fun m hm => ?_
  · unfold Members.Sorted intruding
    decide
  · simp only [intruding, List.mem_cons, List.not_mem_nil, or_false] at hm
    rcases hm with rfl | rfl | rfl
    · exact .text _
    · exact .integer (by decide) (by decide)
    · refine .list fun v hv => ?_
      simp only [List.mem_cons, List.not_mem_nil, or_false] at hv
      rcases hv with rfl | rfl
      · exact .integer (by decide) (by decide)
      · exact .null

theorem requestRoundTrip_intruding :
    7 < UInt64.size ∧ (Command.raw (.of "account_tx" intruding)).Encodable ∧
      ∃ text, RoundTrip 7 (.raw (.of "account_tx" intruding)) text :=
  have hencodable : (Command.raw (.of "account_tx" intruding)).Encodable :=
    ⟨intruding, rfl, plain_intruding⟩
  ⟨by decide, hencodable, requestRoundTrip (by decide) hencodable⟩

example : (Command.raw (.of "account_tx" intruding)).encode 7 =
    .ok "\x7b\"id\":7,\"command\":\"account_tx\",\"limit\":[-1,null]\x7d" := rfl

end Command

end LedgerClient
