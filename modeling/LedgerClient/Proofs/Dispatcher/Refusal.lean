import LedgerClient.Proofs.Dispatcher.Delivery
import LedgerClient.Proofs.Json.Items

/-!
# Texts that are no objects

A frame is a JSON object, but nothing checks that as such: it is left to the records that a text is
read as. An envelope is read off objects and lists only, so any other text is discarded. A list that
is an envelope has at most two items, a type and an id. Its first item is a string where a response
and a closed ledger begin with a number, and it is too short for a transaction. So a list is
discarded as well, but for two kinds: by one that names a pending command the caller is told that the
response is malformed, and one whose type is that of a server status is taken for such an event.
-/

namespace LedgerClient

open Json (Codec Fields Holds Numeric Reader Record Row dropSpace nextItem)

theorem ok_of_ofJson {α : Type} {result : Except Json.Fault α} {a : α}
    (h : ProtocolError.ofJson result = .ok a) : result = .ok a := by
  cases result with
  | error fault => cases h
  | ok b => rw [Except.ok.inj h]

theorem fault_of_ofJson {α : Type} {result : Except Json.Fault α} {e : ProtocolError}
    (h : ProtocolError.ofJson result = .error e) : ∃ fault, e = .json fault := by
  cases result with
  | error fault => exact ⟨fault, (Except.error.inj h).symm⟩
  | ok a => cases h

/-! ## Lists as envelopes -/

namespace Envelope

variable {frame : String} {e : Envelope} {contents : List Char}

theorem sound : record.fields.Sound :=
  ⟨Json.sound_text, Json.sound_option (Json.sound_natural _ _), trivial⟩

theorem holds_of_decode (h : decode frame = .ok e) :
    Holds .object frame.toList ∨ Holds .list frame.toList :=
  Record.holds_of_decode sound (ok_of_ofJson h)

/-- How an envelope with a type is read off a list: the type is the first item, and the list ends
behind it or behind an id. -/
structure Listed (contents : List Char) (e : Envelope) (item after : List Char) : Prop where
  first : nextItem true contents = .ok (.part item)
  type : ∀ room, Reader.text room item = .ok (e.type, after)
  ending : (∃ rest, dropSpace after = ']' :: rest) ∨
    ∃ room id behind rest, nextItem false after = .ok (.part id) ∧
      Codec.nat64.read.option room id = .ok (e.id, behind) ∧ dropSpace behind = ']' :: rest

theorem listed_of_decode (h : decode frame = .ok e)
    (hl : dropSpace frame.toList = '[' :: contents) :
    e = ⟨"", none⟩ ∨ ∃ item after, Listed contents e item after := by
  obtain ⟨room, row, behind, rest, hi, hc, rfl⟩ := Record.items_of_decode (ok_of_ofJson h) hl
  rcases Fields.readItems_cases hi with ⟨item, after, hn, ht, hrest⟩ | ⟨after, hclosed, -⟩
  · right
    refine ⟨item, after, hn, fun _ => ht, ?_⟩
    rcases Fields.readItems_cases hrest with ⟨id, behind', hn', hid, hnil⟩ | ⟨end', hclosed, -⟩
    · obtain ⟨-, rfl⟩ := Prod.mk.inj (Except.ok.inj hnil)
      exact .inr ⟨room, id, behind', rest, hn', hid, hc⟩
    · exact .inl ⟨end', hclosed⟩
  · left
    have hrow := Fields.lackingRow?_of_closed hclosed hi
    obtain rfl := Option.some.inj hrow
    rfl

namespace Listed

variable {item after : List Char} {β : Type} {βs : List Type}

theorem not_decode_of_numeric {α : Type} {r : Record α (β :: βs)} {field : Json.Field β}
    {fields : Fields βs} {a : α} (hl : Listed contents e item after)
    (hcs : dropSpace frame.toList = '[' :: contents) (hr : r.fields = .cons field fields)
    (hf : Numeric field.read) : r.codec.decode frame ≠ .ok a := by
  refine Record.not_decode_of_first hr hcs hl.first fun {room b behind} h => ?_
  obtain ⟨_, _, _, i, hi⟩ := hf h
  exact Json.integer_ne_ok_of_text (hl.type room) hi

theorem row_of_items {field : Json.Field String} {number : Json.Field β} {fields : Fields βs}
    {expected : String} {room : Nat} {row : Row (String :: β :: βs)} {behind : List Char}
    (hl : Listed contents e item after) (ht : field.read = Reader.text) (hn : Numeric number.read)
    (h : (Fields.cons field (.cons number fields)).readItems room expected 0 contents =
      .ok (row, behind)) :
    row.1 = e.type ∧ fields.lackingRow? = some row.2.2 := by
  rcases Fields.readItems_cases h with ⟨item', after', hitem, htext, hrest⟩ | ⟨end', hclosed, -⟩
  · obtain rfl := Json.Next.part.inj (Except.ok.inj (hl.first.symm.trans hitem))
    rw [ht, hl.type, Except.ok.injEq, Prod.mk.injEq] at htext
    obtain ⟨htype, rfl⟩ := htext
    refine ⟨htype.symm, ?_⟩
    rcases Fields.readItems_cases hrest with
      ⟨id, behind', hid, hread, hrest⟩ | ⟨end', hclosed, -, hrest⟩
    · rcases hl.ending with ⟨rest, hclosed⟩ | ⟨_, id', after', rest, hid', hread', hclosed⟩
      · rw [Json.nextItem_of_closed hclosed] at hid
        cases hid
      · -- both read the same number, so both are at the end of the list
        obtain rfl := Json.Next.part.inj (Except.ok.inj (hid'.symm.trans hid))
        obtain ⟨_, _, _, i, hi⟩ := hn hread
        obtain ⟨-, rfl⟩ := Json.option_of_integer hi hread'
        exact Fields.lackingRow?_of_closed hclosed hrest
    · exact Fields.lackingRow?_of_closed (Json.dropSpace_cons hclosed) hrest
  · cases hl.first.symm.trans (Json.nextItem_of_closed hclosed)

end Listed

end Envelope

/-! ## What a list is not -/

variable {frame : String} {contents item after : List Char} {e : Envelope}

theorem Response.not_decode_of_listed {shape : Shape} {r : Response}
    (hl : e.Listed contents item after) (hcs : dropSpace frame.toList = '[' :: contents) :
    Response.decode shape frame ≠ .ok r := fun h =>
  hl.not_decode_of_numeric hcs rfl (Json.numeric_natural _ _) (ok_of_ofJson h)

namespace Stream

theorem LedgerClosed.not_decode_of_listed {l : LedgerClosed} (hl : e.Listed contents item after)
    (hcs : dropSpace frame.toList = '[' :: contents) :
    LedgerClosed.record.codec.decode frame ≠ .ok l :=
  hl.not_decode_of_numeric hcs rfl (Json.numeric_natural _ _)

theorem TransactionApplied.not_decode_of_listed {t : TransactionApplied}
    (hl : e.Listed contents item after) (hcs : dropSpace frame.toList = '[' :: contents) :
    TransactionApplied.record.codec.decode frame ≠ .ok t := by
  intro h
  obtain ⟨room, row, behind, rest, hi, -, -⟩ := Record.items_of_decode h hcs
  -- the transaction itself is lacking
  cases (hl.row_of_items rfl Json.numeric_int32 hi).2

theorem ServerStatus.of_listed {s : ServerStatus} (hl : e.Listed contents item after)
    (hcs : dropSpace frame.toList = '[' :: contents)
    (h : ServerStatus.record.codec.decode frame = .ok s) :
    s = ⟨e.type, s.loadBase, 0, none, none⟩ := by
  obtain ⟨room, row, behind, rest, hi, -, rfl⟩ := Record.items_of_decode h hcs
  obtain ⟨htype, hrow⟩ := hl.row_of_items rfl (Json.numeric_natural _ _) hi
  obtain ⟨type, load, row⟩ := row
  obtain rfl := Option.some.inj hrow
  obtain rfl : type = e.type := htype
  rfl

theorem Kind.type_of_server {type : String} (h : ofType? type = some .server) :
    type = "serverStatus" ∨ type = "server" := by
  obtain ⟨⟨name, kind⟩, hf, rfl⟩ := Option.map_eq_some_iff.mp h
  obtain rfl : name = type := by simpa using List.find?_some hf
  simpa [table] using List.mem_of_find?_eq_some hf

theorem event_of_listed {event : Event} (hl : e.Listed contents item after)
    (hcs : dropSpace frame.toList = '[' :: contents) {kind : Kind}
    (hk : Kind.ofType? e.type = some kind) (h : Event.decode kind frame = .ok event) :
    ∃ type load, (type = "serverStatus" ∨ type = "server") ∧
      event = .server ⟨type, load, 0, none, none⟩ := by
  replace h := ok_of_ofJson h
  cases kind with
  | ledger =>
    cases hd : LedgerClosed.record.codec.decode frame with
    | error fault => simp [hd, Except.map] at h
    | ok l => exact absurd hd (LedgerClosed.not_decode_of_listed hl hcs)
  | transaction =>
    cases hd : TransactionApplied.record.codec.decode frame with
    | error fault => simp [hd, Except.map] at h
    | ok t => exact absurd hd (TransactionApplied.not_decode_of_listed hl hcs)
  | server =>
    cases hd : ServerStatus.record.codec.decode frame with
    | error fault => simp [hd, Except.map] at h
    | ok s =>
      simp only [hd, Except.map, Except.ok.injEq] at h
      refine ⟨e.type, s.loadBase, Kind.type_of_server hk, ?_⟩
      rw [← h, ← ServerStatus.of_listed hl hcs hd]

end Stream

/-! ## Lists as frames -/

theorem Envelope.listed_of_holds (h : Envelope.decode frame = .ok e) (hl : Holds .list frame.toList)
    (hr : e.route ≠ .unrouted "") :
    ∃ contents item after, dropSpace frame.toList = '[' :: contents ∧
      e.Listed contents item after := by
  obtain ⟨contents, rest, hcs, -, -⟩ := hl
  rcases Envelope.listed_of_decode h hcs with rfl | ⟨item, after, hlisted⟩
  · exact absurd rfl hr
  · exact ⟨contents, item, after, hcs, hlisted⟩

theorem malformed_of_list {id : Nat} (hl : Holds .list frame.toList)
    (h : answeredId? frame = some id) (shape : Shape) :
    ∃ fault, Response.decode shape frame = .error (.json fault) := by
  obtain ⟨envelope, he, hr⟩ := Dispatcher.answeredId?_eq_some h
  obtain ⟨contents, item, after, hcs, hlisted⟩ :=
    Envelope.listed_of_holds he hl (by rw [hr]; exact Route.noConfusion)
  cases hd : Response.decode shape frame with
  | ok r => exact absurd hd (Response.not_decode_of_listed hlisted hcs)
  | error e =>
    obtain ⟨fault, rfl⟩ := fault_of_ofJson hd
    exact ⟨fault, rfl⟩

theorem event_of_list {event : Stream.Event} (hl : Holds .list frame.toList)
    (h : eventOf? frame = some event) :
    ∃ type load, (type = "serverStatus" ∨ type = "server") ∧
      event = .server ⟨type, load, 0, none, none⟩ := by
  obtain ⟨kind, hk, hd⟩ := Dispatcher.eventOf?_eq_some h
  obtain ⟨envelope, he, hr⟩ := Dispatcher.kindOf?_eq_some hk
  obtain ⟨contents, item, after, hcs, hlisted⟩ :=
    Envelope.listed_of_holds he hl (by rw [hr]; exact Route.noConfusion)
  refine Stream.event_of_listed hlisted hcs ?_ hd
  simpa only [kindOf?, he] using hk

theorem object_of_response {id : Nat} {shape : Shape} {r : Response}
    (h : answeredId? frame = some id) (hd : Response.decode shape frame = .ok r) :
    Holds .object frame.toList := by
  obtain ⟨envelope, he, -⟩ := Dispatcher.answeredId?_eq_some h
  refine (Envelope.holds_of_decode he).resolve_right fun hl => ?_
  obtain ⟨fault, hfault⟩ := malformed_of_list hl h shape
  rw [hd] at hfault
  cases hfault

namespace Dispatcher

/-- What becomes of a text that is no object. -/
structure Refusal (text : String) (d : Dispatcher) : Prop where
  /-- A text that is neither an object nor a list is discarded, and nothing else happens. -/
  garbage : ¬ Holds .object text.toList → ¬ Holds .list text.toList →
    ∃ fault, d.handleFrame text = d.discard (.json fault)
  /-- So is a list that names no pending command and is no event. -/
  list : Holds .list text.toList → eventOf? text = none →
    (∀ id, answeredId? text = some id → d.table.find? id = none) →
      ∃ e, d.handleFrame text = d.discard e
  /-- A list that names a pending command takes it out of the table, and its caller is told that the
  response is malformed. -/
  malformed : Holds .list text.toList → ∀ id p, answeredId? text = some id →
    d.table.find? id = some p →
      ∃ fault, d.handleFrame text =
        { d with
          table := d.table.erase id
          replies := d.replies ++ [(p.ticket,
            .told (.error (.malformedResponse id (ProtocolError.json fault).message)))]
          discarded := d.discarded ++ [.json fault] }
  /-- A list that is an event is a server status with nothing but its type and a load. -/
  status : Holds .list text.toList → ∀ event, eventOf? text = some event →
    (∃ type load, (type = "serverStatus" ∨ type = "server") ∧
      event = .server ⟨type, load, 0, none, none⟩) ∧ d.handleFrame text = d.deliver event

/-- **Texts that are neither objects nor lists are discarded**, and what a list does is bounded: no
caller is told a response by it, and no event comes from it but a server status. -/
theorem discardedUnlessContainer (text : String) (d : Dispatcher) : Refusal text d where
  garbage ho hl := by
    cases he : Envelope.decode text with
    | ok envelope =>
      rcases Envelope.holds_of_decode he with h | h
      · exact absurd h ho
      · exact absurd h hl
    | error e =>
      obtain ⟨fault, rfl⟩ := fault_of_ofJson he
      exact ⟨fault, by rw [handleFrame, he]⟩
  list _ he ha := by
    cases hid : answeredId? text with
    | none => exact handleFrame_of_none hid he d
    | some id => exact ⟨_, handleFrame_of_unknown hid (ha id hid)⟩
  malformed hl id p ha hp := by
    obtain ⟨envelope, he, hr⟩ := answeredId?_eq_some ha
    obtain ⟨fault, hd⟩ := malformed_of_list hl ha p.shape
    refine ⟨fault, ?_⟩
    simp only [handleFrame, he, hr, hp, complete, hd]
    rfl
  status hl event he := ⟨event_of_list hl he, handleFrame_of_event he d⟩

/-- Two lists that are heard although they are no objects: the one settles the command that is
pending, the other brings an event. -/
theorem heard_lists :
    let d := (start ⟨4, 4, 4, 4⟩).run [.input (.submit ⟨1, .ping, 7⟩), .move true, .move true]
    (¬ Holds .object "[\"response\",1]".toList ∧
      d.table.entries = [(1, ⟨"ping", .members, 7⟩)] ∧
      (d.handleFrame "[\"response\",1]").table.entries = [] ∧
      (d.handleFrame "[\"response\",1]").replies = [(7, .told (.error (.malformedResponse 1
        "JSON error: invalid type: string \"response\", expected u64 at line 1 column 11")))]) ∧
    ¬ Holds .object "[\"serverStatus\"]".toList ∧
      (d.handleFrame "[\"serverStatus\"]").phase =
        .delivering (.server ⟨"serverStatus", 0, 0, none, none⟩) :=
  ⟨⟨fun h => absurd h.bracket (by decide), rfl, rfl, rfl⟩,
    fun h => absurd h.bracket (by decide), rfl⟩

end Dispatcher

end LedgerClient
