import LedgerClient.Proofs.Dispatcher.Refusal
import LedgerClient.Proofs.Hash
import LedgerClient.Proofs.Json.Legible
import LedgerClient.Proofs.Text.Words
import LedgerClient.Shell.Program

/-!
# Printed events are read back

An event is printed as a line of its own: a JSON object whose first member names its category, with
the members of its record behind. No record of an event declares that first member, so the kind of
the event is told by it, and the record is read back from the others.
-/

namespace LedgerClient

open Json (Codec Field Fields Integral Members Record Value)

/-! ## Lines -/

theorem Text.pieces_lines {lines : List (List Char)} (h : ∀ line ∈ lines, '\n' ∉ line) :
    pieces (· == '\n') (lines.flatMap (· ++ ['\n'])) = lines ++ [[]] := by
  induction lines with
  | nil => rfl
  | cons line lines ih =>
    obtain ⟨hline, hlines⟩ := List.forall_mem_cons.mp h
    have hplain : ∀ c ∈ line, (c == '\n') = false := by
      intro c hc
      exact beq_eq_false_iff_ne.mpr fun he => hline (he ▸ hc)
    rw [List.flatMap_cons, List.append_assoc, List.singleton_append,
      pieces_append hplain (by decide), ih hlines, List.cons_append]

namespace Stream

/-! ## The records of events -/

/-- A record that an event can be made of. -/
structure Payload {α : Type} {βs : List Type} (r : Record α βs) : Prop where
  sound : r.fields.Sound
  faithful : r.fields.Faithful
  legible : r.fields.Legible
  distinct : r.fields.Distinct
  /-- It has no field under the key of the tag. -/
  untagged : r.fields.declares "stream" = false
  row_make : ∀ row, r.row (r.make row) = row
  make_row : ∀ a, r.make (r.row a) = a

theorem payload_ledgerClosed : Payload LedgerClosed.record where
  sound := ⟨Json.sound_natural _ _, Json.sound_refined _, Json.sound_natural _ _,
    Json.sound_natural _ _, Json.sound_option (Json.sound_natural _ _), Json.sound_natural _ _,
    Json.sound_natural _ _, Json.sound_natural _ _, Json.sound_option Json.sound_text, trivial⟩
  faithful := ⟨Field.faithful_zero _ _ (by decide),
    Field.faithful_defaulted _ Hash.faithful_codec (Hash.written · .zero),
    Field.faithful_zero _ _ (by decide), Field.faithful_zero _ _ (by decide),
    Field.faithful_optional _ Json.faithful_nat64, Field.faithful_zero _ _ (by decide),
    Field.faithful_zero _ _ (by decide), Field.faithful_zero _ _ (by decide),
    Field.faithful_optional _ Json.faithful_text, trivial⟩
  legible := ⟨Field.legible_zero _ _ (by decide),
    Field.legible_defaulted _ (Json.legible_refined _ _) (Json.legible_textChars · _),
    Field.legible_zero _ _ (by decide), Field.legible_zero _ _ (by decide),
    Field.legible_optional _ Json.legible_nat64, Field.legible_zero _ _ (by decide),
    Field.legible_zero _ _ (by decide), Field.legible_zero _ _ (by decide),
    Field.legible_optional _ Json.legible_text, trivial⟩
  distinct := by decide
  untagged := by decide
  row_make _ := rfl
  make_row _ := rfl

theorem payload_transactionApplied : Payload TransactionApplied.record where
  sound := ⟨Json.sound_text, Json.sound_integer _ _ _, Json.sound_text,
    Json.sound_option (Json.sound_refined _), Json.sound_option (Json.sound_natural _ _),
    Json.sound_bool, Json.sound_value, Json.sound_option Json.sound_value, trivial⟩
  faithful := ⟨Field.faithful_required _ Json.faithful_text,
    Field.faithful_defaulted _ Json.faithful_int32 fun room =>
      Json.written_int32 room (by decide) (by decide),
    Field.faithful_defaulted _ Json.faithful_text (Json.written_text · ""),
    Field.faithful_optional _ Hash.faithful_codec, Field.faithful_optional _ Json.faithful_nat32,
    Field.faithful_defaulted _ Json.faithful_bool (Json.written_bool · false),
    Field.faithful_required _ Json.faithful_value, Field.faithful_optional _ Json.faithful_value,
    trivial⟩
  legible := ⟨Field.legible_required _ Json.legible_text,
    Field.legible_defaulted _ Json.legible_int32 fun room =>
      Json.legible_intChars room (i := 0) (by decide) (by decide),
    Field.legible_defaulted _ Json.legible_text (Json.legible_textChars · ""),
    Field.legible_optional _ (Json.legible_refined _ _),
    Field.legible_optional _ Json.legible_nat32,
    Field.legible_defaulted _ Json.legible_bool (Json.legible_boolChars · false),
    Field.legible_required _ Json.legible_value, Field.legible_optional _ Json.legible_value,
    trivial⟩
  distinct := by decide
  untagged := by decide
  row_make _ := rfl
  make_row _ := rfl

theorem payload_serverStatus : Payload ServerStatus.record where
  sound := ⟨Json.sound_text, Json.sound_natural _ _, Json.sound_natural _ _,
    Json.sound_option (Json.sound_natural _ _), Json.sound_option Json.sound_text, trivial⟩
  faithful := ⟨Field.faithful_required _ Json.faithful_text, Field.faithful_zero _ _ (by decide),
    Field.faithful_zero _ _ (by decide), Field.faithful_optional _ Json.faithful_nat64,
    Field.faithful_optional _ Json.faithful_text, trivial⟩
  legible := ⟨Field.legible_required _ Json.legible_text, Field.legible_zero _ _ (by decide),
    Field.legible_zero _ _ (by decide), Field.legible_optional _ Json.legible_nat64,
    Field.legible_optional _ Json.legible_text, trivial⟩
  distinct := by decide
  untagged := by decide
  row_make _ := rfl
  make_row _ := rfl

/-- The members of a written event behind its tag: plain values, none of them under its key. -/
def Untagged (texts : List (String × List Char)) : Prop :=
  ∃ ms, texts = Value.memberTexts ms ∧
    ∀ m ∈ ms, m.2.Plain (Json.nestingLimit - 1) ∧ m.1 ≠ "stream"

theorem Payload.decode_tagged {α : Type} {βs : List Type} {r : Record α βs} (p : Payload r)
    {frame : String} {a : α} (hi : Integral .outside frame.toList)
    (h : r.codec.decode frame = .ok a) (tag : String) :
    Untagged (r.texts a) ∧
      r.codec.decode (String.ofList
        (Json.membersChars (("stream", Json.textChars tag) :: r.texts a))) = .ok a := by
  have hyields := Record.yields_of_decode p.sound p.row_make hi h
  constructor
  · obtain ⟨ms, hms, hplain⟩ :=
      Json.exists_memberTexts (Fields.legible_of_yields p.legible hyields)
    refine ⟨ms, hms, fun m hm => ⟨hplain m hm, fun hkey => ?_⟩⟩
    have hmem : (m.1, m.2.chars) ∈ r.texts a := by
      rw [Record.texts, hms, Json.memberTexts_eq_map]
      exact List.mem_map.mpr ⟨m, hm, rfl⟩
    have hdeclares := Fields.declares_of_mem_texts hmem
    rw [hkey, p.untagged] at hdeclares
    exact absurd hdeclares (by decide)
  · have hkept := Fields.kept_of_yields p.faithful hyields
    have htag : ∀ m ∈ [("stream", Value.text tag)],
        m.2.Plain 0 ∧ r.fields.declares m.1 = false :=
      List.forall_mem_singleton.mpr ⟨.text tag, p.untagged⟩
    have hdecode := Record.decode_texts p.distinct hkept htag
    rwa [p.make_row] at hdecode

/-! ## Events -/

namespace Event

/-- An event comes off a frame whose numbers are integers. -/
def Arrives (e : Event) : Prop :=
  ∃ kind frame, Integral .outside frame.toList ∧ decode kind frame = .ok e

/-- A line is an object whose member `stream` names the kind of an event, and read as that kind it
is the event. -/
def Tells (e : Event) (line : String) : Prop :=
  ∃ v tag, Codec.value.decode line = .ok v ∧ v.get? "stream" = some (.text tag) ∧
    Kind.ofType? tag = some e.kind ∧ decode e.kind line = .ok e

variable {e : Event}

theorem decode_of_arrives (h : e.Arrives) : Untagged e.texts ∧ decode e.kind e.text = .ok e := by
  obtain ⟨kind, frame, hi, h⟩ := h
  cases kind with
  | ledger =>
    obtain ⟨l, hl, rfl⟩ := Json.ok_of_map (ok_of_ofJson h)
    obtain ⟨htexts, hdecode⟩ := payload_ledgerClosed.decode_tagged hi hl "ledger"
    refine ⟨htexts, ?_⟩
    rw [kind, decode, text, texts, tag, hdecode]
    rfl
  | transaction =>
    obtain ⟨t, ht, rfl⟩ := Json.ok_of_map (ok_of_ofJson h)
    obtain ⟨htexts, hdecode⟩ := payload_transactionApplied.decode_tagged hi ht "transaction"
    refine ⟨htexts, ?_⟩
    rw [kind, decode, text, texts, tag, hdecode]
    rfl
  | server =>
    obtain ⟨s, hs, rfl⟩ := Json.ok_of_map (ok_of_ofJson h)
    obtain ⟨htexts, hdecode⟩ := payload_serverStatus.decode_tagged hi hs "server"
    refine ⟨htexts, ?_⟩
    rw [kind, decode, text, texts, tag, hdecode]
    rfl

theorem ofType?_tag (e : Event) : Kind.ofType? e.tag = some e.kind := by cases e <;> rfl

theorem newline_not_mem_text (h : Untagged e.texts) : '\n' ∉ e.text.toList := by
  obtain ⟨ms, hms, hplain⟩ := h
  rw [text, String.toList_ofList, hms, Json.memberTexts_eq_map]
  refine Json.newline_not_mem_membersChars (List.forall_mem_cons.mpr
    ⟨Json.newline_not_mem_textChars e.tag, fun t ht => ?_⟩)
  obtain ⟨m, hm, rfl⟩ := List.mem_map.mp ht
  exact Json.newline_not_mem_chars (hplain m hm).1

theorem tells_text (h : e.Arrives) : e.Tells e.text := by
  obtain ⟨⟨ms, hms, hplain⟩, hdecode⟩ := decode_of_arrives h
  have hvalues : ∀ m ∈ ("stream", Value.text e.tag) :: ms, m.2.Plain (Json.nestingLimit - 1) :=
    List.forall_mem_cons.mpr ⟨.text e.tag, fun m hm => (hplain m hm).1⟩
  have hobject := Json.parse_of_written
    (Json.written_object fun m hm => Json.written_value (hvalues m hm))
  have htexts : ("stream", Json.textChars e.tag) :: e.texts =
      Value.memberTexts (("stream", Value.text e.tag) :: ms) := by
    rw [hms]
    rfl
  have htag := Members.get?_ofList_cons (.text e.tag) fun m hm => (hplain m hm).2
  refine ⟨.object (Members.ofList (("stream", .text e.tag) :: ms)), e.tag, ?_, htag, ofType?_tag e,
    hdecode⟩
  rw [text, htexts]
  exact hobject

/-- The output holds the events line by line. -/
structure LineByLine (events : List Event) (output : String) : Prop where
  /-- Each event stands on one line, and nothing behind the last one. -/
  lines : Text.pieces (· == '\n') output.toList = events.map (·.text.toList) ++ [[]]
  tells : ∀ e ∈ events, e.Tells e.text

/-- **Printed events are read back** line by line. -/
theorem lineByLine {events : List Event} (h : ∀ e ∈ events, e.Arrives) :
    LineByLine events (Shell.eventLines events) where
  lines := by
    have hlines : ∀ line ∈ events.map (·.text.toList), '\n' ∉ line := by
      intro line hline
      obtain ⟨e, he, rfl⟩ := List.mem_map.mp hline
      exact newline_not_mem_text (decode_of_arrives (h e he)).1
    have houtput : (Shell.eventLines events).toList =
        (events.map (·.text.toList)).flatMap (· ++ ['\n']) := by
      simp [Shell.eventLines, String.toList_join, List.flatMap_map]
    rw [houtput, Text.pieces_lines hlines]
  tells e he := tells_text (h e he)

/-- A transaction with a line break in it, and a member that has the key of the tag. -/
def applied : String :=
  "\x7b\"stream\":\"server\",\"engine_result\":\"tesSUCCESS\",\"ledger_index\":3," ++
    "\"transaction\":\x7b\"memo\":\"a\\nb\"\x7d\x7d"

/-- A server status as the list of its values. -/
def listed : String := " [\"full\", 256]"

/-- The events of both. -/
def shown : List Event :=
  [.transaction ⟨"tesSUCCESS", 0, "", none, some 3, false, .object [("memo", .text "a\nb")], none⟩,
    .server ⟨"full", 256, 0, none, none⟩]

/-- A transaction and a server status are printed on two lines and read back. -/
theorem lineByLine_of_shown :
    (∀ e ∈ shown, e.Arrives) ∧ LineByLine shown (Shell.eventLines shown) ∧ shown.length = 2 := by
  have hall : ∀ e ∈ shown, e.Arrives := by
    have happlied : Integral .outside applied.toList := by
      unfold Integral
      decide
    have hlisted : Integral .outside listed.toList := by
      unfold Integral
      decide
    refine List.forall_mem_cons.mpr ⟨⟨.transaction, applied, happlied, rfl⟩, ?_⟩
    exact List.forall_mem_singleton.mpr ⟨.server, listed, hlisted, rfl⟩
  exact ⟨hall, lineByLine hall, rfl⟩

end Event

end Stream

end LedgerClient
