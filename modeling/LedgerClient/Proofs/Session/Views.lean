import LedgerClient.Proofs.Json.Alongside
import LedgerClient.Proofs.Session.Answer

/-!
# The two views of a frame

A frame is looked at twice: as an envelope, which decides where it goes, and as a response in the
shape that the command asked for. The envelope passes over what the response builds. Both go along
the same members of an object, so an object that is a response is an envelope with the same id and
type; and a list is never both. This is shown for a result of any type whose reader is sound, and
the shapes of the commands are such types.
-/

namespace LedgerClient

open Json (Codec Ended Field Fields Holds Record Row Slots Sound dropSpace)

/-! ## The results of commands -/

namespace Outcome

theorem sound_lift {α : Type} (wrap : α → Outcome) {read : Json.Reader α} (h : Sound read) :
    Sound (lift wrap read) := by
  intro room cs o rest ho
  simp only [lift] at ho
  split at ho
  · simp at ho
  · rename_i hread
    obtain ⟨-, rfl⟩ := Prod.mk.inj (Except.ok.inj ho)
    exact h hread

theorem sound_transaction : TransactionResult.record.fields.Sound :=
  ⟨Json.sound_refined _, Json.sound_option (Json.sound_natural _ _), Json.sound_bool,
    Json.sound_option Json.sound_text, Json.sound_option Json.sound_text,
    Json.sound_option Json.sound_value, trivial⟩

theorem sound_submission : SubmissionResult.record.fields.Sound :=
  ⟨Json.sound_text, Json.sound_integer _ _ _, Json.sound_text, Json.sound_text, Json.sound_value,
    Json.sound_option Json.sound_bool, Json.sound_option Json.sound_bool,
    Json.sound_option Json.sound_bool, Json.sound_option Json.sound_bool,
    Json.sound_option Json.sound_bool, trivial⟩

theorem sound_subscription : SubscriptionResult.record.fields.Sound :=
  ⟨Json.sound_option (Json.sound_natural _ _), Json.sound_option (Json.sound_refined _),
    Json.sound_option (Json.sound_natural _ _), Json.sound_option (Json.sound_natural _ _),
    Json.sound_option (Json.sound_natural _ _), Json.sound_option (Json.sound_natural _ _),
    Json.sound_option Json.sound_text, trivial⟩

theorem sound_serverInfo : ServerInfoResult.record.fields.Sound := ⟨Json.sound_value, trivial⟩

theorem sound_read (shape : Shape) : Sound (Outcome.codec shape).read := by
  cases shape with
  | transaction => exact sound_lift _ (Json.OpenRecord.sound_read sound_transaction)
  | submission => exact sound_lift _ (Record.sound_read sound_submission)
  | subscription => exact sound_lift _ (Json.OpenRecord.sound_read sound_subscription)
  | serverInfo => exact sound_lift _ (Record.sound_read sound_serverInfo)
  | members => exact sound_lift _ Json.sound_members
  | untyped => exact sound_lift _ Json.sound_value

end Outcome

/-! ## Responses with a result of any type -/

namespace Response

variable {ρ : Type} {result : Codec ρ}

/-- The fields of a response, given how its result is read and written. -/
def fieldsWith (result : Codec ρ) :
    Fields [Nat, Status, String, Option ρ, Option String, Option Int, Option String] :=
  .cons (.required "id" .nat64) <|
  .cons (.required "status" Status.codec) <|
  .cons (.omitting "type" .text "" String.isEmpty) <|
  .cons (.optionalInObject "result" result) <|
  .cons (.optional "error" .text) <|
  .cons (.optional "error_code" .int32) <|
  .cons (.optional "error_message" .text) .nil

theorem fields_record (shape : Shape) :
    (record shape).fields = fieldsWith (Outcome.codec shape) := rfl

theorem sound_fieldsWith (h : Sound result.read) : (fieldsWith result).Sound :=
  ⟨Json.sound_natural _ _, Json.sound_choice _, Json.sound_text, Json.sound_option h,
    Json.sound_option Json.sound_text, Json.sound_option (Json.sound_integer _ _ _),
    Json.sound_option Json.sound_text, trivial⟩

/-- An envelope has come to the same id and type as a response. -/
def Seen (s : Slots [Nat, Status, String, Option ρ, Option String, Option Int, Option String])
    (t : Slots [String, Option Nat]) : Prop :=
  t = (s.2.2.1, s.1.map some, ())

variable {α : Type}
  {r : Record α [Nat, Status, String, Option ρ, Option String, Option Int, Option String]}
  {room : Nat} {key : String} {cs rest : List Char}
  {s s' : Slots [Nat, Status, String, Option ρ, Option String, Option Int, Option String]}
  {t : Slots [String, Option Nat]}

theorem undeclared_of_ne (hid : "id" ≠ key) (htype : "type" ≠ key) :
    Envelope.record.fields.declares key = false := by
  simp [Envelope.record, Fields.declares, Field.defaulted, Field.optional, hid, htype]

theorem slots_of_ne (hf : r.fields = fieldsWith result) (hid : "id" ≠ key) (htype : "type" ≠ key)
    (h : r.member room key s cs = .ok (s', rest)) : s'.1 = s.1 ∧ s'.2.2.1 = s.2.2.1 := by
  by_cases hk : r.fields.declares key = true
  · rw [Record.member_of_declared hk, hf] at h
    obtain ⟨id, status, type, more⟩ := s
    obtain ⟨hfirst, hothers⟩ := Fields.slots_of_other hid h
    refine ⟨hfirst, ?_⟩
    by_cases hstatus : "status" = key
    · obtain ⟨-, b, hslots, -⟩ := Fields.slots_of_named (.required "status" Status.codec) hstatus hothers
      rw [hslots]
    · obtain ⟨-, hothers⟩ := Fields.slots_of_other hstatus hothers
      exact (Fields.slots_of_other htype hothers).1
  · rw [Record.slots_of_undeclared (Bool.eq_false_iff.mpr hk) h]
    exact ⟨rfl, rfl⟩

theorem id_alongside (hf : r.fields = fieldsWith result)
    (h : r.member room "id" s cs = .ok (s', rest)) (hseen : Seen s t) :
    ∃ t', Envelope.record.member room "id" t cs = .ok (t', rest) ∧ Seen s' t' := by
  obtain rfl : t = (s.2.2.1, s.1.map some, ()) := hseen
  rw [Record.member_of_declared (by rw [hf]; rfl), hf] at h
  obtain ⟨id, slots⟩ := s
  obtain ⟨rfl, n, rfl, hread⟩ := Fields.slots_of_named (.required "id" .nat64) rfl h
  have hoption : Json.afterColon (Codec.nat64.read.option room) cs = .ok (some n, rest) :=
    Json.afterColon_alongside Json.option_of_natural hread
  refine ⟨(slots.2.1, some (some n), ()), ?_, rfl⟩
  have hname : "type" ≠ "id" := by decide
  exact (Record.member_of_declared rfl).trans
    (Fields.readMember_other hname (Fields.readMember_named (.optional "id" .nat64) rfl hoption))

theorem type_alongside (hf : r.fields = fieldsWith result)
    (h : r.member room "type" s cs = .ok (s', rest)) (hseen : Seen s t) :
    ∃ t', Envelope.record.member room "type" t cs = .ok (t', rest) ∧ Seen s' t' := by
  obtain rfl : t = (s.2.2.1, s.1.map some, ()) := hseen
  rw [Record.member_of_declared (by rw [hf]; rfl), hf] at h
  obtain ⟨id, status, type, slots⟩ := s
  obtain ⟨hid, hothers⟩ := Fields.slots_of_other (by decide) h
  obtain ⟨-, hothers⟩ := Fields.slots_of_other (by decide) hothers
  obtain ⟨rfl, name, hslots, hread⟩ :=
    Fields.slots_of_named (.omitting "type" .text "" String.isEmpty) rfl hothers
  refine ⟨(some name, id.map some, ()), ?_, ?_⟩
  · exact (Record.member_of_declared rfl).trans (Fields.readMember_named (.defaulted "type" .text "") rfl hread)
  · unfold Seen
    rw [hid, hslots]
    rfl

theorem member_alongside (hf : r.fields = fieldsWith result) (hs : Sound result.read)
    (h : r.member room key s cs = .ok (s', rest)) (hr : Ended rest) (hseen : Seen s t) :
    ∃ t', Envelope.record.member room key t cs = .ok (t', rest) ∧ Seen s' t' := by
  by_cases hid : "id" = key
  · subst hid
    exact id_alongside hf h hseen
  · by_cases htype : "type" = key
    · subst htype
      exact type_alongside hf h hseen
    · -- whatever the response makes of the value, the envelope passes over it
      obtain rfl : t = (s.2.2.1, s.1.map some, ()) := hseen
      obtain ⟨hfirst, hthird⟩ := slots_of_ne hf hid htype h
      have ha := Record.assigned_of_member (hf ▸ sound_fieldsWith hs) h
      refine ⟨_, Record.member_of_undeclared (undeclared_of_ne hid htype) ha hr, ?_⟩
      unfold Seen
      rw [hfirst, hthird]

theorem complete_alongside
    {row : Row [Nat, Status, String, Option ρ, Option String, Option Int, Option String]}
    (h : (fieldsWith result).complete s = .ok row) (hseen : Seen s t) :
    Envelope.record.fields.complete t = .ok (row.2.2.1, some row.1, ()) := by
  obtain rfl : t = (s.2.2.1, s.1.map some, ()) := hseen
  obtain ⟨id, status, type, slots⟩ := s
  obtain ⟨hid, hothers⟩ := Fields.complete_cases h
  obtain ⟨-, hothers⟩ := Fields.complete_cases hothers
  obtain ⟨htype, -⟩ := Fields.complete_cases hothers
  have hid : (id.map some <|> some none) = some (some row.1) := by
    -- the id of a response is not missing
    cases id with
    | none => simp [Field.required] at hid
    | some n =>
      obtain rfl : n = row.1 := Option.some.inj hid
      rfl
  exact Fields.complete_cons (.defaulted "type" .text "") htype
    (Fields.complete_cons (.optional "id" .nat64) hid rfl)

theorem envelope_of_object {frame : String} {contents : List Char} {a : α}
    (hf : r.fields = fieldsWith result) (hs : Sound result.read)
    (ho : dropSpace frame.toList = '\x7b' :: contents) (h : r.codec.decode frame = .ok a) :
    ∃ row, a = r.make row ∧ Envelope.decode frame = .ok ⟨row.2.2.1, some row.1⟩ := by
  obtain ⟨rest, hread, hrest⟩ := (Record.decode_object_iff ho).mp h
  obtain ⟨s, behind, hmembers, hfinish, hclose⟩ := Json.ok_of_objectBody hread
  obtain ⟨row, hrow, rfl⟩ := Json.ok_of_map hfinish
  have hstart : Seen r.fields.empty Envelope.record.fields.empty := by
    rw [hf]
    rfl
  obtain ⟨t, ht, hseen⟩ := Json.readMembers_alongside hmembers hclose
    (Record.assigned_of_member (hf ▸ sound_fieldsWith hs)) (member_alongside hf hs) hstart
  have hcomplete := complete_alongside (hf ▸ hrow) hseen
  refine ⟨row, rfl, ?_⟩
  have hdecode : Envelope.record.codec.decode frame = .ok ⟨row.2.2.1, some row.1⟩ := by
    refine (Record.decode_object_iff ho).mpr ⟨rest, Json.objectBody_of_ok ht ?_ hclose, hrest⟩
    rw [hcomplete]
    rfl
  rw [Envelope.decode, hdecode]
  rfl

theorem row_of_envelope {frame : String} {e : Envelope} {a : α} (hf : r.fields = fieldsWith result)
    (hs : Sound result.read) (he : Envelope.decode frame = .ok e) (hid : e.id ≠ none)
    (h : r.codec.decode frame = .ok a) :
    ∃ row, a = r.make row ∧ e = ⟨row.2.2.1, some row.1⟩ := by
  rcases Envelope.holds_of_decode he with ⟨contents, -, ho, -⟩ | ⟨contents, -, hl, -⟩
  · obtain ⟨row, ha, henvelope⟩ := envelope_of_object hf hs ho h
    exact ⟨row, ha, Except.ok.inj (he.symm.trans henvelope)⟩
  · rcases Envelope.listed_of_decode he hl with rfl | ⟨item, after, hlisted⟩
    · exact absurd rfl hid
    · -- a list that begins with a type is no response
      exact absurd h (hlisted.not_decode_of_numeric hl hf (Json.numeric_natural _ _))

/-- Responses with a result of any type, each as the row of its values. -/
def rowsWith (result : Codec ρ) :
    Record (Row [Nat, Status, String, Option ρ, Option String, Option Int, Option String])
      [Nat, Status, String, Option ρ, Option String, Option Int, Option String] where
  name := "Response"
  fields := fieldsWith result
  make := fun row => row
  row := fun row => row

variable {frame : String} {shape : Shape} {response : Response}

theorem envelope_of_decode (ho : Holds .object frame.toList)
    (h : decode shape frame = .ok response) :
    Envelope.decode frame = .ok ⟨response.type, some response.id⟩ := by
  obtain ⟨contents, -, hcs, -⟩ := ho
  obtain ⟨row, rfl, he⟩ :=
    envelope_of_object (fields_record shape) (Outcome.sound_read shape) hcs (ok_of_ofJson h)
  exact he

theorem eq_of_envelope {e : Envelope} (he : Envelope.decode frame = .ok e) (hid : e.id ≠ none)
    (h : decode shape frame = .ok response) : e = ⟨response.type, some response.id⟩ := by
  obtain ⟨row, rfl, rfl⟩ :=
    row_of_envelope (fields_record shape) (Outcome.sound_read shape) he hid (ok_of_ofJson h)
  rfl

end Response

/-! ## What becomes of a response -/

theorem Envelope.id_of_route {e : Envelope} {id : Nat} (h : e.route = .response id) :
    e.id = some id := by
  unfold Envelope.route at h
  split at h
  · simp at h
  · split at h
    · rename_i hid
      rw [hid, Route.response.inj h]
    · simp at h

theorem Dispatcher.handleFrame_of_response {frame : String} {shape : Shape} {r : Response}
    {d : Dispatcher} {p : Pending} (ho : Holds .object frame.toList)
    (h : Response.decode shape frame = .ok r) (ht : Stream.Kind.ofType? r.type = none)
    (hp : d.table.find? r.id = some p) (hs : p.shape = shape) :
    d.handleFrame frame =
      { d with
        table := d.table.erase r.id
        replies := d.replies ++ [(p.ticket, .told (.ok r))] } := by
  have he := Response.envelope_of_decode ho h
  have hroute : (Envelope.mk r.type (some r.id)).route = .response r.id := by
    simp only [Envelope.route, ht]
  subst hs
  simp only [handleFrame, he, hroute, hp, complete, h]
  rfl

namespace Session

/-- How the two views of a frame agree. -/
structure ViewsAgree (settings : Connection.Settings) (moments : List Moment) : Prop where
  /-- A frame that goes where the response to a command goes, and is read as a response, has the id
  of that command and the type of the envelope. -/
  response : ∀ frame e id shape r, Envelope.decode frame = .ok e → e.route = .response id →
    Response.decode shape frame = .ok r → r.id = id ∧ r.type = e.type
  /-- An object that is read as a response is read as an envelope, with the same id and type. -/
  envelope : ∀ frame shape r, Holds .object frame.toList → Response.decode shape frame = .ok r →
    Envelope.decode frame = .ok ⟨r.type, some r.id⟩
  /-- Both are so whatever type the result has, as long as it is read off a value. -/
  anyResult : ∀ (ρ : Type) (result : Codec ρ), Json.Sound result.read → ∀ frame row,
    (Response.rowsWith result).codec.decode frame = .ok row →
      (∀ e id, Envelope.decode frame = .ok e → e.route = .response id →
        row.1 = id ∧ row.2.2.1 = e.type) ∧
      (Holds .object frame.toList → Envelope.decode frame = .ok ⟨row.2.2.1, some row.1⟩)
  /-- So no response is lost: the caller of the command is told it, unless its type is that of an
  event. -/
  settled : ∀ frame shape r, Holds .object frame.toList → Response.decode shape frame = .ok r →
    Stream.Kind.ofType? r.type = none → ∀ (d : Dispatcher) p, d.table.find? r.id = some p →
      p.shape = shape → d.handleFrame frame =
        { d with
          table := d.table.erase r.id
          replies := d.replies ++ [(p.ticket, .told (.ok r))] }
  /-- What the caller that waits under an id is told carries that id. -/
  told : ∀ id r, (id, .told (.ok r)) ∈ ((start settings).run moments).dispatcher.replies → r.id = id
  /-- So does what its call returns. -/
  returned : ∀ x ∈ ((start settings).run moments).exchanges, ∀ r, x.stage = .returned (.ok r) →
    r.id = x.id

theorem id_of_answer {frame : String} {id : Nat} {shape : Shape} {r : Response}
    (ha : answeredId? frame = some id) (h : Response.decode shape frame = .ok r) : r.id = id := by
  obtain ⟨e, he, hroute⟩ := Dispatcher.answeredId?_eq_some ha
  have hid := Envelope.id_of_route hroute
  have hsame := Response.eq_of_envelope he (by simp [hid]) h
  rw [hsame] at hid
  exact Option.some.inj hid

/-- **The two views of a frame agree**, so a response is told to the caller that waits under its id
and to no other, and none is lost because it is no envelope. -/
theorem viewsAgree (settings : Connection.Settings) (moments : List Moment) :
    ViewsAgree settings moments where
  response frame e id shape r he hroute h := by
    have hid := Envelope.id_of_route hroute
    obtain rfl := Response.eq_of_envelope he (by simp [hid]) h
    exact ⟨Option.some.inj hid, rfl⟩
  envelope frame shape r := Response.envelope_of_decode
  anyResult ρ result hs frame row h := by
    refine ⟨fun e id he hroute => ?_, fun ⟨contents, _, hcs, _⟩ => ?_⟩
    · have hid := Envelope.id_of_route hroute
      obtain ⟨_, rfl, rfl⟩ := Response.row_of_envelope rfl hs he (by simp [hid]) h
      exact ⟨Option.some.inj hid, rfl⟩
    · obtain ⟨_, rfl, he⟩ := Response.envelope_of_object rfl hs hcs h
      exact he
  settled frame shape r ho h ht d p := Dispatcher.handleFrame_of_response ho h ht
  told id r h := by
    obtain ⟨frame, -, ha, shape, hd⟩ := answer_of_reply settings moments h
    exact id_of_answer ha hd
  returned x hx r hr := by
    obtain ⟨frame, -, ha, shape, hd⟩ := answer_of_returned settings moments hx hr
    exact id_of_answer ha hd

-- The key of the id is escaped, and the envelope passes over a result that the response builds.
example :
    let frame := "\x7b\"result\":[\x7b\"id\":1\x7d],\"\\u0069d\":7,\"status\":\"success\"\x7d"
    Envelope.decode frame = .ok ⟨"", some 7⟩ ∧
      (Response.decode .untyped frame).map (·.id) = .ok 7 :=
  ⟨rfl, rfl⟩

end Session

end LedgerClient
