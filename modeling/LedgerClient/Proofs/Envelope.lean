import LedgerClient.Envelope
import LedgerClient.Proofs.Json.Reordering

/-!
# Where a frame goes is told by its type and its id

Of the members of a frame an envelope reads those under the keys `type` and `id`, in whatever order
they stand and however the keys are written. Any other member is passed over as long as it is JSON:
it does not matter how deep its value is nested, how large its numbers are or what keys stand in it.
-/

namespace LedgerClient.Envelope

open Json (Denotes Fields Holds MemberLayout ObjectLayout Record)

theorem local_fields : record.fields.Local :=
  ⟨Json.local_text, Json.local_option (Json.local_natural _ _), trivial⟩

theorem declares_eq_false {key : String} (htype : key ≠ "type") (hid : key ≠ "id") :
    record.fields.declares key = false := by
  simp [record, Fields.declares, Json.Field.defaulted, Json.Field.optional, htype.symm, hid.symm]

/-- Two frames are the same envelope or none at all, and go to the same place or nowhere. -/
structure RoutedLike (frame frame' : String) : Prop where
  envelope : ∀ e, decode frame = .ok e ↔ decode frame' = .ok e
  route : ∀ route, (∃ e, decode frame = .ok e ∧ e.route = route) ↔
    ∃ e, decode frame' = .ok e ∧ e.route = route

theorem decode_eq_ok_iff {frame : String} {e : Envelope} :
    decode frame = .ok e ↔ record.codec.decode frame = .ok e := by
  rw [decode, ProtocolError.ofJson]
  cases record.codec.decode frame <;> simp [Except.mapError]

theorem routedLike_of_toOption {frame frame' : String}
    (h : (record.codec.decode frame).toOption = (record.codec.decode frame').toOption) :
    RoutedLike frame frame' := by
  have henvelope (e : Envelope) : decode frame = .ok e ↔ decode frame' = .ok e := by
    rw [decode_eq_ok_iff, decode_eq_ok_iff, ← Json.toOption_eq_some, h, Json.toOption_eq_some]
  exact ⟨henvelope, fun _ => exists_congr fun e => and_congr_left' (henvelope e)⟩

/-- What of a frame matters for where it goes. -/
structure ToldByTypeAndId (frame : String) : Prop where
  /-- It is an object with certain members. -/
  laidOut : ∃ o : ObjectLayout, o.text = frame
  /-- With another member anywhere among them it is routed alike, if the key of that stands for
  neither `type` nor `id`. -/
  extended : ∀ (o : ObjectLayout) (m : MemberLayout) (key : List Char) (i : Nat),
    o.text = frame → Denotes m.key key [] → String.ofList key ≠ "type" → String.ofList key ≠ "id" →
    i ≤ o.members.length → RoutedLike (o.insert i m).text frame
  /-- With its members in another order it is routed alike, whatever blanks stand around them. -/
  reordered : ∀ o o' : ObjectLayout, o.text = frame → o.members.Perm o'.members →
    RoutedLike o'.text frame

/-- **Where a frame goes is told by its type and its id.** -/
theorem toldByTypeAndId {frame : String} (h : Holds .object frame.toList) :
    ToldByTypeAndId frame where
  laidOut := Json.holds_iff.mp h
  extended := by
    rintro o m key i rfl hm htype hid hi
    exact routedLike_of_toOption
      (Record.decode_of_insert local_fields o hm (declares_eq_false htype hid) hi)
  reordered := by
    rintro o o' rfl hperm
    exact routedLike_of_toOption (Record.decode_of_perm local_fields hperm).symm

/-- The answer to a command. -/
def pong : ObjectLayout where
  before := []
  members := [.compact "id\"" "7" rfl rfl, .compact "type\"" "\"response\"" rfl rfl]
  inner := []
  behind := []
  blank_before := Json.blank_nil
  blank_inner := Json.blank_nil
  blank_behind := Json.blank_nil

/-- A member with a number that no double holds, under the key of another id. -/
def stray : MemberLayout := .compact "i\\u0064s\"" " [\x7b\"id\":1e999\x7d]" rfl rfl

/-- The answer is told by its members `type` and `id`, and stays the same with a stray one. -/
theorem toldByTypeAndId_of_pong :
    Holds .object pong.text.toList ∧ ToldByTypeAndId pong.text ∧
      (pong.insert 1 stray).text =
        "\x7b\"id\":7,\"i\\u0064s\": [\x7b\"id\":1e999\x7d],\"type\":\"response\"\x7d" ∧
      RoutedLike (pong.insert 1 stray).text pong.text :=
  have hpong : Holds .object pong.text.toList := Json.holds_iff.mpr ⟨pong, rfl⟩
  have hstray : Denotes stray.key "ids".toList [] := Json.readText_eq_ok_iff.mp rfl
  ⟨hpong, toldByTypeAndId hpong, rfl, (toldByTypeAndId hpong).extended pong stray "ids".toList 1 rfl
    hstray (by decide) (by decide) (by decide)⟩

end LedgerClient.Envelope
