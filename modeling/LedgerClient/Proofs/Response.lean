import LedgerClient.Proofs.Hash
import LedgerClient.Proofs.Json.FaithfulRecord
import LedgerClient.Proofs.Session.Views

/-!
# Responses are read back

Every result that a response can carry is read and written by a faithful codec, whatever its shape.
So a response that came off an integral frame is read back from its own text, and a response that is
made of such a result, or of an error, comes to just that when its text is read.
-/

namespace LedgerClient

open Json (Codec Field Fields Integral Record Written)

/-! ## The results of commands -/

namespace Outcome

theorem faithful_transaction : TransactionResult.record.fields.Faithful :=
  ⟨Field.faithful_required _ Hash.faithful_codec, Field.faithful_optional _ Json.faithful_nat32,
    Field.faithful_defaulted _ Json.faithful_bool (Json.written_bool · false),
    Field.faithful_optional _ Json.faithful_text, Field.faithful_optional _ Json.faithful_text,
    Field.faithful_optional _ Json.faithful_value, trivial⟩

theorem faithful_submission : SubmissionResult.record.fields.Faithful :=
  ⟨Field.faithful_required _ Json.faithful_text, Field.faithful_required _ Json.faithful_int32,
    Field.faithful_required _ Json.faithful_text,
    Field.faithful_defaulted _ Json.faithful_text (Json.written_text · ""),
    Field.faithful_defaulted _ Json.faithful_value fun _ => Json.written_value .null,
    Field.faithful_optional _ Json.faithful_bool, Field.faithful_optional _ Json.faithful_bool,
    Field.faithful_optional _ Json.faithful_bool, Field.faithful_optional _ Json.faithful_bool,
    Field.faithful_optional _ Json.faithful_bool, trivial⟩

theorem faithful_subscription : SubscriptionResult.record.fields.Faithful :=
  ⟨Field.faithful_optional _ Json.faithful_nat32, Field.faithful_optional _ Hash.faithful_codec,
    Field.faithful_optional _ Json.faithful_nat64, Field.faithful_optional _ Json.faithful_nat64,
    Field.faithful_optional _ Json.faithful_nat64, Field.faithful_optional _ Json.faithful_nat64,
    Field.faithful_optional _ Json.faithful_text, trivial⟩

theorem faithful_serverInfo : ServerInfoResult.record.fields.Faithful :=
  ⟨Field.faithful_required _ Json.faithful_value, trivial⟩

theorem written_lift {α : Type} {c : Codec α} {wrap : α → Outcome} {room : Nat} {a : α}
    (hw : (wrap a).chars = c.write a) (h : Written (c.read room) (c.write a) a) :
    Written (lift wrap c.read room) (wrap a).chars (wrap a) := by
  rw [hw]
  refine ⟨h.begins, fun rest hr => ?_⟩
  rw [lift, h.back rest hr]

theorem faithful_lift {α : Type} {c : Codec α} {wrap : α → Outcome} (hc : c.Faithful)
    (hw : ∀ a, (wrap a).chars = c.write a) : Codec.Faithful ⟨lift wrap c.read, chars⟩ where
  back {room cs rest o} hi h := by
    simp only [lift] at h
    split at h
    · simp at h
    · rename_i a behind hread
      obtain ⟨rfl, rfl⟩ := Prod.mk.inj (Except.ok.inj h)
      exact written_lift (hw a) (hc.back hi hread)
  present {room cs rest o} hi h hn := by
    simp only [lift] at h
    split at h
    · simp at h
    · rename_i a behind hread
      obtain ⟨rfl, rfl⟩ := Prod.mk.inj (Except.ok.inj h)
      show (wrap a).chars.head? ≠ some 'n'
      rw [hw]
      exact hc.present hi hread hn

theorem faithful_codec (shape : Shape) : (Outcome.codec shape).Faithful := by
  cases shape with
  | transaction =>
    exact faithful_lift (Json.OpenRecord.faithful_codec sound_transaction faithful_transaction
      (by decide) (fun _ _ => rfl) fun _ _ => rfl) fun _ => rfl
  | submission =>
    exact faithful_lift (Record.faithful_codec sound_submission faithful_submission
      (by decide) fun _ => rfl) fun _ => rfl
  | subscription =>
    exact faithful_lift (Json.OpenRecord.faithful_codec sound_subscription faithful_subscription
      (by decide) (fun _ _ => rfl) fun _ _ => rfl) fun _ => rfl
  | serverInfo =>
    exact faithful_lift (Record.faithful_codec sound_serverInfo faithful_serverInfo
      (by decide) fun _ => rfl) fun _ => rfl
  | members => exact faithful_lift Json.faithful_members fun _ => rfl
  | untyped => exact faithful_lift Json.faithful_value fun _ => rfl

end Outcome

/-! ## Responses -/

theorem Status.find?_name (s : Status) :
    [("success", Status.success), ("error", Status.error)].find? (·.1 == s.name) =
      some (s.name, s) := by
  cases s <;> rfl

namespace Response

variable {shape : Shape} {r : Response} {frame : String}

theorem faithful_fields (shape : Shape) : (record shape).fields.Faithful :=
  have hstatus : Status.codec.Faithful := Json.faithful_choice Status.find?_name
  have hempty (s : String) : s.isEmpty = true ↔ s = "" := String.isEmpty_iff
  ⟨Field.faithful_required _ Json.faithful_nat64, Field.faithful_required _ hstatus,
    Field.faithful_omitting _ Json.faithful_text hempty,
    Field.faithful_optionalInObject _ (Outcome.faithful_codec shape),
    Field.faithful_optional _ Json.faithful_text, Field.faithful_optional _ Json.faithful_int32,
    Field.faithful_optional _ Json.faithful_text, trivial⟩

theorem distinct_fields (shape : Shape) : (record shape).fields.Distinct := by
  cases shape <;> decide

theorem texts_eq (shape : Shape) (r : Response) :
    (record .untyped).texts r = (record shape).texts r := rfl

theorem decode_of_readAs {r' : Response}
    (h : (record shape).fields.ReadAs (Json.nestingLimit - 1) ((record shape).row r)
      ((record shape).row r')) : decode shape r.text = .ok r' := by
  have htext : r.text = String.ofList (Json.membersChars ((record shape).texts r)) :=
    congrArg (fun texts => String.ofList (Json.membersChars texts)) (texts_eq shape r)
  have hdecode := Json.parse_of_written (Record.written_alone_as (distinct_fields shape) h)
  rw [htext, decode]
  exact congrArg ProtocolError.ofJson hdecode

theorem decode_of_kept
    (h : (record shape).fields.Kept (Json.nestingLimit - 1) ((record shape).row r)) :
    decode shape r.text = .ok r :=
  decode_of_readAs h.readAs

theorem kept_of_decode (hi : Integral .outside frame.toList) (h : decode shape frame = .ok r) :
    (record shape).fields.Kept (Json.nestingLimit - 1) ((record shape).row r) := by
  have hsound : (record shape).fields.Sound := sound_fieldsWith (Outcome.sound_read shape)
  have hyields := Record.yields_of_decode hsound (fun _ => rfl) hi (ok_of_ofJson h)
  exact Fields.kept_of_yields (faithful_fields shape) hyields

theorem kept_id {id : Nat} (hid : id < UInt64.size) (room : Nat) :
    (Field.required "id" .nat64).Kept room id :=
  Field.kept_required _ (Json.written_natural room hid (Nat.le_refl _))

theorem kept_text (name : String) (text : Option String) (room : Nat) :
    (Field.optional name .text).Kept room text := by
  cases text with
  | none => exact rfl
  | some text => exact Json.written_option (Json.written_text room text) (Json.head?_textChars text)

theorem kept_code (name : String) {code : Option Int} (room : Nat)
    (h : ∀ i ∈ code, -2147483648 ≤ i ∧ i ≤ 2147483647) :
    (Field.optional name .int32).Kept room code := by
  cases code with
  | none => exact rfl
  | some i =>
    obtain ⟨hlow, hhigh⟩ := h i rfl
    exact Json.written_option (Json.written_int32 room hlow hhigh) (Json.head?_intChars i)

theorem kept_status (s : Status) (room : Nat) :
    (Field.required "status" Status.codec).Kept room s :=
  Field.kept_required _ (Json.written_choice room (Status.find?_name s))

theorem kept_type (name : String) (room : Nat) :
    (Field.omitting "type" .text "" String.isEmpty).Kept room name :=
  Field.kept_omitting _ String.isEmpty_iff.mp (Json.written_text room name)

/-- What is written of the responses to the commands of a shape is read back. -/
structure ReadBack (shape : Shape) : Prop where
  /-- A response that comes off an integral frame is what its own text is read as. -/
  response : ∀ {frame : String} {r : Response}, Integral .outside frame.toList →
    decode shape frame = .ok r → decode shape r.text = .ok r
  /-- The result that came with one, sent again under any id, is what comes of that. -/
  success : ∀ {frame : String} {r : Response} {v : Outcome}, Integral .outside frame.toList →
    decode shape frame = .ok r → r.result = some v → ∀ id < UInt64.size,
      (decode shape (Response.success id v).text >>= outcome) = .ok (.ok v)
  /-- An error, reported under any id, is what comes of that. -/
  failure : ∀ id < UInt64.size, ∀ e : RemoteError,
    (∀ code ∈ e.code, -2147483648 ≤ code ∧ code ≤ 2147483647) →
      (decode shape (Response.failure id e).text >>= outcome) = .ok (.error e)

/-- **Responses are read back**, with whatever they came. -/
theorem readBack (shape : Shape) : ReadBack shape where
  response hi h := decode_of_kept (kept_of_decode hi h)
  success {frame r v} hi h hv id hid := by
    obtain ⟨-, -, -, hresult, -⟩ := kept_of_decode hi h
    have hresult : (Field.optionalInObject "result" (Outcome.codec shape)).Kept
        (Json.nestingLimit - 1) (some v) := hv ▸ hresult
    have hkept : (record shape).fields.Kept (Json.nestingLimit - 1)
        ((record shape).row (Response.success id v)) :=
      ⟨kept_id hid _, kept_status .success _, kept_type "response" _, hresult, rfl, rfl, rfl,
        trivial⟩
    rw [decode_of_kept hkept]
    rfl
  failure id hid e he := by
    have hkept : (record shape).fields.Kept (Json.nestingLimit - 1)
        ((record shape).row (Response.failure id e)) :=
      ⟨kept_id hid _, kept_status .error _, kept_type "response" _, rfl,
        kept_text "error" (some e.token) _, kept_code "error_code" _ he,
        kept_text "error_message" e.details _, trivial⟩
    rw [decode_of_kept hkept]
    rfl

/-- The answer to a subscription, with members that have no field of their own. -/
def subscribed : String :=
  "\x7b\"status\":\"success\",\"id\":7,\"result\":" ++
    "\x7b\"note\":\"\\u000a\",\"ledger_index\":9,\"load\":[-3,null]\x7d\x7d"

/-- The ledger that the subscription begins with. -/
def subscription : SubscriptionResult where
  ledgerIndex := some 9
  ledgerHash := none
  ledgerTime := none
  feeBase := none
  reserveBase := none
  reserveInc := none
  validatedLedgers := none
  others := [("load", .list [.number (.int (-3)), .null]), ("note", .text "\n")]

/-- The answer is read back, and so are another one with its result and one with an error. -/
theorem readBack_of_subscribed :
    Integral .outside subscribed.toList ∧
      decode .subscription subscribed =
        .ok ⟨7, .success, "", some (.subscription subscription), none, none, none⟩ ∧
      (decode .subscription (Response.success 8 (.subscription subscription)).text >>= outcome) =
        .ok (.ok (.subscription subscription)) ∧
      (decode .subscription (Response.failure 8 ⟨"slowDown", some (-1), none⟩).text >>= outcome) =
        .ok (.error ⟨"slowDown", some (-1), none⟩) :=
  have hi : Integral .outside subscribed.toList := by
    unfold Integral
    decide
  have h : decode .subscription subscribed =
      .ok ⟨7, .success, "", some (.subscription subscription), none, none, none⟩ := rfl
  ⟨hi, h, (readBack .subscription).success hi h rfl 8 (by decide),
    (readBack .subscription).failure 8 (by decide) _ fun _ hc => Option.some.inj hc ▸ by decide⟩

end Response

end LedgerClient
