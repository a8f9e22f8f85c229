import LedgerClient.Proofs.Json.Recast
import LedgerClient.Proofs.Response
import LedgerClient.Proofs.Session.Returning

/-!
# Results that are passed through

A command that is given by its name returns the value that its response carries, whatever that is,
unless it is `null`: then the response counts as one without a result, and the call fails.
`Response.carrier` reads the value that stands under `result` in a frame. It goes along the members of
the frame with the response, and the two come to the same (`Response.Carried`).
-/

namespace LedgerClient

open Json (Codec Ended Field Fields Integral Reader Record Slots Value)

theorem Call.shape_of_raw {name : String} {parameters : Value} {command : Command}
    (h : (raw name parameters).command? = .ok command) : command.shape = .untyped := by
  unfold command? at h
  dsimp only at h
  split at h
  · cases h
  · split at h
    · cases h
      rfl
    · cases h
      rfl
    · cases h

namespace Response

/-! ## The value under `result` -/

/-- The value that stands under `result`, whatever else there is. -/
def carrier : Record Value [Value] where
  name := "Response"
  fields := .cons (.required "result" .value) .nil
  make := fun (v, ()) => v
  row := fun v => (v, ())

/-- What a response makes of the value that stands under `result`. -/
inductive Carried : Option (Option Outcome) → Option Value → Prop
  | unread : Carried none none
  | null : Carried (some none) (some .null)
  | value {v : Value} (hv : v ≠ .null) : Carried (some (some (.untyped v))) (some v)

/-- A response and a carrier have come to the same result. -/
def SameResult
    (s : Slots [Nat, Status, String, Option Outcome, Option String, Option Int, Option String])
    (t : Slots [Value]) : Prop :=
  Carried s.2.2.2.1 t.1

variable {room : Nat} {key : String} {cs rest : List Char}
  {s s' : Slots [Nat, Status, String, Option Outcome, Option String, Option Int, Option String]}
  {t : Slots [Value]}

theorem carried_of_read {result : Option Outcome}
    (h : (Outcome.codec .untyped).read.option room cs = .ok (result, rest)) :
    ∃ v, Reader.value room cs = .ok (v, rest) ∧ Carried (some result) (some v) := by
  cases result with
  | none => exact ⟨.null, Json.value_of_missing h, .null⟩
  | some outcome =>
    obtain ⟨hread, hn⟩ := Json.value_of_option h
    have hlift : Outcome.lift .untyped Codec.value.read room (Json.dropSpace cs) =
        .ok (outcome, rest) := hread
    rw [Outcome.lift] at hlift
    split at hlift
    · cases hlift
    · rename_i v behind hv
      obtain ⟨rfl, rfl⟩ := Prod.mk.inj (Except.ok.inj hlift)
      rw [← Json.dropSpace_dropSpace] at hn
      exact ⟨v, Json.value_of_dropSpace hv, .value (Json.ne_null_of_value hv hn)⟩

theorem result_of_ne (hk : "result" ≠ key)
    (h : (record .untyped).member room key s cs = .ok (s', rest)) : s'.2.2.2.1 = s.2.2.2.1 := by
  by_cases hd : (record .untyped).fields.declares key = true
  · rw [Record.member_of_declared hd] at h
    obtain ⟨id, status, type, result, more⟩ := s
    by_cases hid : "id" = key
    · obtain ⟨-, b, rfl, -⟩ := Fields.slots_of_named (.required "id" .nat64) hid h
      rfl
    obtain ⟨-, h⟩ := Fields.slots_of_other hid h
    by_cases hstatus : "status" = key
    · obtain ⟨-, b, hslots, -⟩ := Fields.slots_of_named (.required "status" Status.codec) hstatus h
      rw [hslots]
    obtain ⟨-, h⟩ := Fields.slots_of_other hstatus h
    by_cases htype : "type" = key
    · obtain ⟨-, b, hslots, -⟩ :=
        Fields.slots_of_named (.omitting "type" .text "" String.isEmpty) htype h
      rw [hslots]
    obtain ⟨-, h⟩ := Fields.slots_of_other htype h
    exact (Fields.slots_of_other hk h).1
  · rw [Record.slots_of_undeclared (Bool.eq_false_iff.mpr hd) h]

/-- The value under `result` is read along with a response. -/
theorem carried_alongside (h : (record .untyped).member room key s cs = .ok (s', rest))
    (hr : Ended rest) (hc : SameResult s t) :
    ∃ t', carrier.member room key t cs = .ok (t', rest) ∧ SameResult s' t' := by
  by_cases hk : "result" = key
  · subst hk
    rw [Record.member_of_declared rfl] at h
    obtain ⟨id, status, type, result, more⟩ := s
    obtain ⟨value, more'⟩ := t
    have hc : Carried result value := hc
    obtain ⟨-, h⟩ := Fields.slots_of_other (by decide) h
    obtain ⟨-, h⟩ := Fields.slots_of_other (by decide) h
    obtain ⟨-, h⟩ := Fields.slots_of_other (by decide) h
    obtain ⟨rfl, b, hslots, hread⟩ :=
      Fields.slots_of_named (.optionalInObject "result" (Outcome.codec .untyped)) rfl h
    obtain ⟨item, hcolon, hitem⟩ := Json.ok_of_afterColon hread
    obtain ⟨v, hv, hcarried⟩ := carried_of_read hitem
    obtain rfl : value = none := by
      cases hc
      rfl
    have hvalue : Json.afterColon (Codec.value.read room) cs = .ok (v, rest) := by
      rw [Json.afterColon, hcolon]
      exact hv
    refine ⟨(some v, ()), (Record.member_of_declared rfl).trans
      (Fields.readMember_named (.required "result" .value) rfl hvalue), ?_⟩
    unfold SameResult
    rw [hslots]
    exact hcarried
  · have hdeclares : carrier.fields.declares key = false := by
      simp [carrier, Fields.declares, Field.required, hk]
    have hsound : (record .untyped).fields.Sound := sound_fieldsWith (Outcome.sound_read .untyped)
    have ha := Record.assigned_of_member hsound h
    refine ⟨t, Record.member_of_undeclared hdeclares ha hr, ?_⟩
    unfold SameResult
    rw [result_of_ne hk h]
    exact hc

variable {frame : String} {r : Response} {v : Value}

theorem carried_of_decode (ho : Json.Holds .object frame.toList)
    (h : decode .untyped frame = .ok r) (hv : carrier.codec.decode frame = .ok v) :
    Carried (some r.result) (some v) := by
  obtain ⟨contents, -, hcs, -⟩ := ho
  obtain ⟨rest, hread, -⟩ := (Record.decode_object_iff hcs).mp (ok_of_ofJson h)
  obtain ⟨s, behind, hmembers, hfinish, hclose⟩ := Json.ok_of_objectBody hread
  obtain ⟨row, hrow, rfl⟩ := Json.ok_of_map hfinish
  obtain ⟨rest', hread', -⟩ := (Record.decode_object_iff hcs).mp hv
  obtain ⟨t, behind', hmembers', hfinish', -⟩ := Json.ok_of_objectBody hread'
  obtain ⟨row', hrow', rfl⟩ := Json.ok_of_map hfinish'
  have hsound : (record .untyped).fields.Sound := sound_fieldsWith (Outcome.sound_read .untyped)
  obtain ⟨t', ht', hcarried⟩ : ∃ t', Json.readMembers (carrier.member (Json.nestingLimit - 1))
      contents true carrier.fields.empty contents = .ok (t', behind) ∧ SameResult s t' :=
    Json.readMembers_alongside hmembers hclose (Record.assigned_of_member hsound)
      carried_alongside .unread
  obtain ⟨rfl, -⟩ := Prod.mk.inj (Except.ok.inj (hmembers'.symm.trans ht'))
  obtain ⟨hvalue, -⟩ := Fields.complete_cases hrow'
  obtain ⟨-, hrow⟩ := Fields.complete_cases hrow
  obtain ⟨-, hrow⟩ := Fields.complete_cases hrow
  obtain ⟨-, hrow⟩ := Fields.complete_cases hrow
  obtain ⟨hresult, -⟩ := Fields.complete_cases hrow
  obtain ⟨id, status, type, result, more⟩ := s
  obtain ⟨value, more'⟩ := t
  have hcarried : Carried result value := hcarried
  have hresult : (result <|> some none) = some row.2.2.2.1 := hresult
  have hvalue : (value <|> none) = some row'.1 := hvalue
  show Carried (some row.2.2.2.1) (some row'.1)
  cases hcarried with
  | unread => cases hvalue
  | null =>
    rw [← hresult, ← hvalue]
    exact .null
  | value hv =>
    rw [← hresult, ← hvalue]
    exact .value hv

/-! ## What a value comes to -/

/-- What a successful response comes to that has a value under `result`: a `null` is no result. -/
def passed : Value → Except ProtocolError Outcome
  | .null => .error (.missingField "result")
  | v => .ok (.untyped v)

theorem passed_eq_ok_iff : passed v = .ok (.untyped v) ↔ v ≠ .null := by
  cases v <;> simp [passed]

theorem outcome_of_carried (h : Carried (some r.result) (some v)) (hs : r.status = .success) :
    r.outcome = (passed v).map .ok := by
  obtain ⟨id, status, type, result, more⟩ := r
  obtain rfl : status = .success := hs
  have h : Carried (some result) (some v) := h
  cases h with
  | null => rfl
  | value hv =>
    rw [passed_eq_ok_iff.mpr hv]
    rfl

theorem callResult_of_outcome (h : r.outcome = (passed v).map .ok) :
    r.callResult = (passed v).mapError fun e => .malformedResponse r.id e.message := by
  rw [callResult, h]
  cases passed v <;> rfl

theorem readAs_result (hp : v.Plain (Json.nestingLimit - 1)) :
    ∃ result, (Field.optionalInObject "result" (Outcome.codec .untyped)).ReadAs
        (Json.nestingLimit - 1) (some (.untyped v)) result ∧
      Carried (some result) (some v) := by
  by_cases hv : v = .null
  · subst hv
    exact ⟨none, Json.written_missing, .null⟩
  · have hwritten : Json.Written ((Outcome.codec .untyped).read (Json.nestingLimit - 1))
        (Outcome.untyped v).chars (.untyped v) :=
      Outcome.written_lift rfl (Json.written_value hp)
    exact ⟨some (.untyped v), Json.written_option hwritten (Json.head?_chars hp hv), .value hv⟩

theorem decode_success {id : Nat} (hid : id < UInt64.size) (hp : v.Plain (Json.nestingLimit - 1)) :
    (decode .untyped (success id (.untyped v)).text >>= outcome) = (passed v).map .ok := by
  obtain ⟨result, hresult, hcarried⟩ := readAs_result hp
  have hread : (record .untyped).fields.ReadAs (Json.nestingLimit - 1)
      ((record .untyped).row (success id (.untyped v)))
      ((record .untyped).row ⟨id, .success, "response", result, none, none, none⟩) :=
    ⟨(kept_id hid _).readAs, (kept_status .success _).readAs, (kept_type "response" _).readAs,
      hresult, rfl, rfl, rfl, trivial⟩
  rw [decode_of_readAs hread]
  exact outcome_of_carried (r := ⟨id, .success, "response", result, none, none, none⟩) hcarried rfl

/-! ## Passing a value through -/

/-- What becomes of a value that is the result of a response. -/
structure PassesThrough (v : Value) : Prop where
  /-- Nothing is made of it unless it is `null`. -/
  unchanged : passed v = .ok (.untyped v) ↔ v ≠ .null
  /-- A command that is given by its name is pending, whatever happened before, and the first frame
  that answers it is read as a response that succeeded and has the value under `result`. Then its
  call returns that response, whatever happens after that, as long as its time is not up, and learns
  what the value comes to. -/
  returned : ∀ {settings : Connection.Settings} {earlier later : List Session.Moment}
    {m : Session.Moment} {x : Exchange} {p : Pending} {frame : String} {r : Response} {name : String}
    {parameters : Value}, x ∈ ((Session.start settings).run earlier).exchanges →
      (Call.raw name parameters).command? = .ok x.command →
      ((Session.start settings).run earlier).act? m = some (.handle frame) →
      answeredId? frame = some x.id →
      ((Session.start settings).run earlier).dispatcher.table.find? x.id = some p →
      decode .untyped frame = .ok r → r.status = .success → carrier.codec.decode frame = .ok v →
      .expire x.id ∉ earlier ++ m :: later →
      ((Session.start settings).run (earlier ++ m :: later)).Returns x.id r ∧
        r.callResult = (passed v).mapError fun e => .malformedResponse x.id e.message
  /-- The text of a response that is made of it, under any id, comes to the same. -/
  readBack : ∀ id < UInt64.size, v.Plain (Json.nestingLimit - 1) →
    (decode .untyped (success id (.untyped v)).text >>= outcome) = (passed v).map .ok

/-- **An untyped result is passed through**, whatever it is, and only a `null` is lost. -/
theorem passesThrough (v : Value) : PassesThrough v where
  unchanged := passed_eq_ok_iff
  returned {settings earlier later m x p frame r name parameters} hx hc ha hid hp hd hs hv hn := by
    have hshape : x.command.shape = .untyped := Call.shape_of_raw hc
    have hcarried := carried_of_decode (object_of_response hid hd) hd hv
    refine ⟨Session.returns_of_answer settings hx ha hid hp (hshape ▸ hd) hn, ?_⟩
    rw [← Session.id_of_answer hid hd]
    exact callResult_of_outcome (outcome_of_carried hcarried hs)
  readBack id hid hp := decode_success hid hp

/-- An answer with a list for its result. -/
def listing : String := "\x7b\"id\":1,\"result\":[1,null],\"status\":\"success\"\x7d"

/-- A command is called by its name and answered with the list. -/
def listed : List Session.Moment :=
  [.enter (.raw "echo" .null), .allocate 0, .enqueue 1, .dispatch true, .dispatch true,
    .arrive (.text listing), .hand]

/-- The call returns the list as soon as the dispatcher has handled the answer. -/
theorem passesThrough_of_listing :
    let s := Session.start (.ofEndpoint Connection.defaultEndpoint)
    let v : Value := .list [.number (.int 1), .null]
    let r : Response := ⟨1, .success, "", some (.untyped v), none, none, none⟩
    PassesThrough v ∧ (s.run (listed ++ [.dispatch true])).Returns 1 r ∧
      r.callResult = .ok (.untyped v) :=
  have hx : ((Session.start (.ofEndpoint Connection.defaultEndpoint)).run listed).find? 1 =
    some ⟨1, .raw (.of "echo" []), .waiting⟩ := rfl
  have hc : (Call.raw "echo" .null).command? = .ok (.raw (.of "echo" [])) := rfl
  have hthrough := passesThrough (.list [.number (.int 1), .null])
  ⟨hthrough, hthrough.returned (m := .dispatch true) (p := ⟨"echo", .untyped, 1⟩)
    (r := ⟨1, .success, "", some (.untyped (.list [.number (.int 1), .null])), none, none, none⟩)
    (Session.mem_of_find? hx).1 hc rfl rfl rfl rfl rfl rfl (by simp [listed])⟩

/-- A response with `null` for its result counts as one without a result. -/
theorem lost_null :
    (success 3 (.untyped .null)).text =
        "\x7b\"id\":3,\"status\":\"success\",\"type\":\"response\",\"result\":null\x7d" ∧
      (decode .untyped (success 3 (.untyped .null)).text >>= outcome) ≠
        .ok (.ok (.untyped .null)) :=
  ⟨rfl, nofun⟩

end Response

end LedgerClient
