import LedgerClient.Proofs.Json.Recast
import LedgerClient.Proofs.Response

/-!
# Results that keep all their members

A transaction that was looked up and the answer to a subscription keep the members of their object
that have no field, and give all of them back when they are written. `TransactionResult.recast` and
`SubscriptionResult.recast` say what becomes of each: hashes are written in upper case, a field that
may be missing is left out if it was `null`, and a transaction always says whether it is validated.
-/

namespace LedgerClient

open Json (Codec Integral Members Reader Value)

theorem Hash.recasts_codec : Hash.codec.Recasts (Value.mapText String.toUpper) := by
  refine Codec.recasts_refined fun {s h} hparse => ?_
  cases hp : Hash.parse s with
  | error error => simp [hp, Except.mapError] at hparse
  | ok hash =>
    rw [hp] at hparse
    obtain rfl := Except.ok.inj hparse
    exact Hash.text_of_parse hp

namespace TransactionResult

/-- What is written of a member of a transaction's object, given its value there if it has one. -/
def recast (key : String) (v? : Option Value) : Option Value :=
  if key = "hash" then v?.map (Value.mapText String.toUpper)
  else if key = "validated" then some (v?.getD (.bool false))
  else if key ∈ ["ledger_index", "TransactionType", "Account", "meta"] then Value.present id v?
  else v?

theorem recasts_fields : record.fields.Recasts recast :=
  ⟨Json.Field.recasts_required _ Hash.recasts_codec,
    Json.Field.recasts_optional _ (Codec.recasts_natural _ _),
    Json.Field.recasts_defaulted _ Codec.recasts_bool rfl fun _ => .bool false,
    Json.Field.recasts_optional _ Codec.recasts_text,
    Json.Field.recasts_optional _ Codec.recasts_text,
    Json.Field.recasts_optional _ Codec.recasts_value, trivial⟩

theorem recast_of_undeclared (key : String) (h : record.fields.declares key = false)
    (v? : Option Value) : recast key v? = v? := by
  simp only [record, Json.Fields.declares, Json.Field.required, Json.Field.optional,
    Json.Field.defaulted, Bool.or_eq_false_iff, beq_eq_false_iff_ne] at h
  obtain ⟨hhash, hindex, hvalidated, htype, haccount, hmeta, -⟩ := h
  simp [recast, hhash.symm, hindex.symm, hvalidated.symm, htype.symm, haccount.symm, hmeta.symm]

end TransactionResult

namespace SubscriptionResult

/-- What is written of a member of a subscription's answer, given its value there if it has one. -/
def recast (key : String) (v? : Option Value) : Option Value :=
  if key = "ledger_hash" then Value.present (Value.mapText String.toUpper) v?
  else if key ∈ ["ledger_index", "ledger_time", "fee_base", "reserve_base", "reserve_inc",
      "validated_ledgers"] then Value.present id v?
  else v?

theorem recasts_fields : record.fields.Recasts recast :=
  ⟨Json.Field.recasts_optional _ (Codec.recasts_natural _ _),
    Json.Field.recasts_optional _ Hash.recasts_codec,
    Json.Field.recasts_optional _ (Codec.recasts_natural _ _),
    Json.Field.recasts_optional _ (Codec.recasts_natural _ _),
    Json.Field.recasts_optional _ (Codec.recasts_natural _ _),
    Json.Field.recasts_optional _ (Codec.recasts_natural _ _),
    Json.Field.recasts_optional _ Codec.recasts_text, trivial⟩

theorem recast_of_undeclared (key : String) (h : record.fields.declares key = false)
    (v? : Option Value) : recast key v? = v? := by
  simp only [record, Json.Fields.declares, Json.Field.optional, Bool.or_eq_false_iff,
    beq_eq_false_iff_ne] at h
  obtain ⟨hindex, hhash, htime, hfee, hbase, hinc, hledgers, -⟩ := h
  simp [recast, hindex.symm, hhash.symm, htime.symm, hfee.symm, hbase.symm, hinc.symm,
    hledgers.symm]

end SubscriptionResult

namespace Outcome

/-- The results with members of any name keep them, and give all of them back. -/
structure KeepsMembers : Prop where
  transaction : ∀ {text : String} {t : TransactionResult}, Integral .outside text.toList →
    TransactionResult.record.codec.decode text = .ok t →
    ∃ entries, Reader.entries.parse text = .ok entries ∧
      Codec.members.decode text = .ok (Members.ofList entries) ∧
      TransactionResult.record.Flattened TransactionResult.recast entries t
  subscription : ∀ {text : String} {s : SubscriptionResult}, Integral .outside text.toList →
    SubscriptionResult.record.codec.decode text = .ok s →
    ∃ entries, Reader.entries.parse text = .ok entries ∧
      Codec.members.decode text = .ok (Members.ofList entries) ∧
      SubscriptionResult.record.Flattened SubscriptionResult.recast entries s

/-- **Nothing of a transaction or of the answer to a subscription is lost**, whatever its members. -/
theorem keepsMembers : KeepsMembers where
  transaction hi h := Json.OpenRecord.flattened sound_transaction TransactionResult.recasts_fields
    (by decide) (fun _ _ => rfl) (fun _ _ => rfl) TransactionResult.recast_of_undeclared hi h
  subscription hi h := Json.OpenRecord.flattened sound_subscription
    SubscriptionResult.recasts_fields (by decide) (fun _ _ => rfl) (fun _ _ => rfl)
    SubscriptionResult.recast_of_undeclared hi h

/-- A transaction with members on all sides of its fields, one of which is `null`. -/
def lookedUp : String :=
  "\x7b\"fee\":\"10\",\"hash\":\"" ++ String.ofList (List.replicate 64 'c') ++
    "\",\"memo\":1,\"meta\":null,\"memo\":[\x7b\x7d],\"ledger_index\":7\x7d"

theorem keepsMembers_of_lookedUp :
    Integral .outside lookedUp.toList ∧
      ∃ t, TransactionResult.record.codec.decode lookedUp = .ok t ∧
        t.others = [("fee", .text "10"), ("memo", .list [.object []])] ∧
        ∃ ms, Codec.members.decode (TransactionResult.record.codec.encode t) = .ok ms ∧
          ms.get? "hash" = some (.text (String.ofList (List.replicate 64 'C'))) ∧
          ms.get? "validated" = some (.bool false) ∧ ms.get? "meta" = none ∧
          ms.get? "memo" = some (.list [.object []]) := by
  have hi : Integral .outside lookedUp.toList := by
    have hliterals : Json.literals .outside lookedUp.toList = [['1'], ['7']] := by cbv
    rw [Integral, hliterals]
    decide
  have hread : (TransactionResult.record.codec.decode lookedUp).toBool = true := by decide +kernel
  cases h : TransactionResult.record.codec.decode lookedUp with
  | error fault => simp [h, Except.toBool] at hread
  | ok t =>
    obtain ⟨entries, hentries, -, hothers, ms, hms, hget⟩ := keepsMembers.transaction hi h
    have hstand : Reader.entries.parse lookedUp = .ok [("fee", .text "10"),
        ("hash", .text (String.ofList (List.replicate 64 'c'))), ("memo", .number (.int 1)),
        ("meta", .null), ("memo", .list [.object []]), ("ledger_index", .number (.int 7))] := by cbv
    obtain rfl := Except.ok.inj (hentries.symm.trans hstand)
    have hupper : (String.ofList (List.replicate 64 'c')).toUpper =
        String.ofList (List.replicate 64 'C') := by decide +kernel
    refine ⟨hi, t, rfl, hothers, ms, hms, ?_, (hget _).trans rfl, (hget _).trans rfl,
      (hget _).trans rfl⟩
    rw [← hupper]
    exact hget "hash"

end Outcome

end LedgerClient
