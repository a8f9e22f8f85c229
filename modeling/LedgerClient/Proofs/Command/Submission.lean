import LedgerClient.Command.Basic
import LedgerClient.Proofs.Hex
import LedgerClient.Proofs.Text.Words

/-!
# Commands that submit a transaction

A transaction is given as bytes or as a blob, its hexadecimal text. A blob counts without the blanks
around it and with its letters in either case, and comes to what its bytes come to (`ofBlob_eq_ok_iff`),
so that the blob of a command stands for that command. In a frame its digits stand as they are
(`encode_ofBytes`).
-/

namespace LedgerClient

/-! ## Digits -/

theorem Hex.solid_of_isHexDigit {c : Char} (h : Json.IsHexDigit c) :
    Text.isBlank c = false ∧ Json.escapeChar c = [c] := by
  have hall : ∀ c : Char, c.toNat < 128 → Json.IsHexDigit c →
      Text.isBlank c = false ∧ Json.escapeChar c = [c] := by
    unfold Json.IsHexDigit
    exact Text.of_ascii (by decide +kernel)
  exact hall c (Hex.toNat_lt_of_isHexDigit h) h

theorem Hex.isHexDigit_of_mem_encode {bytes : List UInt8} {c : Char}
    (h : c ∈ (Hex.encode bytes).toList) : Json.IsHexDigit c :=
  (Hex.exists_decode_iff.mp ⟨bytes, Hex.decode_encode bytes⟩).2 c h

theorem Json.textChars_encode (bytes : List UInt8) :
    textChars (Hex.encode bytes) = '"' :: (Hex.encode bytes).toList ++ ['"'] := by
  have hself : (Hex.encode bytes).toList.flatMap escapeChar =
      (Hex.encode bytes).toList.flatMap ([·]) :=
    List.flatMap_congr fun c hc => (Hex.solid_of_isHexDigit (Hex.isHexDigit_of_mem_encode hc)).2
  rw [textChars, escapeChars, hself, List.flatMap_singleton', List.cons_append]

/-! ## Blobs -/

namespace SubmitCommand

variable {blob : String} {bytes : List UInt8} {c : SubmitCommand}

/-- What is left of a blob without the blanks around it. -/
def digits (blob : String) : String := String.ofList (Text.trim blob.toList)

/-- What a blob comes to is what its bytes come to, of which there must be some. -/
theorem ofBlob_eq_ok_iff : ofBlob blob = .ok c ↔
    ∃ bytes, bytes ≠ [] ∧ Hex.decode (digits blob) = .ok bytes ∧ c = ofBytes bytes := by
  rw [ofBlob, ← digits]
  cases Hex.decode (digits blob) with
  | error fault => simp
  | ok bytes =>
    cases bytes with
    | nil => simp
    | cons b bytes => simp [eq_comm]

theorem ofBlob_of_decode (h : Hex.decode (digits blob) = .ok bytes) (hne : bytes ≠ []) :
    ofBlob blob = .ok (ofBytes bytes) :=
  ofBlob_eq_ok_iff.mpr ⟨bytes, hne, h, rfl⟩

theorem ofBlob_of_decode_nil (h : Hex.decode (digits blob) = .ok []) :
    ofBlob blob = .error (.invalidBlob "empty") := by
  rw [ofBlob, ← digits, h]
  rfl

theorem decode_eq_nil_iff {s : String} : Hex.decode s = .ok [] ↔ s = "" := by
  rw [Hex.decode_eq_ok_iff]
  constructor
  · intro h
    have hlen := congrArg (fun t : String => t.toList.length) h
    simpa [String.toUpper, String.toList_map, Hex.encode, Hex.encodeChars] using hlen.symm
  · rintro rfl
    exact String.toList_injective (by simp [String.toUpper, Hex.encode, Hex.encodeChars])

/-- Which blobs come to a command: digits in pairs, and some, with blanks around them or not. -/
theorem exists_ofBlob_iff : (∃ c, ofBlob blob = .ok c) ↔ digits blob ≠ "" ∧
    (digits blob).toList.length % 2 = 0 ∧ ∀ c ∈ (digits blob).toList, Json.IsHexDigit c := by
  rw [← Hex.exists_decode_iff]
  constructor
  · rintro ⟨c, h⟩
    obtain ⟨bytes, hne, hd, -⟩ := ofBlob_eq_ok_iff.mp h
    refine ⟨fun hempty => hne ?_, bytes, hd⟩
    rw [decode_eq_nil_iff.mpr hempty] at hd
    exact (Except.ok.inj hd).symm
  · rintro ⟨hempty, bytes, hd⟩
    exact ⟨_, ofBlob_of_decode hd fun hnil => hempty (decode_eq_nil_iff.mp (hnil ▸ hd))⟩

theorem exists_ofBlob_error_iff : (∃ e, ofBlob blob = .error e) ↔
    ∀ bytes, Hex.decode (digits blob) = .ok bytes → bytes = [] := by
  constructor
  · rintro ⟨e, he⟩ bytes hd
    by_contra hne
    rw [ofBlob_of_decode hd hne] at he
    cases he
  · intro h
    cases hc : ofBlob blob with
    | error e => exact ⟨e, rfl⟩
    | ok c =>
      obtain ⟨bytes, hne, hd, -⟩ := ofBlob_eq_ok_iff.mp hc
      exact absurd (h bytes hd) hne

theorem blob_of_ofBlob (h : ofBlob blob = .ok c) : c.blob = (digits blob).toUpper := by
  obtain ⟨bytes, -, hd, rfl⟩ := ofBlob_eq_ok_iff.mp h
  exact Hex.decode_eq_ok_iff.mp hd

theorem ofBlob_blob (h : bytes ≠ []) : ofBlob (ofBytes bytes).blob = .ok (ofBytes bytes) := by
  have hdigits : digits (Hex.encode bytes) = Hex.encode bytes := by
    rw [digits, Text.trim_of_not_blank fun c hc =>
      (Hex.solid_of_isHexDigit (Hex.isHexDigit_of_mem_encode hc)).1, String.ofList_toList]
  refine ofBlob_of_decode ?_ h
  show Hex.decode (digits (Hex.encode bytes)) = .ok bytes
  rw [hdigits, Hex.decode_encode]

end SubmitCommand

/-! ## Frames -/

theorem Command.encode_ofBytes (id : Nat) (bytes : List UInt8) :
    (Command.submit (.ofBytes bytes)).encode id = .ok ("\x7b\"id\":" ++ toString id ++
      ",\"command\":\"submit\",\"tx_blob\":\"" ++ Hex.encode bytes ++ "\"\x7d") := by
  have hparameters : (Command.submit (.ofBytes bytes)).parameters =
      .ok [("tx_blob", Json.textChars (Hex.encode bytes))] := rfl
  rw [encode, hparameters]
  have hid : (toString id).toList = Json.natChars id := String.toList_ofList
  refine congrArg Except.ok (String.toList_injective ?_)
  simp only [String.toList_ofList, String.toList_append, hid, Json.membersChars,
    Json.membersChars.more, Json.textChars_encode]
  simp [Json.textChars, Json.escapeChars, Json.escapeChar, name]

end LedgerClient
