import LedgerClient.Socket.Reception

/-!
# What comes off a socket

An item that comes off a socket is a text, an end, or a sign that the peer is there and nothing else
(`reception_cases`). A binary frame with the bytes of a text is as good as that text.
-/

namespace LedgerClient.Incoming

/-- The text that a reader hands on when it receives something. -/
def text? (item : Incoming) : Option String :=
  match item.reception with
  | .text frame => some frame
  | _ => none

/-- The end that an item is, if it is one: a close frame, a fault of the socket or its end. -/
def end? : Incoming → Option SessionEnd
  | .close => some .closedByPeer
  | .ended => some .closedByPeer
  | .failed fault => some (.socket fault.message)
  | _ => none

theorem decodeUtf8_toUTF8 (s : String) : decodeUtf8 s.toUTF8 = .ok s := by
  have h : String.fromUTF8? s.toUTF8 = some s := dif_pos s.isValidUTF8
  rw [decodeUtf8, h]

theorem reception_binary (s : String) : (binary s.toUTF8).reception = (text s).reception := by
  rw [reception, reception, decodeUtf8_toUTF8]

theorem eq_toUTF8_of_decodeUtf8 {payload : ByteArray} {s : String}
    (h : decodeUtf8 payload = .ok s) : payload = s.toUTF8 := by
  unfold decodeUtf8 at h
  split at h
  · rename_i t ht
    obtain rfl := Except.ok.inj h
    rw [String.fromUTF8?] at ht
    split at ht
    · obtain rfl := Option.some.inj ht
      rfl
    · cases ht
  · cases h

theorem text?_eq_some_iff {item : Incoming} {s : String} :
    item.text? = some s ↔ item = .text s ∨ item = .binary s.toUTF8 := by
  constructor
  · intro h
    cases item with
    | text t => exact .inl (congrArg text (Option.some.inj h))
    | binary payload =>
      cases hd : decodeUtf8 payload with
      | error e => simp [text?, reception, hd] at h
      | ok t =>
        obtain rfl : t = s := by simpa [text?, reception, hd] using h
        exact .inr (congrArg binary (eq_toUTF8_of_decodeUtf8 hd))
    | _ => cases h
  · rintro (rfl | rfl)
    · rfl
    · rw [text?, reception_binary]
      rfl

/-- An item is a text, an end, or a sign of life. -/
theorem reception_cases (item : Incoming) :
    (∃ s, item.reception = .text s ∧ item.text? = some s ∧ item.end? = none) ∨
      (∃ reason, item.reception = .over reason ∧ item.text? = none ∧ item.end? = some reason) ∨
      ((item.reception = .keepalive ∨ ∃ e, item.reception = .garbled e) ∧ item.text? = none ∧
        item.end? = none) := by
  cases item with
  | text s => exact .inl ⟨s, rfl, rfl, rfl⟩
  | binary payload =>
    cases hd : decodeUtf8 payload with
    | ok s => exact .inl ⟨s, by simp [reception, hd], by simp [text?, reception, hd], rfl⟩
    | error e =>
      exact .inr (.inr ⟨.inr ⟨e, by simp [reception, hd]⟩, by simp [text?, reception, hd], rfl⟩)
  | close => exact .inr (.inl ⟨_, rfl, rfl, rfl⟩)
  | failed fault => exact .inr (.inl ⟨_, rfl, rfl, rfl⟩)
  | ended => exact .inr (.inl ⟨_, rfl, rfl, rfl⟩)
  | _ => exact .inr (.inr ⟨.inl rfl, rfl, rfl⟩)

/-- The texts among the items that came off a socket, in order. -/
def texts (items : List Incoming) : List String := items.filterMap text?

theorem texts_append (earlier later : List Incoming) :
    texts (earlier ++ later) = texts earlier ++ texts later :=
  List.filterMap_append

theorem texts_concat (items : List Incoming) (item : Incoming) :
    texts (items ++ [item]) = texts items ++ item.text?.toList := by
  rw [texts_append]
  cases h : item.text? <;> simp [texts, h]

end LedgerClient.Incoming
