import LedgerClient.Hash
import LedgerClient.Proofs.Hex
import LedgerClient.Proofs.Json.Faithful

/-!
# Hashes are read back

A hash is read back from its text, and the text of a hash that is read off another is that one in
upper case.
-/

namespace LedgerClient

/-- A hash is read back from its text. -/
theorem Hash.parse_text (h : Hash) : Hash.parse h.text = .ok h := by
  obtain ⟨bytes, hlen⟩ := h
  have hdecode : Hex.decodeExactly 32 (Hex.encode bytes) = .ok bytes := by
    rw [← hlen, Hex.decodeExactly_encode]
  unfold Hash.parse
  split
  · rename_i other hother
    rw [Hash.text, hdecode] at hother
    obtain rfl := Except.ok.inj hother
    rfl
  · rename_i fault hfault
    rw [Hash.text, hdecode] at hfault
    simp at hfault

theorem Hash.text_of_parse {s : String} {h : Hash} (hp : Hash.parse s = .ok h) :
    h.text = s.toUpper := by
  unfold Hash.parse at hp
  split at hp
  · rename_i bytes hbytes
    obtain rfl := Except.ok.inj hp
    exact Hex.encode_of_decodeExactly hbytes
  · simp at hp

theorem Hash.parse_codec (h : Hash) : (parse h.text).mapError ProtocolError.message = .ok h := by
  rw [Hash.parse_text]
  rfl

theorem Hash.written (room : Nat) (h : Hash) :
    Json.Written (Hash.codec.read room) (Hash.codec.write h) h :=
  Json.written_refined room h.parse_codec

theorem Hash.faithful_codec : Hash.codec.Faithful := Json.faithful_refined Hash.parse_codec

/-! ## Which texts are hashes -/

theorem Hash.exists_parse_iff (s : String) :
    (∃ h, Hash.parse s = .ok h) ↔ ∃ bytes, Hex.decodeExactly 32 s = .ok bytes := by
  unfold Hash.parse
  constructor
  · rintro ⟨h, hp⟩
    split at hp
    · rename_i bytes hbytes
      exact ⟨bytes, hbytes⟩
    · cases hp
  · rintro ⟨bytes, hbytes⟩
    split
    · exact ⟨_, rfl⟩
    · rename_i fault hfault
      rw [hbytes] at hfault
      cases hfault

theorem Hash.parse_eq_error_iff {s : String} {e : ProtocolError} :
    Hash.parse s = .error e ↔
      ∃ fault, Hex.Misread 32 s fault ∧ e = .invalidHash (s ++ ": " ++ fault.message) := by
  unfold Hash.parse
  constructor
  · intro hp
    split at hp
    · cases hp
    · rename_i fault hfault
      exact ⟨fault, Hex.misread_of_decodeExactly hfault, (Except.error.inj hp).symm⟩
  · rintro ⟨fault, hmisread, rfl⟩
    have hdecode := Hex.decodeExactly_of_misread hmisread
    split
    · rename_i bytes hbytes
      rw [hdecode] at hbytes
      cases hbytes
    · rename_i other hother
      obtain rfl := Except.error.inj (hother.symm.trans hdecode)
      rfl

theorem Hash.text_inj {g h : Hash} (heq : g.text = h.text) : g = h := by
  have hparse := Hash.parse_text g
  rw [heq, Hash.parse_text] at hparse
  exact (Except.ok.inj hparse).symm

/-- **The text of a hash is 64 hexadecimal digits**: just these texts are parsed, as the hash whose
text is that one in upper case; hashes come back from their text and from their JSON text; two texts
are one hash just if they differ in the case of their letters only; and of what is wrong with any
other text the number of its bytes goes before its digits. -/
theorem Hash.readsDigits :
    (∀ s : String, (∃ h, Hash.parse s = .ok h) ↔
      s.toList.length = 64 ∧ ∀ c ∈ s.toList, Json.IsHexDigit c) ∧
    (∀ (s : String) (h : Hash), Hash.parse s = .ok h → h.text = s.toUpper) ∧
    (∀ h : Hash, Hash.parse h.text = .ok h ∧ Hash.codec.decode (Hash.codec.encode h) = .ok h) ∧
    (∀ (s t : String) (h : Hash), Hash.parse s = .ok h →
      (Hash.parse t = .ok h ↔ t.toUpper = s.toUpper)) ∧
    ∀ (s : String) (e : ProtocolError), Hash.parse s = .error e ↔
      ∃ fault, Hex.Misread 32 s fault ∧ e = .invalidHash (s ++ ": " ++ fault.message) := by
  refine ⟨fun s => (Hash.exists_parse_iff s).trans Hex.exists_decodeExactly_iff,
    fun s h => Hash.text_of_parse, fun h => ⟨Hash.parse_text h, ?_⟩, ?_,
    fun s e => Hash.parse_eq_error_iff⟩
  · exact Json.parse_of_written (Hash.written Json.nestingLimit h)
  · intro s t h hs
    constructor
    · intro ht
      rw [← Hash.text_of_parse ht, Hash.text_of_parse hs]
    · intro hcase
      have hdigits : s.toList.length = 2 * 32 ∧ ∀ c ∈ s.toList, Json.IsHexDigit c :=
        Hex.exists_decodeExactly_iff.mp ((Hash.exists_parse_iff s).mp ⟨h, hs⟩)
      obtain ⟨g, hg⟩ := (Hash.exists_parse_iff t).mpr
        (Hex.exists_decodeExactly_iff.mpr (Hex.isHexDigit_of_toUpper hcase hdigits))
      have hone : g = h := Hash.text_inj
        (by rw [Hash.text_of_parse hg, Hash.text_of_parse hs, hcase])
      rw [hg, hone]

/-- A hash whose text is written in lower case is that whose text is written in upper case. -/
theorem Hash.readsDigits_of_lower_case :
    ∃ h,
      Hash.parse "e08d6e9754025ba2534a78707605e0601f03ace063687a0ca1bddacfcd1698c7" = .ok h ∧
      h.text = "E08D6E9754025BA2534A78707605E0601F03ACE063687A0CA1BDDACFCD1698C7" ∧
      Hash.parse "E08D6E9754025BA2534A78707605E0601F03ACE063687A0CA1BDDACFCD1698C7" = .ok h := by
  obtain ⟨-, htext, -, hcase, -⟩ := Hash.readsDigits
  have hlower : "e08d6e9754025ba2534a78707605e0601f03ace063687a0ca1bddacfcd1698c7".toUpper =
      "E08D6E9754025BA2534A78707605E0601F03ACE063687A0CA1BDDACFCD1698C7" := by
    apply String.toList_injective
    rw [String.toUpper, String.toList_map]
    decide +kernel
  have hupper : "E08D6E9754025BA2534A78707605E0601F03ACE063687A0CA1BDDACFCD1698C7".toUpper =
      "E08D6E9754025BA2534A78707605E0601F03ACE063687A0CA1BDDACFCD1698C7" := by
    apply String.toList_injective
    rw [String.toUpper, String.toList_map]
    decide +kernel
  have hsome : (Hash.parse
      "e08d6e9754025ba2534a78707605e0601f03ace063687a0ca1bddacfcd1698c7").toOption.isSome = true :=
    by decide +kernel
  cases hread : Hash.parse "e08d6e9754025ba2534a78707605e0601f03ace063687a0ca1bddacfcd1698c7" with
  | error e =>
    rw [hread] at hsome
    cases hsome
  | ok h =>
    exact ⟨h, rfl, (htext _ h hread).trans hlower,
      (hcase _ _ h hread).mpr (hupper.trans hlower.symm)⟩

end LedgerClient
