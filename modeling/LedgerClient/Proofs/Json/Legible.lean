import LedgerClient.Proofs.Json.FaithfulRecord

/-!
# Records as values of any type

A codec is legible if it writes what it reads off an integral text as a plain value. A record of
legible fields is then written as an object of plain values, which a reader that does not know the
record gets at as well. The text of a plain value is a single line.
-/

namespace LedgerClient.Json

variable {α : Type} {βs : List Type} {room : Nat} {cs rest : List Char}

/-! ## Lines -/

theorem newline_not_mem_escapeChar (c : Char) : '\n' ∉ escapeChar c := by
  rcases escapeChar_cases c with ⟨e, -, he, hc⟩ | ⟨hcontrol, hc⟩ | ⟨-, -, hcontrol, hc⟩
  · have hletter : '\n' ≠ e := by
      rintro rfl
      simp [escaped?] at he
    simp [hc, hletter]
  · have hdigit : ∀ n < 16, '\n' ≠ hexDigit n := by decide
    have hhigh := hdigit (c.toNat / 16) (by omega)
    have hlow := hdigit (c.toNat % 16) (by omega)
    simp [hc, hhigh, hlow]
  · have hplain : '\n' ≠ c := by
      rintro rfl
      exact hcontrol (by decide)
    simp [hc, hplain]

theorem newline_not_mem_textChars (s : String) : '\n' ∉ textChars s := by
  simp [textChars, escapeChars, newline_not_mem_escapeChar]

theorem newline_not_mem_natChars (n : Nat) : '\n' ∉ natChars n := fun h =>
  absurd (isDigit_of_mem_natChars h) (by decide)

theorem newline_not_mem_intChars (i : Int) : '\n' ∉ intChars i := by
  cases i with
  | ofNat n => exact newline_not_mem_natChars n
  | negSucc n => simp [intChars, newline_not_mem_natChars]

theorem newline_not_mem_itemsChars {texts : List (List Char)} (h : ∀ t ∈ texts, '\n' ∉ t) :
    '\n' ∉ itemsChars texts := by
  have hmore : ∀ texts : List (List Char), (∀ t ∈ texts, '\n' ∉ t) →
      '\n' ∉ itemsChars.more texts := by
    intro texts h
    induction texts with
    | nil => decide
    | cons t texts ih =>
      obtain ⟨ht, htexts⟩ := List.forall_mem_cons.mp h
      simp [itemsChars.more, ht, ih htexts]
  cases texts with
  | nil => decide
  | cons t texts =>
    obtain ⟨ht, htexts⟩ := List.forall_mem_cons.mp h
    simp [itemsChars, ht, hmore texts htexts]

theorem newline_not_mem_membersChars {texts : List (String × List Char)}
    (h : ∀ t ∈ texts, '\n' ∉ t.2) : '\n' ∉ membersChars texts := by
  have hmore : ∀ texts : List (String × List Char), (∀ t ∈ texts, '\n' ∉ t.2) →
      '\n' ∉ membersChars.more texts := by
    intro texts h
    induction texts with
    | nil => decide
    | cons t texts ih =>
      obtain ⟨ht, htexts⟩ := List.forall_mem_cons.mp h
      simp [membersChars.more, newline_not_mem_textChars, ht, ih htexts]
  cases texts with
  | nil => decide
  | cons t texts =>
    obtain ⟨ht, htexts⟩ := List.forall_mem_cons.mp h
    simp [membersChars, newline_not_mem_textChars, ht, hmore texts htexts]

/-- The text of a plain value is a single line. -/
theorem newline_not_mem_chars {v : Value} (h : v.Plain room) : '\n' ∉ v.chars := by
  induction h with
  | null => decide
  | bool b => cases b <;> decide
  | integer _ _ => exact newline_not_mem_intChars _
  | text s => exact newline_not_mem_textChars s
  | @list _ items _ ih =>
    rw [Value.chars, itemTexts_eq_map]
    refine newline_not_mem_itemsChars fun t ht => ?_
    obtain ⟨v, hv, rfl⟩ := List.mem_map.mp ht
    exact ih v hv
  | @object _ members _ _ ih =>
    rw [Value.chars, memberTexts_eq_map]
    refine newline_not_mem_membersChars fun t ht => ?_
    obtain ⟨m, hm, rfl⟩ := List.mem_map.mp ht
    exact ih m hm

/-! ## Codecs -/

/-- A text is that of a plain value. -/
def Legible (room : Nat) (text : List Char) : Prop := ∃ v : Value, v.Plain room ∧ v.chars = text

/-- What a codec reads off an integral text it writes as a plain value. -/
def Codec.Legible (c : Codec α) : Prop :=
  ∀ ⦃room : Nat⦄ ⦃cs rest : List Char⦄ ⦃a : α⦄, Integral .outside cs →
    c.read room cs = .ok (a, rest) → Json.Legible room (c.write a)

theorem legible_textChars (room : Nat) (s : String) : Legible room (textChars s) :=
  ⟨.text s, .text s, rfl⟩

theorem legible_boolChars (room : Nat) (b : Bool) : Legible room (boolChars b) :=
  ⟨.bool b, .bool b, rfl⟩

theorem legible_intChars (room : Nat) {i : Int} (hmin : -9223372036854775808 ≤ i)
    (hmax : i < 18446744073709551616) : Legible room (intChars i) :=
  ⟨.number (.int i), .integer hmin hmax, rfl⟩

theorem legible_text : Codec.text.Legible := fun room _ _ s _ _ => legible_textChars room s

theorem legible_bool : Codec.bool.Legible := fun room _ _ b _ _ => legible_boolChars room b

theorem legible_refined (parse : String → Except String α) (text : α → String) :
    (Codec.refined parse text).Legible := fun room _ _ a _ _ => legible_textChars room (text a)

theorem legible_integer {expected : String} {low high : Int} (hlow : -9223372036854775808 ≤ low)
    (hhigh : high < 18446744073709551616) : (Codec.integer expected low high).Legible := by
  intro room cs rest i _ h
  have hread : Reader.integer expected low high room cs = .ok (i, rest) := h
  obtain ⟨-, -, -, -, -, hl, hh⟩ := number_of_integer hread
  exact legible_intChars room (by omega) (by omega)

theorem legible_natural {expected : String} {bits : Nat} (hbits : 1 <<< bits ≤ UInt64.size) :
    (Codec.natural expected bits).Legible := by
  intro room cs rest n _ h
  have hn := lt_of_natural h
  simp only [UInt64.size] at hbits
  exact legible_intChars room (i := n) (by omega) (by omega)

theorem legible_nat32 : Codec.nat32.Legible := legible_natural (by decide)

theorem legible_nat64 : Codec.nat64.Legible := legible_natural (by decide)

theorem legible_int32 : Codec.int32.Legible := legible_integer (by decide) (by decide)

theorem legible_value : Codec.value.Legible := fun _ _ _ v hi h => ⟨v, plain_of_value hi h, rfl⟩

/-! ## Fields -/

namespace Field

variable {β : Type} {c : Codec β}

/-- What a field yields is written as a plain value, unless it is left out. -/
def Legible (field : Field β) : Prop :=
  ∀ ⦃room : Nat⦄ ⦃b : β⦄, field.Yields room b → ∀ text ∈ field.write b, Json.Legible room text

theorem legible_required (name : String) (hc : c.Legible) : (required name c).Legible := by
  intro room b hyields text htext
  obtain ⟨cs, rest, hi, h⟩ := yields_required hyields
  exact Option.some.inj htext ▸ hc hi h

theorem legible_defaulted (name : String) {default : β} (hc : c.Legible)
    (hd : ∀ room, Json.Legible room (c.write default)) : (defaulted name c default).Legible := by
  intro room b hyields text htext
  obtain rfl := Option.some.inj htext
  obtain rfl | ⟨cs, rest, hi, h⟩ := yields_defaulted hyields
  · exact hd room
  · exact hc hi h

theorem legible_zero (name expected : String) {bits : Nat} (hbits : 1 <<< bits ≤ UInt64.size) :
    (defaulted name (Codec.natural expected bits) 0).Legible :=
  legible_defaulted name (legible_natural hbits) fun room =>
    legible_intChars room (i := 0) (by decide) (by decide)

theorem legible_optional (name : String) (hc : c.Legible) : (optional name c).Legible := by
  intro room b hyields text htext
  obtain rfl | ⟨a, cs, rest, rfl, hi, h, -⟩ := yields_optional hyields
  · simp [optional] at htext
  · exact Option.some.inj htext ▸ hc hi h

end Field

namespace Fields

def Legible : {βs : List Type} → Fields βs → Prop
  | _, .nil => True
  | _, .cons field rest => field.Legible ∧ rest.Legible

theorem legible_of_yields {fields : Fields βs} {row : Row βs} (hf : fields.Legible)
    (h : fields.Yields room row) : ∀ t ∈ fields.texts row, Json.Legible room t.2 := by
  induction fields with
  | nil => exact nofun
  | cons field fields ih =>
    obtain ⟨b, row⟩ := row
    have hrest := ih hf.2 h.2
    simp only [texts]
    split
    · exact hrest
    · rename_i text hwrite
      exact List.forall_mem_cons.mpr ⟨hf.1 h.1 text hwrite, hrest⟩

end Fields

theorem exists_memberTexts {texts : List (String × List Char)} (h : ∀ t ∈ texts, Legible room t.2) :
    ∃ ms, texts = Value.memberTexts ms ∧ ∀ m ∈ ms, m.2.Plain room := by
  induction texts with
  | nil => exact ⟨[], rfl, nofun⟩
  | cons t texts ih =>
    obtain ⟨⟨v, hv, hchars⟩, htexts⟩ := List.forall_mem_cons.mp h
    obtain ⟨ms, rfl, hms⟩ := ih htexts
    refine ⟨(t.1, v) :: ms, ?_, List.forall_mem_cons.mpr ⟨hv, hms⟩⟩
    rw [Value.memberTexts, hchars]

end LedgerClient.Json
