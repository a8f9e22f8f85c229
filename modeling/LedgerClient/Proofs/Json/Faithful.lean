import LedgerClient.Proofs.Json.IntegralValue
import LedgerClient.Proofs.Json.WrittenRecord

/-!
# What is read is written to be read again

A codec is faithful if a value that it reads off an integral text is read back from the text that it
writes for it. What may be missing is then read back as well, because a text that does not begin
like `null` is not written as one that does. A field is faithful if it keeps whatever it yields: a
value that it reads, or one that stands for a missing member or item.
-/

namespace LedgerClient.Json

variable {α : Type} {room : Nat} {cs rest : List Char}

/-! ## Codecs -/

/-- What a codec reads off an integral text it writes to be read again. -/
structure Codec.Faithful (c : Codec α) : Prop where
  back : ∀ {room : Nat} {cs rest : List Char} {a : α}, Integral .outside cs →
    c.read room cs = .ok (a, rest) → Written (c.read room) (c.write a) a
  /-- Only what is read off a text that begins like `null` is written as one. -/
  present : ∀ {room : Nat} {cs rest : List Char} {a : α}, Integral .outside cs →
    c.read room cs = .ok (a, rest) → (dropSpace cs).head? ≠ some 'n' →
    (c.write a).head? ≠ some 'n'

theorem head?_textChars (s : String) : (textChars s).head? ≠ some 'n' :=
  Option.some_inj.not.mpr (by decide)

theorem head?_boolChars (b : Bool) : (boolChars b).head? ≠ some 'n' := by
  cases b <;> exact Option.some_inj.not.mpr (by decide)

theorem head?_intChars (i : Int) : (intChars i).head? ≠ some 'n' := by
  obtain ⟨c, more, hi, hc⟩ := exists_intChars i
  rw [hi]
  exact Option.some_inj.not.mpr (ne_of_digit hc (by decide))

theorem head?_itemsChars (texts : List (List Char)) : (itemsChars texts).head? ≠ some 'n' := by
  cases texts <;> exact Option.some_inj.not.mpr (by decide)

theorem head?_membersChars (texts : List (String × List Char)) :
    (membersChars texts).head? ≠ some 'n' := by
  cases texts <;> exact Option.some_inj.not.mpr (by decide)

/-! ### Strings and words -/

theorem faithful_text : Codec.text.Faithful where
  back {room _ _ s} _ _ := written_text room s
  present _ _ _ := head?_textChars _

theorem faithful_bool : Codec.bool.Faithful where
  back {room _ _ b} _ _ := written_bool room b
  present _ _ _ := head?_boolChars _

theorem faithful_refined {parse : String → Except String α} {text : α → String}
    (h : ∀ a, parse (text a) = .ok a) : (Codec.refined parse text).Faithful where
  back {room _ _ a} _ _ := written_refined room (h a)
  present _ _ _ := head?_textChars _

theorem faithful_choice {known : List (String × α)} {name : α → String}
    (h : ∀ a, known.find? (·.1 == name a) = some (name a, a)) :
    (Codec.choice known name).Faithful where
  back {room _ _ a} _ _ := written_choice room (h a)
  present _ _ _ := head?_textChars _

/-! ### Numbers -/

theorem lt_of_natural {expected : String} {bits n : Nat}
    (h : (Codec.natural expected bits).read room cs = .ok (n, rest)) : n < 1 <<< bits := by
  obtain ⟨i, hi, rfl⟩ := integer_of_natural h
  obtain ⟨-, -, -, -, -, hlow, hhigh⟩ := number_of_integer hi
  omega

theorem faithful_integer {expected : String} {low high : Int} (hlow : -9223372036854775808 ≤ low)
    (hhigh : high < 18446744073709551616) : (Codec.integer expected low high).Faithful where
  back {room cs rest i} _ h := by
    have hread : Reader.integer expected low high room cs = .ok (i, rest) := h
    obtain ⟨-, -, -, -, -, hl, hh⟩ := number_of_integer hread
    exact written_integer room hl hh (by omega) (by omega)
  present _ _ _ := head?_intChars _

theorem faithful_natural {expected : String} {bits : Nat} (hbits : 1 <<< bits ≤ UInt64.size) :
    (Codec.natural expected bits).Faithful where
  back {room _ _ _} _ h := written_natural room (lt_of_natural h) hbits
  present {_ _ _ n} _ _ _ := head?_intChars n

theorem faithful_nat32 : Codec.nat32.Faithful := faithful_natural (by decide)

theorem faithful_nat64 : Codec.nat64.Faithful := faithful_natural (by decide)

theorem faithful_int32 : Codec.int32.Faithful := faithful_integer (by decide) (by decide)

theorem written_int32 {i : Int} (room : Nat) (hlow : -2147483648 ≤ i) (hhigh : i ≤ 2147483647) :
    Written (Codec.int32.read room) (Codec.int32.write i) i :=
  written_integer room hlow hhigh (by omega) (by omega)

/-! ### Values of any type -/

theorem ne_null_of_value {v : Value} (h : Reader.value room cs = .ok (v, rest))
    (hn : (dropSpace cs).head? ≠ some 'n') : v ≠ .null := by
  have hany {list object : List Char → Step Value}
      (hl : ∀ {cs v rest}, list cs = .ok (v, rest) → v ≠ .null)
      (ho : ∀ {cs v rest}, object cs = .ok (v, rest) → v ≠ .null)
      (h : readAny list object cs = .ok (v, rest)) : v ≠ .null := by
    obtain ⟨c, more, hcs, ⟨letters, -, -, hv⟩ | ⟨-, s, -, rfl⟩ | ⟨-, n, -, rfl⟩ | ⟨-, hlist⟩ |
      ⟨-, hobject⟩⟩ := readAny_cases h
    · rcases hv with ⟨rfl, -⟩ | ⟨b, rfl⟩
      · rw [hcs] at hn
        exact absurd rfl hn
      · simp
    · simp
    · simp
    · exact hl hlist
    · exact ho hobject
  cases room with
  | zero => refine hany ?_ ?_ h <;> (intro cs v rest hdeep; simp [tooDeep] at hdeep)
  | succ room =>
    refine hany (fun hl => ?_) (fun ho => ?_) h
    · split at hl
      · simp at hl
      · obtain ⟨rfl, -⟩ := Prod.mk.inj (Except.ok.inj hl)
        simp
    · split at ho
      · simp at ho
      · obtain ⟨rfl, -⟩ := Prod.mk.inj (Except.ok.inj ho)
        simp

theorem head?_chars {v : Value} (hp : v.Plain room) (hv : v ≠ .null) :
    v.chars.head? ≠ some 'n' := by
  cases hp with
  | null => exact absurd rfl hv
  | bool b => exact head?_boolChars b
  | integer _ _ => exact head?_intChars _
  | text s => exact head?_textChars s
  | list _ => exact head?_itemsChars _
  | object _ _ => exact head?_membersChars _

theorem faithful_value : Codec.value.Faithful where
  back hi h := written_value (plain_of_value hi h)
  present hi h hn := head?_chars (plain_of_value hi h) (ne_null_of_value h hn)

theorem plain_of_readMembers {ms : Members} (hi : Integral .outside cs)
    (h : Reader.members room cs = .ok (ms, rest)) : ∃ inner, room = inner + 1 ∧ ms.Plain inner := by
  obtain ⟨inner, contents, rfl, hcs, ho⟩ := ok_of_object h
  have hcontents : Integral .outside contents := (hcs ▸ integral_dropSpace hi).behind
  exact ⟨inner, rfl, plain_of_members (fun hv => sound_value hv) plain_of_value hcontents ho⟩

theorem written_unsorted {entries : List (String × Value)} (h : ∀ e ∈ entries, e.2.Plain room) :
    Written (Reader.members (room + 1)) (membersChars (Value.memberTexts entries))
      (Members.ofList entries) :=
  written_membersChars (fun _ => rfl) (taken_keepMember (fun e he => written_value (h e he)) []) rfl

theorem written_members {ms : Members} (h : ms.Plain room) :
    Written (Reader.members (room + 1)) (membersChars (Value.memberTexts ms)) ms := by
  have hwritten := written_unsorted h.2
  rwa [Members.ofList_of_sorted h.1] at hwritten

theorem faithful_members : Codec.members.Faithful where
  back hi h := by
    obtain ⟨inner, rfl, hplain⟩ := plain_of_readMembers hi h
    exact written_members hplain
  present _ _ _ := head?_membersChars _

/-! ## What may be missing -/

theorem value_of_option {read : Reader α} {a : α} (h : read.option room cs = .ok (some a, rest)) :
    read room (dropSpace cs) = .ok (a, rest) ∧ (dropSpace cs).head? ≠ some 'n' := by
  unfold Reader.option at h
  split at h
  · obtain ⟨-, hnone⟩ := ok_of_wordValue h
    simp at hnone
  · rename_i hn
    split at h
    · simp at h
    · rename_i hread
      obtain ⟨ha, rfl⟩ := Prod.mk.inj (Except.ok.inj h)
      obtain rfl := Option.some.inj ha
      refine ⟨hread, fun hhead => ?_⟩
      obtain ⟨more, hcs⟩ := List.head?_eq_some_iff.mp hhead
      exact hn more hcs

theorem written_option {read : Reader α} {text : List Char} {a : α}
    (h : Written (read room) text a) (hn : text.head? ≠ some 'n') :
    Written (read.option room) text (some a) where
  begins := h.begins
  back rest hr := by
    obtain ⟨c, more, htext, -, -⟩ := h.begins
    have hc : c ≠ 'n' := by
      rintro rfl
      exact hn (by rw [htext]; rfl)
    have hback := h.back rest hr
    have hdrop := h.dropSpace_eq rest
    rw [htext, List.cons_append] at hback hdrop ⊢
    rw [option_of_first hdrop, if_neg hc, hback]

theorem written_missing {read : Reader α} : Written (read.option room) nullChars none :=
  ⟨⟨'n', _, rfl, by decide⟩, fun _ _ => rfl⟩

/-! ## Fields -/

namespace Field

variable {β : Type} {c : Codec β}

/-- What a field comes to off an integral text, or as its declaration says without one. -/
def Yields (field : Field β) (room : Nat) (b : β) : Prop :=
  (∃ cs rest, Integral .outside cs ∧ field.read room cs = .ok (b, rest)) ∨
    field.absent = some b ∨ field.lacking = some b

section

variable {name : String} {b : β}

theorem yields_required (h : (required name c).Yields room b) :
    ∃ cs rest, Integral .outside cs ∧ c.read room cs = .ok (b, rest) := by
  rcases h with h | h | h
  · exact h
  · simp [required] at h
  · simp [required] at h

theorem yields_defaulted {default : β} (h : (defaulted name c default).Yields room b) :
    b = default ∨ ∃ cs rest, Integral .outside cs ∧ c.read room cs = .ok (b, rest) := by
  rcases h with h | h | h
  · exact .inr h
  · exact .inl (Option.some.inj h).symm
  · exact .inl (Option.some.inj h).symm

theorem yields_optional {b : Option β} (h : (optional name c).Yields room b) :
    b = none ∨ ∃ a cs rest, b = some a ∧ Integral .outside cs ∧ c.read room cs = .ok (a, rest) ∧
      (dropSpace cs).head? ≠ some 'n' := by
  rcases h with ⟨cs, rest, hi, h⟩ | h | h
  · cases b with
    | none => exact .inl rfl
    | some a =>
      obtain ⟨hread, hn⟩ := value_of_option h
      rw [← dropSpace_dropSpace] at hn
      exact .inr ⟨a, dropSpace cs, rest, rfl, integral_dropSpace hi, hread, hn⟩
  · exact .inl (Option.some.inj h).symm
  · exact .inl (Option.some.inj h).symm

end

/-- What a field yields is kept. -/
def Faithful (field : Field β) : Prop :=
  ∀ ⦃room : Nat⦄ ⦃b : β⦄, field.Yields room b → field.Kept room b

theorem faithful_required (name : String) (hc : c.Faithful) : (required name c).Faithful := by
  intro room b hyields
  obtain ⟨cs, rest, hi, h⟩ := yields_required hyields
  exact hc.back hi h

theorem faithful_defaulted (name : String) {default : β} (hc : c.Faithful)
    (hd : ∀ room, Written (c.read room) (c.write default) default) :
    (defaulted name c default).Faithful := by
  intro room b hyields
  obtain rfl | ⟨cs, rest, hi, h⟩ := yields_defaulted hyields
  · exact hd room
  · exact hc.back hi h

theorem faithful_zero (name expected : String) {bits : Nat} (hbits : 1 <<< bits ≤ UInt64.size) :
    (defaulted name (Codec.natural expected bits) 0).Faithful := by
  have hpos : 0 < 1 <<< bits := Nat.one_shiftLeft bits ▸ Nat.two_pow_pos bits
  exact faithful_defaulted name (faithful_natural hbits) (written_natural · hpos hbits)

theorem faithful_omitting (name : String) {default : β} {omits : β → Bool} (hc : c.Faithful)
    (ho : ∀ b, omits b = true ↔ b = default) : (omitting name c default omits).Faithful := by
  intro room b hyields
  have hyields : (defaulted name c default).Yields room b := hyields
  obtain rfl | ⟨cs, rest, hi, h⟩ := yields_defaulted hyields
  · unfold Kept omitting
    simp only [(ho b).mpr rfl, if_true]
  · exact kept_omitting name (ho b).mp (hc.back hi h)

theorem faithful_optional (name : String) (hc : c.Faithful) : (optional name c).Faithful := by
  intro room b hyields
  obtain rfl | ⟨a, cs, rest, rfl, hi, h, hn⟩ := yields_optional hyields
  · exact rfl
  · exact written_option (hc.back hi h) (hc.present hi h hn)

theorem faithful_optionalInObject (name : String) (hc : c.Faithful) :
    (optionalInObject name c).Faithful := by
  intro room b hyields
  refine faithful_optional name hc (hyields.imp_right fun h => h.imp_right fun hl => ?_)
  simp [optionalInObject] at hl

end Field

end LedgerClient.Json
