import LedgerClient.Json.Record
import LedgerClient.Proofs.Json.Completeness

/-!
# Literals that are written are read back

`Written read text a` says that `read` gets `a` off `text`, whatever stands behind it: a number has to
end there (`Ended`), everything else ends by itself. Strings come back character by character, since
each escape is read as the character that it was written for; numbers come back digit by digit.
-/

namespace LedgerClient.Json

/-- A reader gets a value back from its text, wherever the text ends. The text begins like a value,
without a blank in front. -/
structure Written {α : Type} (read : List Char → Step α) (text : List Char) (a : α) : Prop where
  begins : ∃ c more, text = c :: more ∧ isSpace c = false ∧ c ≠ ']'
  back : ∀ rest, Ended rest → read (text ++ rest) = .ok (a, rest)

theorem dropSpace_of_solid {c : Char} (h : isSpace c = false) (cs : List Char) :
    dropSpace (c :: cs) = c :: cs :=
  List.dropWhile_cons_of_neg (by simp [h])

theorem Written.dropSpace_eq {α : Type} {read : List Char → Step α} {text : List Char} {a : α}
    (h : Written read text a) (rest : List Char) : dropSpace (text ++ rest) = text ++ rest := by
  obtain ⟨c, more, rfl, hc, -⟩ := h.begins
  exact dropSpace_of_solid hc _

/-! ## Strings -/

theorem hexValue?_hexDigit {n : Nat} (h : n < 16) : hexValue? (hexDigit n) = some n := by
  have hall : ∀ n < 16, hexValue? (hexDigit n) = some n := by decide
  exact hall n h

theorem unicodeEscape_of_small {c : Char} (h : c.toNat < 0x20) (more : List Char) :
    unicodeEscape ('0' :: '0' :: hexDigit (c.toNat / 16) :: hexDigit (c.toNat % 16) :: more) =
      .ok (c, more) := by
  have hlen : ¬ Text.byteLength
      ('0' :: '0' :: hexDigit (c.toNat / 16) :: hexDigit (c.toNat % 16) :: more) < 4 := by
    have := length_le_byteLength
      ('0' :: '0' :: hexDigit (c.toNat / 16) :: hexDigit (c.toNat % 16) :: more)
    simp only [List.length_cons] at this
    omega
  have hzero : hexValue? '0' = some 0 := by decide
  have hhigh := hexValue?_hexDigit (show c.toNat / 16 < 16 by omega)
  have hlow := hexValue?_hexDigit (show c.toNat % 16 < 16 by omega)
  have hsum : ((0 * 16 + 0) * 16 + c.toNat / 16) * 16 + c.toNat % 16 = c.toNat := by omega
  have hread : hexEscape
      ('0' :: '0' :: hexDigit (c.toNat / 16) :: hexDigit (c.toNat % 16) :: more) =
        .ok (c.toNat, more) := by
    rw [hexEscape, if_neg hlen]
    simp only [hzero, hhigh, hlow, hsum]
  have hlone : ¬ (0xDC00 ≤ c.toNat ∧ c.toNat ≤ 0xDFFF) := by omega
  have hplain : c.toNat < 0xD800 ∨ 0xDFFF < c.toNat := by omega
  rw [unicodeEscape, hread]
  simp only [if_neg hlone, if_pos hplain, Char.ofNat_toNat]

theorem escapeChar_cases (c : Char) :
    (∃ e, e ≠ 'u' ∧ escaped? e = some c ∧ escapeChar c = ['\\', e]) ∨
      (c.toNat < 0x20 ∧ escapeChar c =
        ['\\', 'u', '0', '0', hexDigit (c.toNat / 16), hexDigit (c.toNat % 16)]) ∨
      (c ≠ '"' ∧ c ≠ '\\' ∧ ¬ c.toNat < 0x20 ∧ escapeChar c = [c]) := by
  have hletter {e : Char} {n : Nat} (h : c.toNat = n) (he : escaped? e = some (Char.ofNat n)) :
      escaped? e = some c := by rw [he, ← h, Char.ofNat_toNat]
  unfold escapeChar
  by_cases hquote : c = '"'
  · exact .inl ⟨'"', by decide, by rw [hquote]; rfl, if_pos hquote⟩
  rw [if_neg hquote]
  by_cases hslash : c = '\\'
  · exact .inl ⟨'\\', by decide, by rw [hslash]; rfl, if_pos hslash⟩
  rw [if_neg hslash]
  by_cases hback : c.toNat = 8
  · exact .inl ⟨'b', by decide, hletter hback rfl, if_pos hback⟩
  rw [if_neg hback]
  by_cases hfeed : c.toNat = 12
  · exact .inl ⟨'f', by decide, hletter hfeed rfl, if_pos hfeed⟩
  rw [if_neg hfeed]
  by_cases hline : c = '\n'
  · exact .inl ⟨'n', by decide, by rw [hline]; rfl, if_pos hline⟩
  rw [if_neg hline]
  by_cases hreturn : c = '\r'
  · exact .inl ⟨'r', by decide, by rw [hreturn]; rfl, if_pos hreturn⟩
  rw [if_neg hreturn]
  by_cases htab : c = '\t'
  · exact .inl ⟨'t', by decide, by rw [htab]; rfl, if_pos htab⟩
  rw [if_neg htab]
  by_cases hcontrol : c.toNat < 0x20
  · exact .inr (.inl ⟨hcontrol, if_pos hcontrol⟩)
  · exact .inr (.inr ⟨hquote, hslash, hcontrol, if_neg hcontrol⟩)

theorem readTextAfter_escapeChar (c b : Char) (bound taken more : List Char) :
    readTextAfter (b :: bound) taken (escapeChar c ++ more) =
      readTextAfter bound (c :: taken) more := by
  rcases escapeChar_cases c with ⟨e, hu, he, hc⟩ | ⟨hcontrol, hc⟩ | ⟨hquote, hslash, hcontrol, hc⟩
  · rw [hc, List.cons_append, List.cons_append, List.nil_append, readTextAfter,
      if_neg (by decide), if_pos rfl, escape_of_letter hu he]
  · rw [hc]
    simp only [List.cons_append, List.nil_append]
    rw [readTextAfter, if_neg (by decide), if_pos rfl, escape, unicodeEscape_of_small hcontrol]
  · rw [hc, List.cons_append, List.nil_append, readTextAfter, if_neg hquote, if_neg hslash,
      if_neg hcontrol]

theorem length_le_flatMap_escapeChar (cs : List Char) :
    cs.length ≤ (cs.flatMap escapeChar).length := by
  induction cs with
  | nil => exact Nat.le_refl _
  | cons c cs ih =>
    have hpos : 0 < (escapeChar c).length := by
      rcases escapeChar_cases c with ⟨e, -, -, hc⟩ | ⟨-, hc⟩ | ⟨-, -, -, hc⟩ <;> (rw [hc]; simp)
    simp only [List.flatMap_cons, List.length_append, List.length_cons]
    omega

theorem readTextAfter_escapeChars {bound : List Char} (taken cs rest : List Char)
    (hb : cs.length < bound.length) :
    readTextAfter bound taken (escapeChars cs ++ rest) = .ok (taken.reverse ++ cs, rest) := by
  induction cs generalizing bound taken with
  | nil =>
    obtain ⟨b, bound, rfl⟩ := List.exists_cons_of_length_pos (Nat.zero_lt_of_lt hb)
    simp [escapeChars, readTextAfter]
  | cons c cs ih =>
    obtain ⟨b, bound, rfl⟩ := List.exists_cons_of_length_pos (Nat.zero_lt_of_lt hb)
    have hsplit : escapeChars (c :: cs) ++ rest = escapeChar c ++ (escapeChars cs ++ rest) := by
      simp [escapeChars]
    rw [hsplit, readTextAfter_escapeChar, ih _ (Nat.lt_of_succ_lt_succ hb)]
    simp

theorem readText_escapeChars (cs rest : List Char) :
    readText (escapeChars cs ++ rest) = .ok (cs, rest) := by
  refine readTextAfter_escapeChars [] cs rest ?_
  have := length_le_flatMap_escapeChar cs
  simp only [escapeChars, List.length_append, List.length_cons]
  omega

theorem written_text (room : Nat) (s : String) : Written (Reader.text room) (textChars s) s where
  begins := ⟨'"', escapeChars s.toList, rfl, by decide⟩
  back rest _ := by
    rw [textChars, List.cons_append, Reader.text, atValue, dropSpace_of_solid (by decide)]
    simp only [if_pos, readText_escapeChars, String.ofList_toList]

theorem written_refined {α : Type} {parse : String → Except String α} (room : Nat) {s : String}
    {a : α} (h : parse s = .ok a) : Written (Reader.refined parse room) (textChars s) a where
  begins := (written_text room s).begins
  back rest hr := by
    rw [Reader.refined, (written_text room s).back rest hr]
    simp only [h]

theorem written_choice {α : Type} {known : List (String × α)} (room : Nat) {name : String} {a : α}
    (h : known.find? (·.1 == name) = some (name, a)) :
    Written (Reader.choice known room) (textChars name) a where
  begins := (written_text room name).begins
  back rest _ := by
    have hname : variantName known ('"' :: (escapeChars name.toList ++ rest)) = .ok (a, rest) := by
      rw [variantName, atValue, dropSpace_of_solid (by decide)]
      simp only [if_pos, readText_escapeChars, pick, String.ofList_toList, h]
    rw [textChars, List.cons_append, Reader.choice, atValue, dropSpace_of_solid (by decide)]
    simp only [if_pos, hname]

/-! ## Words -/

theorem written_bool (room : Nat) (b : Bool) : Written (Reader.bool room) (boolChars b) b where
  begins := by cases b <;> exact ⟨_, _, rfl, by decide⟩
  back rest _ := by cases b <;> rfl

/-! ## Numbers -/

theorem digit_digitChar {d : Nat} (h : d < 10) :
    isDigit (Nat.digitChar d) = true ∧ digitValue (Nat.digitChar d) = d := by
  have hall : ∀ d < 10, isDigit (Nat.digitChar d) = true ∧ digitValue (Nat.digitChar d) = d := by
    decide
  exact hall d h

theorem natChars_of_le {n : Nat} (h : 10 ≤ n) :
    natChars n = natChars (n / 10) ++ [Nat.digitChar (n % 10)] :=
  Nat.toDigits_of_base_le (by decide) h

theorem natChars_of_lt {n : Nat} (h : n < 10) : natChars n = [Nat.digitChar n] :=
  Nat.toDigits_of_lt_base h

theorem isDigit_of_mem_natChars {n : Nat} {c : Char} (h : c ∈ natChars n) : isDigit c = true := by
  induction n using Nat.strongRecOn with
  | ind n ih =>
    by_cases hn : n < 10
    · rw [natChars_of_lt hn, List.mem_singleton] at h
      rw [h]
      exact (digit_digitChar hn).1
    · rw [natChars_of_le (by omega), List.mem_append, List.mem_singleton] at h
      rcases h with h | rfl
      · exact ih (n / 10) (by omega) h
      · exact (digit_digitChar (by omega)).1

theorem exists_natChars (n : Nat) : ∃ c more, natChars n = c :: more ∧ (c = '0' → n = 0) := by
  induction n using Nat.strongRecOn with
  | ind n ih =>
    by_cases hn : n < 10
    · refine ⟨_, _, natChars_of_lt hn, ?_⟩
      have hall : ∀ n < 10, Nat.digitChar n = '0' → n = 0 := by decide
      exact hall n hn
    · obtain ⟨c, more, hc, hzero⟩ := ih (n / 10) (by omega)
      refine ⟨c, more ++ [Nat.digitChar (n % 10)], ?_, ?_⟩
      · rw [natChars_of_le (by omega), hc, List.cons_append]
      · intro h
        have := hzero h
        omega

theorem foldl_whole_natChars {n : Nat} (h : n < UInt64.size) :
    (natChars n).foldl Significand.whole .zero = ⟨n, 0, false⟩ := by
  have htake (v d : Nat) (hd : d < 10) (hv : v * 10 + d < UInt64.size) :
      Significand.whole ⟨v, 0, false⟩ (Nat.digitChar d) = ⟨v * 10 + d, 0, false⟩ := by
    simp only [Significand.whole, (digit_digitChar hd).2, true_and, if_pos hv]
  induction n using Nat.strongRecOn with
  | ind n ih =>
    by_cases hn : n < 10
    · have hfirst := htake 0 n hn (by omega)
      rw [Nat.zero_mul, Nat.zero_add] at hfirst
      rw [natChars_of_lt hn, List.foldl_cons, List.foldl_nil]
      exact hfirst
    · have hsplit : n / 10 * 10 + n % 10 = n := by omega
      rw [natChars_of_le (by omega), List.foldl_append, ih (n / 10) (by omega) (by omega),
        List.foldl_cons, List.foldl_nil, htake _ _ (by omega) (by omega), hsplit]

theorem digitsOf_natChars {rest : List Char} (n : Nat) (hr : Ended rest) :
    digitsOf (natChars n ++ rest) = natChars n ∧ afterDigits (natChars n ++ rest) = rest := by
  have hall : ∀ c ∈ natChars n, isDigit c = true := fun c hc => isDigit_of_mem_natChars hc
  constructor
  · rw [digitsOf, List.takeWhile_append_of_pos hall]
    have hnone : rest.takeWhile isDigit = [] := hr.digitsOf_eq
    rw [hnone, List.append_nil]
  · rw [afterDigits, List.dropWhile_append_of_pos hall]
    exact afterDigits_of_digitsOf hr.digitsOf_eq

theorem readAfterWhole_of_ended {negative : Bool} {s : Significand} {rest : List Char}
    (hr : Ended rest) : readAfterWhole negative s rest = wholeNumber negative s rest := by
  unfold readAfterWhole
  split
  · exact absurd rfl (hr _ _ rfl).2.1
  · exact absurd rfl (hr _ _ rfl).2.2.1
  · exact absurd rfl (hr _ _ rfl).2.2.2
  · rfl

theorem readUnsigned_natChars {n : Nat} {rest : List Char} (negative : Bool)
    (h : n < UInt64.size) (hr : Ended rest) :
    readUnsigned negative (natChars n ++ rest) = wholeNumber negative ⟨n, 0, false⟩ rest := by
  obtain ⟨c, more, hc, hzero⟩ := exists_natChars n
  have hdigit : isDigit c = true := isDigit_of_mem_natChars (hc ▸ List.mem_cons_self)
  by_cases hz : c = '0'
  · -- zero is the only number that begins with a zero
    obtain rfl := hzero hz
    have hzero : natChars 0 = ['0'] := rfl
    rw [hzero, List.cons_append, List.nil_append, readUnsigned, if_pos rfl,
      if_pos hr.digitsOf_eq, readAfterWhole_of_ended hr]
    rfl
  · obtain ⟨hdigits, hafter⟩ := digitsOf_natChars n hr
    have hfold := foldl_whole_natChars h
    rw [hc, List.cons_append] at hdigits hafter ⊢
    rw [readUnsigned, if_neg hz, if_pos hdigit, hdigits, hafter, ← hc, hfold,
      readAfterWhole_of_ended hr]

theorem readNumber_intChars {i : Int} {rest : List Char} (hlow : -9223372036854775808 ≤ i)
    (hhigh : i < 18446744073709551616) (hr : Ended rest) :
    readNumber (intChars i ++ rest) = .ok (.int i, rest) := by
  cases i with
  | ofNat n =>
    obtain ⟨c, more, hc, -⟩ := exists_natChars n
    have hdigit : isDigit c = true := isDigit_of_mem_natChars (hc ▸ List.mem_cons_self)
    have hsize : n < UInt64.size := by
      have : (n : Int) < 18446744073709551616 := hhigh
      simp only [UInt64.size]
      omega
    have hread := readUnsigned_natChars false hsize hr
    rw [intChars]
    rw [hc, List.cons_append] at hread ⊢
    have hminus : c ≠ '-' := by
      rintro rfl
      exact absurd hdigit (by decide)
    rw [readNumber_of_ne hminus, hread, wholeNumber]
    rfl
  | negSucc n =>
    have hn : n + 1 ≤ 1 <<< 63 := by
      have : -9223372036854775808 ≤ -((n : Int) + 1) := by
        rw [← Int.negSucc_eq]
        exact hlow
      have hshift : (1 <<< 63 : Nat) = 9223372036854775808 := rfl
      omega
    have hsize : n + 1 < UInt64.size := Nat.lt_of_le_of_lt hn (by decide)
    have hbounds : ¬ (n + 1 = 0 ∨ 1 <<< 63 < n + 1) := by omega
    rw [intChars, List.cons_append, readNumber, readUnsigned_natChars true hsize hr, wholeNumber]
    simp only [Bool.false_eq_true, if_false, if_true, if_neg hbounds]
    rfl

theorem exists_intChars (i : Int) :
    ∃ c more, intChars i = c :: more ∧ (c = '-' ∨ isDigit c = true) := by
  cases i with
  | ofNat n =>
    obtain ⟨c, more, hc, -⟩ := exists_natChars n
    exact ⟨c, more, hc, .inr (isDigit_of_mem_natChars (hc ▸ List.mem_cons_self))⟩
  | negSucc n => exact ⟨'-', natChars (n + 1), rfl, .inl rfl⟩

theorem solid_of_digit {c : Char} (h : c = '-' ∨ isDigit c = true) :
    isSpace c = false ∧ c ≠ ']' :=
  ⟨isSpace_of_digit h, ne_of_digit h (by decide)⟩

theorem written_integer {expected : String} {low high i : Int} (room : Nat) (hlow : low ≤ i)
    (hhigh : i ≤ high) (hmin : -9223372036854775808 ≤ i) (hmax : i < 18446744073709551616) :
    Written (Reader.integer expected low high room) (intChars i) i := by
  obtain ⟨c, more, hc, hdigit⟩ := exists_intChars i
  refine ⟨⟨c, more, hc, solid_of_digit hdigit⟩, fun rest hr => ?_⟩
  have hread := readNumber_intChars hmin hmax hr
  rw [hc, List.cons_append] at hread ⊢
  rw [Reader.integer, atValue, dropSpace_of_solid (solid_of_digit hdigit).1]
  simp only [if_pos hdigit, hread, if_pos (And.intro hlow hhigh)]

theorem written_natural {expected : String} {bits n : Nat} (room : Nat) (hn : n < 1 <<< bits)
    (hbits : 1 <<< bits ≤ UInt64.size) :
    Written ((Codec.natural expected bits).read room) (natChars n) n := by
  have hmax : n < UInt64.size := Nat.lt_of_lt_of_le hn hbits
  simp only [UInt64.size] at hmax
  have hinteger : Written (Reader.integer expected 0 ((1 <<< bits : Nat) - 1) room)
      (intChars n) n :=
    written_integer room (Int.natCast_nonneg n) (by omega) (by omega) (by omega)
  refine ⟨hinteger.begins, fun rest hr => ?_⟩
  have hback := hinteger.back rest hr
  rw [show intChars n = natChars n from rfl] at hback
  simp only [Codec.natural, hback, Int.toNat_natCast]

end LedgerClient.Json
