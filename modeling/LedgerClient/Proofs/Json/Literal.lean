import LedgerClient.Proofs.Json.Grammar
import Mathlib.Data.List.DropRight

/-!
# What is read as a literal is one

Words, strings and numbers, the values that have no parts. Whatever `readText` and `skipText` pass
over is the rest of a string. Reading a number leaves the same text as passing over it
(`skipNumber_of_readNumber`), and what is passed over is a number.
-/

namespace LedgerClient.Json

/-! ## Blanks and words -/

variable {cs rest : List Char}

theorem dropSpace_dropSpace (cs : List Char) : dropSpace (dropSpace cs) = dropSpace cs :=
  List.dropWhile_idempotent isSpace cs

theorem dropSpace_cons {c : Char} (h : dropSpace cs = c :: rest) :
    dropSpace (c :: rest) = c :: rest := by
  rw [← h, dropSpace_dropSpace]

theorem eq_of_word {letters : List Char} (h : word letters cs = .ok rest) :
    cs = letters ++ rest := by
  induction letters generalizing cs with
  | nil => exact Except.ok.inj h
  | cons l letters ih =>
    cases cs with
    | nil => cases h
    | cons c cs =>
      rw [word] at h
      split at h
      · rename_i hc
        rw [ih h, hc, List.cons_append]
      · cases h

theorem stands_of_word {c : Char} {letters : List Char}
    (hw : c :: letters ∈ words)
    (h : word letters cs = .ok rest) : Stands (c :: cs) rest := by
  rw [eq_of_word h]
  exact .word hw

/-! ## Strings -/

theorem isHexDigit_of_hexValue? {c : Char} {n : Nat} (h : hexValue? c = some n) : IsHexDigit c := by
  simp only [hexValue?] at h
  simp only [IsHexDigit, isDigit, Bool.and_eq_true, decide_eq_true_eq, Char.le_def,
    UInt32.le_iff_toNat_le, Char.toNat_val]
  split at h
  · rename_i hc
    exact .inl hc
  · split at h
    · rename_i hc
      exact .inr (.inr hc)
    · split at h
      · rename_i hc
        exact .inr (.inl hc)
      · cases h

theorem quoted_of_hexEscape {behind : List Char} {n : Nat} (h : hexEscape cs = .ok (n, behind))
    (hq : Quoted behind rest) : Quoted ('\\' :: 'u' :: cs) rest := by
  unfold hexEscape at h
  split at h
  · cases h
  · split at h
    · split at h
      · rename_i ha hb hc hd
        obtain ⟨-, rfl⟩ := Prod.mk.inj (Except.ok.inj h)
        exact .unicode (isHexDigit_of_hexValue? ha) (isHexDigit_of_hexValue? hb)
          (isHexDigit_of_hexValue? hc) (isHexDigit_of_hexValue? hd) hq
      · cases h
    · cases h

theorem quoted_of_unicodeEscape {behind : List Char} {e : Char}
    (h : unicodeEscape cs = .ok (e, behind)) (hq : Quoted behind rest) :
    Quoted ('\\' :: 'u' :: cs) rest := by
  rw [unicodeEscape] at h
  split at h
  · cases h
  · rename_i n after hn
    refine quoted_of_hexEscape hn ?_
    split at h
    · cases h
    · split at h
      · obtain ⟨-, rfl⟩ := Prod.mk.inj (Except.ok.inj h)
        exact hq
      · -- a high surrogate has to be followed by another escape
        split at h
        · cases h
        · cases h
        · split at h
          · cases h
          · rename_i hm
            split at h
            · cases h
            · obtain ⟨-, rfl⟩ := Prod.mk.inj (Except.ok.inj h)
              exact quoted_of_hexEscape hm hq
        · cases h
        · cases h

theorem quoted_of_escaped? {c e : Char} (h : escaped? c = some e) (hq : Quoted cs rest) :
    Quoted ('\\' :: c :: cs) rest := by
  refine .escape ?_ hq
  by_contra hc
  simp only [List.mem_cons, List.not_mem_nil, or_false, not_or] at hc
  simp [escaped?, hc] at h

theorem quoted_of_escape {behind : List Char} {e : Char} (h : escape cs = .ok (e, behind))
    (hq : Quoted behind rest) : Quoted ('\\' :: cs) rest := by
  unfold escape at h
  split at h
  · cases h
  · exact quoted_of_unicodeEscape h hq
  · split at h
    · rename_i he
      obtain ⟨-, rfl⟩ := Prod.mk.inj (Except.ok.inj h)
      exact quoted_of_escaped? he hq
    · cases h

theorem escape_of_letter {c e : Char} (hu : e ≠ 'u') (h : escaped? e = some c) (more : List Char) :
    escape (e :: more) = .ok (c, more) := by
  unfold escape
  split
  · rename_i hnil
    simp at hnil
  · rename_i heq
    exact absurd (List.cons.inj heq).1 hu
  · rename_i heq
    obtain ⟨rfl, rfl⟩ := List.cons.inj heq
    simp only [h]

theorem quoted_of_readTextAfter {bound taken s : List Char}
    (h : readTextAfter bound taken cs = .ok (s, rest)) : Quoted cs rest := by
  induction bound generalizing taken cs with
  | nil => cases cs <;> cases h
  | cons _ bound ih =>
    cases cs with
    | nil => cases h
    | cons c cs =>
      rw [readTextAfter] at h
      split at h
      · rename_i hc
        obtain ⟨-, rfl⟩ := Prod.mk.inj (Except.ok.inj h)
        exact hc ▸ .close
      · rename_i hquote
        split at h
        · rename_i hc
          split at h
          · cases h
          · rename_i he
            exact hc ▸ quoted_of_escape he (ih h)
        · rename_i hslash
          split at h
          · cases h
          · rename_i hcontrol
            exact .plain hquote hslash (Nat.le_of_not_lt hcontrol) (ih h)

theorem quoted_of_readText {s : List Char} (h : readText cs = .ok (s, rest)) : Quoted cs rest :=
  quoted_of_readTextAfter h

theorem quoted_of_skipEscape {behind : List Char} (h : skipEscape cs = .ok behind)
    (hq : Quoted behind rest) : Quoted ('\\' :: cs) rest := by
  unfold skipEscape at h
  split at h
  · cases h
  · rename_i cs
    cases hn : hexEscape cs with
    | error stop => simp [hn, Except.map] at h
    | ok read =>
      obtain ⟨n, after⟩ := read
      obtain rfl : after = behind := by simpa [hn, Except.map] using h
      exact quoted_of_hexEscape hn hq
  · split at h
    · rename_i he
      exact Except.ok.inj h ▸ quoted_of_escaped? he (Except.ok.inj h ▸ hq)
    · cases h

theorem quoted_of_skipTextWithin {bound : List Char} (h : skipTextWithin bound cs = .ok rest) :
    Quoted cs rest := by
  induction bound generalizing cs with
  | nil => cases cs <;> cases h
  | cons _ bound ih =>
    cases cs with
    | nil => cases h
    | cons c cs =>
      rw [skipTextWithin] at h
      split at h
      · rename_i hc
        exact Except.ok.inj h ▸ hc ▸ .close
      · rename_i hquote
        split at h
        · rename_i hc
          split at h
          · cases h
          · rename_i he
            exact hc ▸ quoted_of_skipEscape he (ih h)
        · rename_i hslash
          split at h
          · cases h
          · rename_i hcontrol
            exact .plain hquote hslash (Nat.le_of_not_lt hcontrol) (ih h)

theorem quoted_of_skipText (h : skipText cs = .ok rest) : Quoted cs rest :=
  quoted_of_skipTextWithin h

/-! ## Numbers -/

theorem digits_of_ne_nil (h : digitsOf cs ≠ []) : Digits cs (afterDigits cs) := by
  induction cs with
  | nil => exact absurd rfl h
  | cons c cs ih =>
    have hc : isDigit c = true := by
      by_contra hc
      exact h (List.takeWhile_cons_of_neg hc)
    rw [afterDigits, List.dropWhile_cons_of_pos hc]
    by_cases hcs : digitsOf cs = []
    · -- no digit follows, so nothing is dropped
      have hd : cs.dropWhile isDigit = cs := by
        have hsplit := List.takeWhile_append_dropWhile (p := isDigit) (l := cs)
        rwa [show cs.takeWhile isDigit = [] from hcs, List.nil_append] at hsplit
      rw [hd]
      exact .last hc
    · exact .more hc (ih hcs)

theorem exponent_of_skipExponent {e : Char} (he : e = 'e' ∨ e = 'E')
    (h : skipExponent cs = .ok rest) : Exponent (e :: cs) rest := by
  have hdigits {digits : List Char}
      (h : (if digitsOf digits = [] then failNext .invalidNumber digits
        else .ok (afterDigits digits)) = .ok rest) : Digits digits rest := by
    split at h
    · cases h
    · rename_i hd
      exact Except.ok.inj h ▸ digits_of_ne_nil hd
  unfold skipExponent at h
  split at h
  · exact .signed he (.inr rfl) (hdigits h)
  · exact .signed he (.inl rfl) (hdigits h)
  · exact .plain he (hdigits h)

theorem fraction_of_skipFraction (h : skipFraction cs = .ok rest) :
    ∃ fraction, Fraction ('.' :: cs) fraction ∧ Exponent fraction rest := by
  rw [skipFraction] at h
  split at h
  · cases h
  · rename_i hd
    refine ⟨afterDigits cs, .point (digits_of_ne_nil hd), ?_⟩
    split at h
    · rename_i ha
      exact ha ▸ exponent_of_skipExponent (.inl rfl) h
    · rename_i ha
      exact ha ▸ exponent_of_skipExponent (.inr rfl) h
    · exact Except.ok.inj h ▸ .missing

theorem fraction_of_skipAfterWhole (h : skipAfterWhole cs = .ok rest) :
    ∃ fraction, Fraction cs fraction ∧ Exponent fraction rest := by
  unfold skipAfterWhole at h
  split at h
  · exact fraction_of_skipFraction h
  · exact ⟨_, .missing, exponent_of_skipExponent (.inl rfl) h⟩
  · exact ⟨_, .missing, exponent_of_skipExponent (.inr rfl) h⟩
  · exact ⟨_, .missing, Except.ok.inj h ▸ .missing⟩

theorem whole_of_skipUnsigned (h : skipUnsigned cs = .ok rest) :
    ∃ whole fraction, Whole cs whole ∧ Fraction whole fraction ∧ Exponent fraction rest := by
  cases cs with
  | nil => cases h
  | cons c cs =>
    rw [skipUnsigned] at h
    split at h
    · rename_i hc
      split at h
      · obtain ⟨fraction, hf, he⟩ := fraction_of_skipAfterWhole h
        exact ⟨cs, fraction, hc ▸ .zero, hf, he⟩
      · cases h
    · rename_i hzero
      split at h
      · rename_i hc
        obtain ⟨fraction, hf, he⟩ := fraction_of_skipAfterWhole h
        have hd : Digits (c :: cs) (afterDigits (c :: cs)) :=
          digits_of_ne_nil (by simp [digitsOf, hc])
        rw [afterDigits, List.dropWhile_cons_of_pos hc] at hd
        exact ⟨afterDigits cs, fraction, .digits hzero hd, hf, he⟩
      · cases h

theorem numeral_of_skipNumber (h : skipNumber cs = .ok rest) : Numeral cs rest := by
  unfold skipNumber at h
  split at h
  · obtain ⟨whole, fraction, hw, hf, he⟩ := whole_of_skipUnsigned h
    exact .negative hw hf he
  · obtain ⟨whole, fraction, hw, hf, he⟩ := whole_of_skipUnsigned h
    exact .positive hw hf he

/-! Reading a number leaves the same text as passing over it. -/

section

variable {negative : Bool} {s : Significand} {n : Number} {behind : List Char}

theorem rest_of_double {scale : Int} (h : double negative s scale behind = .ok (n, rest)) :
    rest = behind := by
  rw [double] at h
  split at h
  · exact (Prod.mk.inj (Except.ok.inj h)).2.symm
  · cases h

theorem skipExponent_of_readExponent (h : readExponent negative s cs = .ok (n, rest)) :
    skipExponent cs = .ok rest := by
  unfold readExponent at h
  split at h
  rename_i down digits hsign
  have hd : digitsOf digits ≠ [] ∧ rest = afterDigits digits := by
    split at h
    · cases h
    · split at h
      · rename_i hc
        refine ⟨by simp [digitsOf, hc], ?_⟩
        split at h
        · exact rest_of_double h
        · split at h
          · cases h
          · exact rest_of_double h
      · cases h
  -- both take the same sign off
  have hskip : skipExponent cs =
      if digitsOf digits = [] then failNext .invalidNumber digits
      else .ok (afterDigits digits) := by
    unfold skipExponent
    split at hsign <;> obtain ⟨-, rfl⟩ := Prod.mk.inj hsign
    · rfl
    · rfl
    · rfl
  rw [hskip, if_neg hd.1, hd.2]

theorem skipFraction_of_readFraction (h : readFraction negative s cs = .ok (n, rest)) :
    skipFraction cs = .ok rest := by
  rw [readFraction] at h
  rw [skipFraction]
  split at h
  · split at h <;> cases h
  · rename_i hd
    rw [if_neg hd]
    simp only at h
    split at h
    · exact skipExponent_of_readExponent h
    · exact skipExponent_of_readExponent h
    · rw [rest_of_double h]

theorem rest_of_wholeNumber (h : wholeNumber negative s behind = .ok (n, rest)) :
    rest = behind := by
  rw [wholeNumber] at h
  split at h
  · exact rest_of_double h
  · split at h
    · split at h
      · exact rest_of_double h
      · exact (Prod.mk.inj (Except.ok.inj h)).2.symm
    · exact (Prod.mk.inj (Except.ok.inj h)).2.symm

theorem skipAfterWhole_of_readAfterWhole (h : readAfterWhole negative s cs = .ok (n, rest)) :
    skipAfterWhole cs = .ok rest := by
  unfold readAfterWhole at h
  split at h
  · exact skipFraction_of_readFraction h
  · exact skipExponent_of_readExponent h
  · exact skipExponent_of_readExponent h
  · rename_i hpoint hlower hupper
    obtain rfl := rest_of_wholeNumber h
    unfold skipAfterWhole
    split
    · exact absurd rfl (hpoint _)
    · exact absurd rfl (hlower _)
    · exact absurd rfl (hupper _)
    · rfl

theorem skipUnsigned_of_readUnsigned (h : readUnsigned negative cs = .ok (n, rest)) :
    skipUnsigned cs = .ok rest := by
  cases cs with
  | nil => cases h
  | cons c cs =>
    rw [readUnsigned] at h
    rw [skipUnsigned]
    split at h
    · rename_i hc
      rw [if_pos hc]
      split at h
      · rename_i hd
        rw [if_pos hd]
        exact skipAfterWhole_of_readAfterWhole h
      · cases h
    · rename_i hzero
      rw [if_neg hzero]
      split at h
      · rename_i hc
        rw [if_pos hc]
        rw [afterDigits, List.dropWhile_cons_of_pos hc] at h
        exact skipAfterWhole_of_readAfterWhole h
      · cases h

theorem readNumber_of_ne {c : Char} (hc : c ≠ '-') (cs : List Char) :
    readNumber (c :: cs) = readUnsigned false (c :: cs) := by
  unfold readNumber
  split
  · rename_i hminus
    exact absurd (List.cons.inj hminus).1 hc
  · rfl

theorem skipNumber_of_readNumber (h : readNumber cs = .ok (n, rest)) :
    skipNumber cs = .ok rest := by
  unfold readNumber at h
  unfold skipNumber
  split at h
  · exact skipUnsigned_of_readUnsigned h
  · exact skipUnsigned_of_readUnsigned h

theorem numeral_of_readNumber (h : readNumber cs = .ok (n, rest)) : Numeral cs rest :=
  numeral_of_skipNumber (skipNumber_of_readNumber h)

end

end LedgerClient.Json
