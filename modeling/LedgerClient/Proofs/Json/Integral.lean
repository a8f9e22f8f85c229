import LedgerClient.Proofs.Json.Written

/-!
# Texts whose numbers are integers

`literals` are the numbers that are written in a text, found without reading it as JSON: a number
begins with a digit or a minus outside of strings and goes on as long as there are characters of
numbers. A text is `Integral` if all of them stay integers of 64 bits. Behind a value of such a text
the rest is integral as well (`integral_of_stands`), so whatever number a reader gets to in it is
read as an integer (`int_of_readNumber`).
-/

namespace LedgerClient.Json

/-! ## The numbers of a text -/

/-- Whether a number may go on with a character. -/
def isNumeric (c : Char) : Bool :=
  isDigit c || c == '.' || c == 'e' || c == 'E' || c == '+' || c == '-'

/-- The number that digits are written for. -/
def digitsValue (digits : List Char) : Nat := digits.foldl (fun n c => n * 10 + digitValue c) 0

/-- Whether a number is read as an integer of 64 bits, which is signed only behind a minus. One does
not stay an integer that has a fraction or an exponent, and neither does `-0`. -/
def staysInteger : List Char → Bool
  | '-' :: digits =>
    digits.all isDigit && 0 < digitsValue digits && digitsValue digits ≤ 1 <<< 63
  | digits => digits.all isDigit && digitsValue digits < UInt64.size

/-- What a character of a text may belong to. -/
inductive Zone
  | outside
  | number
  | string
  /-- Behind a backslash in a string. -/
  | escape
deriving DecidableEq

namespace Zone

/-- The zone behind a character. -/
def behind (zone : Zone) (c : Char) : Zone :=
  match zone with
  | .outside => if c = '-' ∨ isDigit c then .number else if c = '"' then .string else .outside
  | .number => if isNumeric c then .number else if c = '"' then .string else .outside
  | .string => if c = '"' then .outside else if c = '\\' then .escape else .string
  | .escape => .string

end Zone

/-- The numbers of a text whose first character stands in a zone. -/
def literals : Zone → List Char → List (List Char)
  | _, [] => []
  | zone, c :: cs =>
    if zone = .outside ∧ (c = '-' ∨ isDigit c) then
      (c :: cs.takeWhile isNumeric) :: literals .number cs
    else literals (zone.behind c) cs

/-- All numbers of a text stay integers. -/
def Integral (zone : Zone) (cs : List Char) : Prop := ∀ l ∈ literals zone cs, staysInteger l = true

variable {zone : Zone} {c : Char} {cs rest : List Char}

theorem Integral.behind (h : Integral zone (c :: cs)) : Integral (zone.behind c) cs := by
  unfold Integral literals at h
  split at h
  · rename_i hc
    obtain ⟨rfl, hc⟩ := hc
    rw [Zone.behind, if_pos hc]
    exact fun l hl => h l (List.mem_cons_of_mem _ hl)
  · exact h

theorem Integral.first (h : Integral .outside (c :: cs)) (hc : c = '-' ∨ isDigit c = true) :
    staysInteger (c :: cs.takeWhile isNumeric) = true := by
  unfold Integral literals at h
  rw [if_pos ⟨rfl, hc⟩] at h
  exact h _ List.mem_cons_self

theorem isNumeric_of_first (hc : c = '-' ∨ isDigit c = true) : isNumeric c = true := by
  rcases hc with rfl | hc
  · rfl
  · simp [isNumeric, hc]

theorem Integral.number (h : Integral .outside cs) : Integral .number cs := by
  induction cs with
  | nil => exact h
  | cons c cs ih =>
    have hbehind := h.behind
    have hcons : literals .number (c :: cs) = literals (Zone.number.behind c) cs := by
      rw [literals, if_neg (by simp)]
    unfold Integral
    rw [hcons]
    unfold Zone.behind at hbehind ⊢
    by_cases hc : c = '-' ∨ isDigit c = true
    · rw [if_pos hc] at hbehind
      simp only [if_pos (isNumeric_of_first hc)]
      exact hbehind
    · rw [if_neg hc] at hbehind
      by_cases hn : isNumeric c = true
      · have hquote : c ≠ '"' := by
          rintro rfl
          exact absurd hn (by decide)
        rw [if_neg hquote] at hbehind
        simp only [if_pos hn]
        exact ih hbehind
      · simp only [if_neg hn]
        exact hbehind

/-! ## The parts of a text -/

theorem behind_outside (hc : isNumeric c = false) (hq : c ≠ '"') :
    Zone.outside.behind c = .outside ∧ Zone.number.behind c = .outside := by
  have hfirst : ¬ (c = '-' ∨ isDigit c = true) := by
    intro h
    rw [isNumeric_of_first h] at hc
    exact absurd hc (by decide)
  simp only [Zone.behind, if_neg hfirst, hc, if_neg hq, Bool.false_eq_true, if_false, and_self]

theorem not_numeric_of_isSpace (h : isSpace c = true) : isNumeric c = false ∧ c ≠ '"' := by
  simp only [isSpace, Bool.or_eq_true, beq_iff_eq] at h
  rcases h with ((rfl | rfl) | rfl) | rfl <;> decide

theorem integral_dropSpace (h : Integral .outside cs) : Integral .outside (dropSpace cs) := by
  induction cs with
  | nil => exact h
  | cons c cs ih =>
    by_cases hc : isSpace c = true
    · obtain ⟨hn, hq⟩ := not_numeric_of_isSpace hc
      rw [dropSpace, List.dropWhile_cons_of_pos hc]
      have hbehind := h.behind
      rw [(behind_outside hn hq).1] at hbehind
      exact ih hbehind
    · rwa [dropSpace, List.dropWhile_cons_of_neg hc]

theorem Integral.number_dropSpace (h : Integral .number cs) : Integral .number (dropSpace cs) := by
  cases cs with
  | nil => exact h
  | cons c cs =>
    by_cases hc : isSpace c = true
    · obtain ⟨hn, hq⟩ := not_numeric_of_isSpace hc
      have hbehind := h.behind
      rw [(behind_outside hn hq).2] at hbehind
      rw [dropSpace, List.dropWhile_cons_of_pos hc]
      exact (integral_dropSpace hbehind).number
    · rwa [dropSpace, List.dropWhile_cons_of_neg hc]

theorem Integral.separated (h : Integral .number cs) (hcs : dropSpace cs = c :: rest)
    (hc : c ∈ [',', ':', ']', '\x7d']) : Integral .outside rest := by
  have hsep : isNumeric c = false ∧ c ≠ '"' := by
    simp only [List.mem_cons, List.not_mem_nil, or_false] at hc
    rcases hc with rfl | rfl | rfl | rfl <;> decide
  have hdrop := h.number_dropSpace
  rw [hcs] at hdrop
  have hrest := hdrop.behind
  rwa [(behind_outside hsep.1 hsep.2).2] at hrest

theorem integral_of_plain (hquote : c ≠ '"') (hslash : c ≠ '\\') (h : Integral .string (c :: cs)) :
    Integral .string cs := by
  have hbehind := h.behind
  rwa [Zone.behind, if_neg hquote, if_neg hslash] at hbehind

theorem integral_of_hexDigit (hc : IsHexDigit c) (h : Integral .string (c :: cs)) :
    Integral .string cs := by
  refine integral_of_plain ?_ ?_ h
  · rintro rfl
    exact absurd hc (by unfold IsHexDigit; decide)
  · rintro rfl
    exact absurd hc (by unfold IsHexDigit; decide)

theorem integral_of_quoted (h : Quoted cs rest) (hi : Integral .string cs) :
    Integral .outside rest := by
  induction h with
  | close => exact hi.behind
  | plain hquote hslash _ _ ih => exact ih (integral_of_plain hquote hslash hi)
  | escape _ _ ih => exact ih hi.behind.behind
  | unicode ha hb hc hd _ ih =>
    have hdigits : Integral .string _ := hi.behind.behind
    exact ih (integral_of_hexDigit hd (integral_of_hexDigit hc
      (integral_of_hexDigit hb (integral_of_hexDigit ha hdigits))))

theorem integral_of_numeric (hc : isNumeric c = true) (h : Integral .number (c :: cs)) :
    Integral .number cs := by
  have hbehind := h.behind
  rwa [Zone.behind, if_pos hc] at hbehind

theorem integral_of_digits (h : Digits cs rest) (hi : Integral .number cs) :
    Integral .number rest := by
  induction h with
  | last hc => exact integral_of_numeric (isNumeric_of_first (.inr hc)) hi
  | more hc _ ih => exact ih (integral_of_numeric (isNumeric_of_first (.inr hc)) hi)

theorem integral_of_numeral (h : Numeral cs rest) (hi : Integral .number cs) :
    Integral .number rest := by
  have hunsigned {cs whole fraction rest : List Char} (hw : Whole cs whole)
      (hf : Fraction whole fraction) (he : Exponent fraction rest) (hi : Integral .number cs) :
      Integral .number rest := by
    have hwhole : Integral .number whole := by
      cases hw with
      | zero => exact integral_of_numeric (by decide) hi
      | digits _ hd => exact integral_of_digits hd hi
    have hfraction : Integral .number fraction := by
      cases hf with
      | missing => exact hwhole
      | point hd => exact integral_of_digits hd (integral_of_numeric (by decide) hwhole)
    cases he with
    | missing => exact hfraction
    | plain he hd =>
      refine integral_of_digits hd (integral_of_numeric ?_ hfraction)
      rcases he with rfl | rfl <;> decide
    | signed he hs hd =>
      refine integral_of_digits hd (integral_of_numeric ?_ (integral_of_numeric ?_ hfraction))
      · rcases hs with rfl | rfl <;> decide
      · rcases he with rfl | rfl <;> decide
  cases h with
  | positive hw hf he => exact hunsigned hw hf he hi
  | negative hw hf he => exact hunsigned hw hf he (integral_of_numeric (by decide) hi)

/-- The zone in front of the first value of a container, or behind one of its values. -/
def Zone.inside (first : Bool) : Zone := if first then .outside else .number

theorem Integral.inside {first : Bool} (h : Integral (Zone.inside first) cs) :
    Integral .number cs := by
  cases first with
  | true => exact Integral.number h
  | false => exact h

theorem integral_of_separated {first : Bool} (h : Separated first cs rest)
    (hi : Integral (Zone.inside first) cs) : Integral .outside rest := by
  cases first with
  | true =>
    obtain rfl : rest = cs := h
    exact hi
  | false => exact Integral.separated hi h (by decide)

theorem integral_of_led {kind : Container} (h : Led kind cs rest) (hi : Integral .outside cs) :
    Integral .outside rest := by
  cases kind with
  | list =>
    obtain rfl : rest = cs := h
    exact hi
  | object =>
    obtain ⟨key, colon, hkey, hq, hcolon⟩ := h
    have hstring := integral_dropSpace hi
    rw [hkey] at hstring
    exact (integral_of_quoted hq hstring.behind).number.separated hcolon (by decide)

theorem integral_of_close {kind : Container} {first : Bool} (h : dropSpace cs = kind.close :: rest)
    (hi : Integral (Zone.inside first) cs) : Integral .outside rest := by
  exact hi.inside.separated h (by cases kind <;> decide)

theorem behind_word {letters : List Char} (hw : letters ∈ words)
    (hi : Integral .outside (letters ++ rest)) : Integral .outside rest := by
  simp only [words, List.mem_cons, List.not_mem_nil, or_false] at hw
  rcases hw with rfl | rfl | rfl
  · exact hi.behind.behind.behind.behind
  · exact hi.behind.behind.behind.behind
  · exact hi.behind.behind.behind.behind.behind

mutual

theorem integral_of_stands {cs rest : List Char} (h : Stands cs rest) (hi : Integral .outside cs) :
    Integral .number rest := by
  match h with
  | .word hw => exact (behind_word hw hi).number
  | .text hq => exact (integral_of_quoted hq hi.behind).number
  | .number hn => exact integral_of_numeral hn hi.number
  | .container kind hc =>
    have hbracket : Zone.outside.behind kind.bracket = Zone.inside true := by cases kind <;> rfl
    exact (integral_of_contents hc (hbracket ▸ hi.behind)).number

theorem integral_of_contents {kind : Container} {first : Bool} {cs rest : List Char}
    (h : Contents kind first cs rest) (hi : Integral (Zone.inside first) cs) :
    Integral .outside rest := by
  match h with
  | .close hc => exact integral_of_close hc hi
  | .value hs hl hv hc =>
    have hitem := integral_of_led hl (integral_of_separated hs hi)
    have hbehind := integral_of_stands hv (integral_dropSpace hitem)
    exact integral_of_contents hc hbehind

end

/-! ## The numbers that are read -/

theorem le_foldl_digits (n : Nat) (digits : List Char) :
    n ≤ digits.foldl (fun n c => n * 10 + digitValue c) n := by
  induction digits generalizing n with
  | nil => exact Nat.le_refl n
  | cons c digits ih =>
    rw [List.foldl_cons]
    have := ih (n * 10 + digitValue c)
    omega

theorem foldl_whole_from {n : Nat} {digits : List Char}
    (h : digits.foldl (fun n c => n * 10 + digitValue c) n < UInt64.size) :
    digits.foldl Significand.whole ⟨n, 0, false⟩ =
      ⟨digits.foldl (fun n c => n * 10 + digitValue c) n, 0, false⟩ := by
  induction digits generalizing n with
  | nil => rfl
  | cons c digits ih =>
    rw [List.foldl_cons] at h
    have hnext := Nat.lt_of_le_of_lt (le_foldl_digits _ digits) h
    rw [List.foldl_cons, List.foldl_cons, ← ih h]
    simp only [Significand.whole, true_and, if_pos hnext]

theorem foldl_whole {digits : List Char} (h : digitsValue digits < UInt64.size) :
    digits.foldl Significand.whole .zero = ⟨digitsValue digits, 0, false⟩ :=
  foldl_whole_from h

theorem digits_of_all (h : (cs.takeWhile isNumeric).all isDigit = true) :
    digitsOf cs = cs.takeWhile isNumeric ∧
      ∀ c more, afterDigits cs = c :: more → isNumeric c = false := by
  induction cs with
  | nil => exact ⟨rfl, nofun⟩
  | cons c cs ih =>
    by_cases hc : isDigit c = true
    · have hn : isNumeric c = true := isNumeric_of_first (.inr hc)
      rw [List.takeWhile_cons_of_pos hn, List.all_cons, hc, Bool.true_and] at h
      obtain ⟨hdigits, hafter⟩ := ih h
      rw [List.takeWhile_cons_of_pos hn, digitsOf, List.takeWhile_cons_of_pos hc, afterDigits,
        List.dropWhile_cons_of_pos hc]
      exact ⟨congrArg _ hdigits, hafter⟩
    · have hn : isNumeric c = false := by
        by_contra hn
        rw [List.takeWhile_cons_of_pos (by simpa using hn), List.all_cons] at h
        simp [hc] at h
      rw [digitsOf, List.takeWhile_cons_of_neg hc, List.takeWhile_cons_of_neg (by simp [hn]),
        afterDigits, List.dropWhile_cons_of_neg hc]
      exact ⟨rfl, fun d more hd => (List.cons.inj hd).1 ▸ hn⟩

theorem ended_of_not_numeric (h : ∀ c more, cs = c :: more → isNumeric c = false) : Ended cs := by
  intro c more hcs
  have hn := h c more hcs
  simp only [isNumeric, Bool.or_eq_false_iff, beq_eq_false_iff_ne, ne_eq] at hn
  exact ⟨hn.1.1.1.1.1, hn.1.1.1.1.2, hn.1.1.1.2, hn.1.1.2⟩

theorem wholeNumber_of_digits {negative : Bool} {n : Number}
    (hall : (cs.takeWhile isNumeric).all isDigit = true)
    (hsize : digitsValue (cs.takeWhile isNumeric) < UInt64.size)
    (h : readUnsigned negative cs = .ok (n, rest)) :
    ∃ behind, wholeNumber negative ⟨digitsValue (cs.takeWhile isNumeric), 0, false⟩ behind =
      .ok (n, rest) := by
  obtain ⟨hdigits, hafter⟩ := digits_of_all hall
  rw [← hdigits] at hsize ⊢
  have hended := ended_of_not_numeric hafter
  cases cs with
  | nil => simp [readUnsigned, fail] at h
  | cons c cs =>
    rw [readUnsigned] at h
    split at h
    · rename_i hc
      subst hc
      split at h
      · rename_i hd
        have hzero : digitsOf ('0' :: cs) = '0' :: digitsOf cs := rfl
        have hcs : afterDigits ('0' :: cs) = cs := afterDigits_of_digitsOf hd
        rw [hcs] at hended
        rw [readAfterWhole_of_ended hended] at h
        rw [hzero, hd]
        exact ⟨cs, h⟩
      · simp [failNext] at h
    · split at h
      · rw [foldl_whole hsize, readAfterWhole_of_ended hended] at h
        exact ⟨_, h⟩
      · simp [failNext] at h

theorem int_of_readNumber {n : Number} (hi : Integral .outside (c :: cs))
    (hc : c = '-' ∨ isDigit c = true) (h : readNumber (c :: cs) = .ok (n, rest)) :
    ∃ i, n = .int i ∧ -9223372036854775808 ≤ i ∧ i < 18446744073709551616 := by
  have hstays := hi.first hc
  by_cases hminus : c = '-'
  · subst hminus
    simp only [staysInteger, Bool.and_eq_true, decide_eq_true_eq] at hstays
    obtain ⟨⟨hall, hpos⟩, hle⟩ := hstays
    have hsize : digitsValue (cs.takeWhile isNumeric) < UInt64.size :=
      Nat.lt_of_le_of_lt hle (by decide)
    obtain ⟨behind, hwhole⟩ := wholeNumber_of_digits hall hsize h
    have hrange : ¬ (digitsValue (cs.takeWhile isNumeric) = 0 ∨
        1 <<< 63 < digitsValue (cs.takeWhile isNumeric)) := by omega
    rw [wholeNumber] at hwhole
    simp only [Bool.false_eq_true, if_false, if_true, if_neg hrange] at hwhole
    obtain ⟨rfl, -⟩ := Prod.mk.inj (Except.ok.inj hwhole)
    have hshift : (1 <<< 63 : Nat) = 9223372036854775808 := rfl
    exact ⟨_, rfl, by omega, by omega⟩
  · have htake : c :: cs.takeWhile isNumeric = (c :: cs).takeWhile isNumeric :=
      (List.takeWhile_cons_of_pos (isNumeric_of_first hc)).symm
    have hdigits : staysInteger (c :: cs.takeWhile isNumeric) =
        ((c :: cs.takeWhile isNumeric).all isDigit &&
          decide (digitsValue (c :: cs.takeWhile isNumeric) < UInt64.size)) := by
      unfold staysInteger
      split
      · exact absurd (List.cons.inj ‹_›).1 hminus
      · rfl
    rw [hdigits, htake, Bool.and_eq_true, decide_eq_true_eq] at hstays
    rw [readNumber_of_ne hminus] at h
    obtain ⟨behind, hwhole⟩ := wholeNumber_of_digits hstays.1 hstays.2 h
    rw [wholeNumber] at hwhole
    simp only [Bool.false_eq_true, if_false] at hwhole
    obtain ⟨rfl, -⟩ := Prod.mk.inj (Except.ok.inj hwhole)
    have hsize := hstays.2
    simp only [UInt64.size] at hsize
    exact ⟨_, rfl, by omega, by omega⟩

end LedgerClient.Json
