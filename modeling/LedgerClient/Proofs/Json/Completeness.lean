import LedgerClient.Proofs.Json.Soundness

/-!
# What is JSON is passed over

The other direction of soundness: `skip` passes over every value of the grammar. The grammar lets a
number end before its last digit where `skip` takes all of it, so what stands behind a value must not
go on with a number (`Ended`). Inside a container that is always so, because a comma or the closing
bracket follows. `Passes` says that `skipWithin` gets from one state to another with enough left of
its bound; the induction is over the grammar, with one round of `skipWithin` for each part of it.
-/

namespace LedgerClient.Json

variable {cs rest : List Char}

/-! ## Strings -/

theorem length_of_quoted (h : Quoted cs rest) : rest.length < cs.length := by
  induction h with
  | close => exact Nat.lt_succ_self _
  | plain _ _ _ _ ih => exact Nat.lt_succ_of_lt ih
  | escape _ _ ih =>
    simp only [List.length_cons]
    omega
  | unicode _ _ _ _ _ ih =>
    simp only [List.length_cons]
    omega

theorem hexValue?_of_isHexDigit {c : Char} (h : IsHexDigit c) : ∃ n, hexValue? c = some n := by
  simp only [IsHexDigit, isDigit, Bool.and_eq_true, decide_eq_true_eq, Char.le_def,
    UInt32.le_iff_toNat_le, Char.toNat_val] at h
  unfold hexValue?
  simp only
  by_cases hdigit : 48 ≤ c.toNat ∧ c.toNat ≤ 57
  · exact ⟨_, if_pos hdigit⟩
  · rw [if_neg hdigit]
    by_cases hupper : 65 ≤ c.toNat ∧ c.toNat ≤ 70
    · exact ⟨_, if_pos hupper⟩
    · rw [if_neg hupper]
      exact ⟨_, if_pos ((h.resolve_left hdigit).resolve_right hupper)⟩

theorem byteLength_cons (c : Char) (cs : List Char) :
    Text.byteLength (c :: cs) = c.utf8Size + Text.byteLength cs := by
  have hadd (l : List Char) (n : Nat) : l.foldl (· + ·.utf8Size) n = n + Text.byteLength l := by
    induction l generalizing n with
    | nil => rfl
    | cons d l ih =>
      rw [Text.byteLength, List.foldl_cons, List.foldl_cons, ih, ih]
      omega
  rw [Text.byteLength, List.foldl_cons, hadd]
  omega

theorem length_le_byteLength (cs : List Char) : cs.length ≤ Text.byteLength cs := by
  induction cs with
  | nil => exact Nat.zero_le _
  | cons c cs ih =>
    rw [byteLength_cons, List.length_cons]
    have := Char.utf8Size_pos c
    omega

theorem hexEscape_of_digits {a b c d : Char} (ha : IsHexDigit a) (hb : IsHexDigit b)
    (hc : IsHexDigit c) (hd : IsHexDigit d) (cs : List Char) :
    ∃ n, hexEscape (a :: b :: c :: d :: cs) = .ok (n, cs) := by
  obtain ⟨w, hw⟩ := hexValue?_of_isHexDigit ha
  obtain ⟨x, hx⟩ := hexValue?_of_isHexDigit hb
  obtain ⟨y, hy⟩ := hexValue?_of_isHexDigit hc
  obtain ⟨z, hz⟩ := hexValue?_of_isHexDigit hd
  have hlen : ¬ Text.byteLength (a :: b :: c :: d :: cs) < 4 := by
    have := length_le_byteLength (a :: b :: c :: d :: cs)
    simp only [List.length_cons] at this
    omega
  exact ⟨_, by rw [hexEscape, if_neg hlen, hw, hx, hy, hz]⟩

theorem skipEscape_of_mem {c : Char} (h : c ∈ ['"', '\\', '/', 'b', 'f', 'n', 'r', 't'])
    (cs : List Char) : skipEscape (c :: cs) = .ok cs := by
  simp only [List.mem_cons, List.not_mem_nil, or_false] at h
  rcases h with rfl | rfl | rfl | rfl | rfl | rfl | rfl | rfl <;> rfl

theorem skipTextWithin_of_quoted {bound : List Char} (h : Quoted cs rest)
    (hb : cs.length ≤ bound.length) : skipTextWithin bound cs = .ok rest := by
  induction h generalizing bound with
  | close =>
    obtain ⟨b, bound, rfl⟩ := List.exists_cons_of_length_pos (Nat.zero_lt_of_lt hb)
    rfl
  | plain hquote hslash hcontrol _ ih =>
    obtain ⟨b, bound, rfl⟩ := List.exists_cons_of_length_pos (Nat.zero_lt_of_lt hb)
    rw [skipTextWithin, if_neg hquote, if_neg hslash, if_neg (Nat.not_lt.mpr hcontrol)]
    exact ih (Nat.le_of_succ_le_succ hb)
  | escape hc _ ih =>
    obtain ⟨b, bound, rfl⟩ := List.exists_cons_of_length_pos (Nat.zero_lt_of_lt hb)
    rw [skipTextWithin, if_neg (by decide), if_pos rfl, skipEscape_of_mem hc]
    simp only [List.length_cons] at hb
    exact ih (by omega)
  | unicode ha hb' hc hd _ ih =>
    obtain ⟨b, bound, rfl⟩ := List.exists_cons_of_length_pos (Nat.zero_lt_of_lt hb)
    obtain ⟨n, hn⟩ := hexEscape_of_digits ha hb' hc hd _
    rw [skipTextWithin, if_neg (by decide), if_pos rfl, skipEscape, hn]
    simp only [List.length_cons] at hb
    exact ih (by omega)

theorem skipText_of_quoted (h : Quoted cs rest) : skipText cs = .ok rest :=
  skipTextWithin_of_quoted h (Nat.le_refl _)

/-! ## Numbers -/

/-- A text that does not go on with a number: it begins neither with a digit nor with a point nor
with an exponent. -/
def Ended (cs : List Char) : Prop :=
  ∀ c more, cs = c :: more → isDigit c = false ∧ c ≠ '.' ∧ c ≠ 'e' ∧ c ≠ 'E'

theorem Ended.digitsOf_eq (h : Ended cs) : digitsOf cs = [] := by
  cases cs with
  | nil => rfl
  | cons c more => exact List.takeWhile_cons_of_neg (by simp [(h c more rfl).1])

theorem Ended.skipAfterWhole_eq (h : Ended cs) : skipAfterWhole cs = .ok cs := by
  unfold skipAfterWhole
  split
  · exact absurd rfl (h _ _ rfl).2.1
  · exact absurd rfl (h _ _ rfl).2.2.1
  · exact absurd rfl (h _ _ rfl).2.2.2
  · rfl

theorem ended_of_dropSpace {c : Char} (h : dropSpace cs = c :: rest)
    (hc : c ∈ [',', ':', ']', '\x7d']) : Ended cs := by
  rintro d more rfl
  have hd : d ∈ [' ', '\n', '\t', '\r', ',', ':', ']', '\x7d'] := by
    by_cases hs : isSpace d = true
    · simp only [isSpace, Bool.or_eq_true, beq_iff_eq] at hs
      simp only [List.mem_cons]
      tauto
    · rw [dropSpace, List.dropWhile_cons_of_neg hs] at h
      obtain rfl := (List.cons.inj h).1
      simp only [List.mem_cons] at hc ⊢
      tauto
  simp only [List.mem_cons, List.not_mem_nil, or_false] at hd
  rcases hd with rfl | rfl | rfl | rfl | rfl | rfl | rfl | rfl <;> decide

theorem ended_nil : Ended [] := fun _ _ h => nomatch h

theorem afterDigits_of_digitsOf (h : digitsOf cs = []) : afterDigits cs = cs := by
  have hsplit := List.takeWhile_append_dropWhile (p := isDigit) (l := cs)
  rwa [show cs.takeWhile isDigit = [] from h, List.nil_append] at hsplit

theorem afterDigits_of_digits (h : Digits cs rest) (hr : digitsOf rest = []) :
    digitsOf cs ≠ [] ∧ afterDigits cs = rest := by
  induction h with
  | last hc =>
    refine ⟨by simp [digitsOf, hc], ?_⟩
    rw [afterDigits, List.dropWhile_cons_of_pos hc]
    exact afterDigits_of_digitsOf hr
  | more hc _ ih =>
    refine ⟨by simp [digitsOf, hc], ?_⟩
    rw [afterDigits, List.dropWhile_cons_of_pos hc]
    exact (ih hr).2

theorem length_of_digits (h : Digits cs rest) : rest.length < cs.length := by
  induction h with
  | last => exact Nat.lt_succ_self _
  | more _ _ ih => exact Nat.lt_succ_of_lt ih

theorem digit_of_digits (h : Digits cs rest) : ∃ c more, cs = c :: more ∧ isDigit c = true := by
  cases h with
  | last hc => exact ⟨_, _, rfl, hc⟩
  | more hc _ => exact ⟨_, _, rfl, hc⟩

theorem skipExponent_of_digits {digits : List Char} (hd : Digits digits rest) (hr : Ended rest)
    (hcs : cs = digits ∨ cs = '+' :: digits ∨ cs = '-' :: digits) :
    skipExponent cs = .ok rest := by
  obtain ⟨hne, hafter⟩ := afterDigits_of_digits hd hr.digitsOf_eq
  have hskip : (if digitsOf digits = [] then failNext .invalidNumber digits
      else .ok (afterDigits digits)) = .ok rest := by rw [if_neg hne, hafter]
  rcases hcs with rfl | rfl | rfl
  · -- the digits begin with no sign
    obtain ⟨c, more, rfl, hc⟩ := digit_of_digits hd
    unfold skipExponent
    split
    · rename_i hsign
      obtain rfl := (List.cons.inj hsign).1
      exact absurd hc (by decide)
    · rename_i hsign
      obtain rfl := (List.cons.inj hsign).1
      exact absurd hc (by decide)
    · exact hskip
  · exact hskip
  · exact hskip

theorem skipAfterWhole_of_exponent (h : Exponent cs rest) (hr : Ended rest) :
    skipAfterWhole cs = .ok rest ∧ digitsOf cs = [] := by
  cases h with
  | missing => exact ⟨hr.skipAfterWhole_eq, hr.digitsOf_eq⟩
  | plain he hd =>
    have hskip := skipExponent_of_digits hd hr (.inl rfl)
    rcases he with rfl | rfl <;> exact ⟨hskip, rfl⟩
  | signed he hsign hd =>
    rcases he with rfl | rfl <;> rcases hsign with rfl | rfl
    · exact ⟨skipExponent_of_digits hd hr (.inr (.inl rfl)), rfl⟩
    · exact ⟨skipExponent_of_digits hd hr (.inr (.inr rfl)), rfl⟩
    · exact ⟨skipExponent_of_digits hd hr (.inr (.inl rfl)), rfl⟩
    · exact ⟨skipExponent_of_digits hd hr (.inr (.inr rfl)), rfl⟩

theorem skipFraction_of_digits {fraction : List Char} (hd : Digits cs fraction)
    (he : Exponent fraction rest) (hr : Ended rest) : skipFraction cs = .ok rest := by
  obtain ⟨hskip, hfraction⟩ := skipAfterWhole_of_exponent he hr
  obtain ⟨hne, hafter⟩ := afterDigits_of_digits hd hfraction
  rw [skipFraction, if_neg hne, hafter]
  cases he with
  | missing =>
    split
    · exact absurd rfl (hr _ _ rfl).2.2.1
    · exact absurd rfl (hr _ _ rfl).2.2.2
    · rfl
  | plain hletter _ => rcases hletter with rfl | rfl <;> exact hskip
  | signed hletter _ _ => rcases hletter with rfl | rfl <;> exact hskip

theorem skipAfterWhole_of_fraction {fraction : List Char} (hf : Fraction cs fraction)
    (he : Exponent fraction rest) (hr : Ended rest) :
    skipAfterWhole cs = .ok rest ∧ digitsOf cs = [] := by
  cases hf with
  | missing => exact skipAfterWhole_of_exponent he hr
  | point hd => exact ⟨skipFraction_of_digits hd he hr, rfl⟩

theorem skipUnsigned_of_whole {whole fraction : List Char} (hw : Whole cs whole)
    (hf : Fraction whole fraction) (he : Exponent fraction rest) (hr : Ended rest) :
    skipUnsigned cs = .ok rest := by
  obtain ⟨hskip, hwhole⟩ := skipAfterWhole_of_fraction hf he hr
  cases hw with
  | zero => rw [skipUnsigned, if_pos rfl, if_pos hwhole, hskip]
  | digits hzero hd =>
    have hafter := (afterDigits_of_digits hd hwhole).2
    obtain ⟨c, more, hcs, hc⟩ := digit_of_digits hd
    obtain ⟨rfl, rfl⟩ := List.cons.inj hcs
    rw [afterDigits, List.dropWhile_cons_of_pos hc] at hafter
    rw [skipUnsigned, if_neg hzero, if_pos hc, afterDigits, hafter, hskip]

theorem ne_of_digit {c d : Char} (h : c = '-' ∨ isDigit c = true)
    (hd : ¬ (d = '-' ∨ isDigit d = true)) : c ≠ d := by
  intro he
  exact hd (he ▸ h)

theorem isSpace_of_digit {c : Char} (h : c = '-' ∨ isDigit c = true) : isSpace c = false := by
  have hblank : c ≠ ' ' := ne_of_digit h (by decide)
  have hline : c ≠ '\n' := ne_of_digit h (by decide)
  have htab : c ≠ '\t' := ne_of_digit h (by decide)
  have hreturn : c ≠ '\r' := ne_of_digit h (by decide)
  simp [isSpace, hblank, hline, htab, hreturn]

theorem Numeral.head (h : Numeral cs rest) :
    ∃ c more, cs = c :: more ∧ (c = '-' ∨ isDigit c = true) := by
  cases h with
  | positive hw _ _ =>
    cases hw with
    | zero => exact ⟨_, _, rfl, .inr rfl⟩
    | digits _ hd =>
      obtain ⟨c, more, hcs, hc⟩ := digit_of_digits hd
      exact ⟨c, more, hcs, .inr hc⟩
  | negative _ _ _ => exact ⟨_, _, rfl, .inl rfl⟩

theorem skipNumber_of_numeral (h : Numeral cs rest) (hr : Ended rest) :
    skipNumber cs = .ok rest := by
  cases h with
  | positive hw hf he =>
    have hskip := skipUnsigned_of_whole hw hf he hr
    unfold skipNumber
    split
    · -- no digits begin with a minus
      cases hw with
      | digits _ hd =>
        obtain ⟨c, more, hcs, hc⟩ := digit_of_digits hd
        obtain ⟨rfl, -⟩ := List.cons.inj hcs
        exact absurd hc (by decide)
    · exact hskip
  | negative hw hf he => exact skipUnsigned_of_whole hw hf he hr

theorem length_of_exponent (h : Exponent cs rest) : rest.length ≤ cs.length := by
  cases h with
  | missing => exact Nat.le_refl _
  | plain _ hd =>
    have := length_of_digits hd
    rw [List.length_cons]
    omega
  | signed _ _ hd =>
    have := length_of_digits hd
    simp only [List.length_cons]
    omega

theorem length_of_whole {whole fraction : List Char} (hw : Whole cs whole)
    (hf : Fraction whole fraction) (he : Exponent fraction rest) : rest.length < cs.length := by
  have hexponent := length_of_exponent he
  have hfraction : fraction.length ≤ whole.length := by
    cases hf with
    | missing => exact Nat.le_refl _
    | point hd => exact Nat.le_succ_of_le (Nat.le_of_lt (length_of_digits hd))
  have hwhole : whole.length < cs.length := by
    cases hw with
    | zero => exact Nat.lt_succ_self _
    | digits _ hd => exact length_of_digits hd
  omega

theorem length_of_numeral (h : Numeral cs rest) : rest.length < cs.length := by
  cases h with
  | positive hw hf he => exact length_of_whole hw hf he
  | negative hw hf he => exact Nat.lt_succ_of_lt (length_of_whole hw hf he)

/-! ## The way through the open containers -/

theorem length_dropSpace (cs : List Char) : (dropSpace cs).length ≤ cs.length :=
  List.length_dropWhile_le isSpace cs

theorem length_of_dropSpace {c : Char} (h : dropSpace cs = c :: rest) :
    rest.length < cs.length := by
  have hlen := length_dropSpace cs
  rw [h, List.length_cons] at hlen
  exact hlen

/-- Passing over what stands in front of `rest` changes the open containers, with as much left of
the bound as there is text. -/
def Passes (opened : List Container) (behind : Bool) (cs : List Char) (opened' : List Container)
    (rest : List Char) : Prop :=
  ∀ bound : List Char, cs.length < bound.length → ∃ bound' : List Char, rest.length < bound'.length ∧
    skipWithin bound opened behind cs = skipWithin bound' opened' true rest

section

variable {opened : List Container} {kind : Container}

theorem passes_of_round {opened' : List Container} {behind : Bool}
    (hlen : rest.length < cs.length)
    (h : ∀ b bound, skipWithin (b :: bound) opened behind cs = skipWithin bound opened' true rest) :
    Passes opened behind cs opened' rest := by
  intro bound hb
  obtain ⟨b, bound, rfl⟩ := List.exists_cons_of_length_pos (Nat.zero_lt_of_lt hb)
  rw [List.length_cons] at hb
  exact ⟨bound, by omega, h b bound⟩

theorem passes_of_value {outer : List Container} {behind : Bool} {item after : List Char}
    (hlen : item.length < cs.length)
    (h : ∀ b bound, skipWithin (b :: bound) outer behind cs =
      skipWithin bound (kind :: opened) false item)
    (hv : Passes (kind :: opened) false item (kind :: opened) after)
    (hc : Passes (kind :: opened) true after opened rest) : Passes outer behind cs opened rest := by
  intro bound hb
  obtain ⟨b, bound, rfl⟩ := List.exists_cons_of_length_pos (Nat.zero_lt_of_lt hb)
  rw [List.length_cons] at hb
  obtain ⟨boundᵥ, hbv, hskipv⟩ := hv bound (by omega)
  obtain ⟨bound', hb', hskip⟩ := hc boundᵥ hbv
  exact ⟨bound', hb', by rw [h, hskipv, hskip]⟩

theorem skipToValue_of_led {item : List Char} (h : Led kind cs item) :
    skipToValue kind cs = .ok item := by
  cases kind with
  | list => rw [show item = cs from h, skipToValue]
  | object =>
    obtain ⟨key, behind, hkey, hq, hcolon⟩ := h
    rw [skipToValue, hkey]
    simp only [if_pos, skipText_of_quoted hq, colon, hcolon]

theorem length_of_led {item : List Char} (h : Led kind cs item) : item.length ≤ cs.length := by
  cases kind with
  | list => rw [show item = cs from h]
  | object =>
    obtain ⟨key, behind, hkey, hq, hcolon⟩ := h
    have := length_of_dropSpace hkey
    have := length_of_quoted hq
    have := length_of_dropSpace hcolon
    omega

theorem Stands.head (h : Stands cs rest) :
    ∃ c more, cs = c :: more ∧ c ≠ ',' ∧ c ≠ ']' ∧ c ≠ '\x7d' := by
  cases h with
  | word hw =>
    simp only [words, List.mem_cons, List.not_mem_nil, or_false] at hw
    rcases hw with rfl | rfl | rfl <;> exact ⟨_, _, rfl, by decide⟩
  | text _ => exact ⟨_, _, rfl, by decide⟩
  | number hn =>
    obtain ⟨c, more, rfl, hc⟩ := hn.head
    exact ⟨c, more, rfl, ne_of_digit hc (by decide), ne_of_digit hc (by decide),
      ne_of_digit hc (by decide)⟩
  | container kind _ => cases kind <;> exact ⟨_, _, rfl, by decide⟩

theorem Contents.ended (h : Contents kind false cs rest) : Ended cs := by
  cases h with
  | close hc => cases kind <;> exact ended_of_dropSpace hc (by decide)
  | value hs _ _ _ => exact ended_of_dropSpace hs (by decide)

/-! ### Values without parts -/

theorem skipOpening_of_word {letters : List Char} (hw : letters ∈ words)
    (h : dropSpace cs = letters ++ rest) : skipOpening cs = .ok (.scalar rest) := by
  simp only [words, List.mem_cons, List.not_mem_nil, or_false] at hw
  rcases hw with rfl | rfl | rfl <;> (rw [skipOpening, h]; rfl)

theorem skipOpening_of_quoted {text : List Char} (hq : Quoted text rest)
    (h : dropSpace cs = '"' :: text) : skipOpening cs = .ok (.scalar rest) := by
  rw [skipOpening, h]
  simp only [skipText_of_quoted hq]
  rfl

theorem skipOpening_of_numeral (hn : Numeral (dropSpace cs) rest) (hr : Ended rest) :
    skipOpening cs = .ok (.scalar rest) := by
  obtain ⟨c, more, hcs, hc⟩ := hn.head
  have hskip := skipNumber_of_numeral hn hr
  rw [hcs] at hskip
  have hnull : c ≠ 'n' := ne_of_digit hc (by decide)
  have htrue : c ≠ 't' := ne_of_digit hc (by decide)
  have hfalse : c ≠ 'f' := ne_of_digit hc (by decide)
  have hquote : c ≠ '"' := ne_of_digit hc (by decide)
  rw [skipOpening, hcs]
  simp only [if_neg hnull, if_neg htrue, if_neg hfalse, if_neg hquote, if_pos hc, hskip]
  rfl

theorem skipOpening_of_bracket {inner : List Char} (h : dropSpace cs = kind.bracket :: inner) :
    skipOpening cs = .ok (.container kind inner) := by
  cases kind <;> (rw [skipOpening, h]; rfl)

theorem length_of_word {letters : List Char} (hw : letters ∈ words)
    (h : dropSpace cs = letters ++ rest) : rest.length < cs.length := by
  have hlen := length_dropSpace cs
  rw [h, List.length_append] at hlen
  have hpos : 0 < letters.length := by
    simp only [words, List.mem_cons, List.not_mem_nil, or_false] at hw
    rcases hw with rfl | rfl | rfl <;> decide
  omega

theorem passes_of_scalar (hlen : rest.length < cs.length)
    (h : skipOpening cs = .ok (.scalar rest)) : Passes opened false cs opened rest :=
  passes_of_round hlen fun b bound => by rw [skipWithin, h]

/-! ### Containers -/

theorem passes_of_empty {inner : List Char} (ho : skipOpening cs = .ok (.container kind inner))
    (hc : dropSpace inner = kind.close :: rest) (hlen : rest.length < cs.length) :
    Passes opened false cs opened rest :=
  passes_of_round hlen fun b bound => by
    rw [skipWithin, ho]
    simp only [hc, if_pos]

theorem exists_item_of_opening {inner item : List Char}
    (ho : skipOpening cs = .ok (.container kind inner)) (hl : Led kind inner item)
    (hs : Stands (dropSpace item) rest) :
    ∃ item' : List Char, dropSpace item' = dropSpace item ∧ item'.length ≤ inner.length ∧
      ∀ (opened : List Container) (b : Char) (bound : List Char),
        skipWithin (b :: bound) opened false cs =
          skipWithin bound (kind :: opened) false item' := by
  cases kind with
  | list =>
    obtain rfl : item = inner := hl
    obtain ⟨c, more, hcs, -, hclose, -⟩ := hs.head
    refine ⟨dropSpace item, dropSpace_dropSpace item, length_dropSpace item, ?_⟩
    intro opened b bound
    have hne : c ≠ Container.list.close := hclose
    rw [skipWithin, ho]
    simp only [hcs, if_neg hne, skipToValue]
  | object =>
    refine ⟨item, rfl, length_of_led hl, ?_⟩
    intro opened b bound
    obtain ⟨key, behind, hkey, hq, hcolon⟩ := hl
    have hled : Led .object ('"' :: key) item := ⟨key, behind, rfl, hq, hcolon⟩
    have hne : '"' ≠ Container.object.close := by decide
    rw [skipWithin, ho]
    simp only [hkey, if_neg hne, skipToValue_of_led hled]

theorem passes_of_close (h : dropSpace cs = kind.close :: rest) :
    Passes (kind :: opened) true cs opened rest :=
  passes_of_round (length_of_dropSpace h) fun b bound => by
    have hcomma : kind.close ≠ ',' := by cases kind <;> decide
    rw [skipWithin, h]
    simp only [if_neg hcomma, if_pos]

theorem skipWithin_of_comma {lead item : List Char} (hs : Separated false cs lead)
    (hl : Led kind lead item) (b : Char) (bound : List Char) :
    skipWithin (b :: bound) (kind :: opened) true cs =
      skipWithin bound (kind :: opened) false item := by
  have hcs : dropSpace cs = ',' :: lead := hs
  rw [skipWithin, hcs]
  simp only [if_pos, skipToValue_of_led hl]

end

/-! ### The induction over the grammar -/

mutual

theorem passes_of_stands {text cs rest : List Char} {opened : List Container}
    (h : Stands text rest) (hcs : dropSpace cs = text) (hr : Ended rest) :
    Passes opened false cs opened rest := by
  have hlen := length_dropSpace cs
  match h with
  | .word hw => exact passes_of_scalar (length_of_word hw hcs) (skipOpening_of_word hw hcs)
  | .text hq =>
    have := length_of_quoted hq
    have := length_of_dropSpace hcs
    exact passes_of_scalar (by omega) (skipOpening_of_quoted hq hcs)
  | .number hn =>
    have := length_of_numeral hn
    rw [← hcs] at hn this
    exact passes_of_scalar (by omega) (skipOpening_of_numeral hn hr)
  | .container kind hc =>
    exact passes_of_opening hc rfl (skipOpening_of_bracket hcs) (length_of_dropSpace hcs)

theorem passes_of_opening {kind : Container} {first : Bool} {inner cs rest : List Char}
    {opened : List Container} (h : Contents kind first inner rest) (hfirst : first = true)
    (ho : skipOpening cs = .ok (.container kind inner)) (hlen : inner.length < cs.length) :
    Passes opened false cs opened rest := by
  match h with
  | .close hc =>
    have := length_of_dropSpace hc
    exact passes_of_empty ho hc (by omega)
  | .value hs hl hv hc =>
    subst hfirst
    subst hs
    obtain ⟨item', hdrop, hitem, hround⟩ := exists_item_of_opening ho hl hv
    exact passes_of_value (by omega) (hround opened) (passes_of_stands hv hdrop hc.ended)
      (passes_of_contents hc rfl)

theorem passes_of_contents {kind : Container} {first : Bool} {cs rest : List Char}
    {opened : List Container} (h : Contents kind first cs rest) (hfirst : first = false) :
    Passes (kind :: opened) true cs opened rest := by
  match h with
  | .close hc => exact passes_of_close hc
  | .value hs hl hv hc =>
    subst hfirst
    have hlead := length_of_dropSpace hs
    have hitem := length_of_led hl
    exact passes_of_value (by omega) (skipWithin_of_comma hs hl)
      (passes_of_stands hv rfl hc.ended) (passes_of_contents hc rfl)

end

/-- A value that ends is passed over. -/
theorem skip_of_stands (h : Stands (dropSpace cs) rest) (hr : Ended rest) : skip cs = .ok rest := by
  obtain ⟨bound, -, hskip⟩ := @passes_of_stands _ _ _ [] h rfl hr (' ' :: cs) (Nat.lt_succ_self _)
  rw [skip, hskip]
  cases bound <;> rfl

end LedgerClient.Json
