import LedgerClient.Proofs.Json.Alongside
import LedgerClient.Proofs.Json.Denotation
import LedgerClient.Proofs.Json.Layout

/-!
# Readers that see their value only

A reader is `Local` if what it reads off a value does not depend on what stands behind. Strings end
with their closing quote. An integer could go on, but not where a value ends: there the next
character is none that a number has (`Ended`). So the readers of strings, integers and what may be
missing are local.
-/

namespace LedgerClient.Json

variable {cs value rest : List Char}

/-! ## Values -/

/-- What is read off a value does not depend on what stands behind it. -/
def Local {α : Type} (read : Reader α) : Prop :=
  ∀ ⦃room : Nat⦄ ⦃value rest behind : List Char⦄ ⦃a : α⦄, Stands (dropSpace value) [] → Ended rest →
    read room (value ++ rest) = .ok (a, behind) →
    ∀ rest', Ended rest' → read room (value ++ rest') = .ok (a, rest')

theorem exists_first (h : Stands (dropSpace value) []) :
    ∃ c more, dropSpace value = c :: more ∧
      ∀ rest, dropSpace (value ++ rest) = c :: (more ++ rest) := by
  obtain ⟨c, more, hvalue, hc⟩ := h.solid
  obtain ⟨blanks, hb, he⟩ := exists_blank value
  refine ⟨c, more, hvalue, fun rest => ?_⟩
  rw [he, hvalue, List.append_assoc, List.cons_append]
  exact dropSpace_eq hb hc _

/-! ### Strings -/

theorem rest_of_quoted {rest' : List Char} (h : Quoted cs rest) (h' : Quoted cs rest') :
    rest' = rest :=
  Except.ok.inj ((skipText_of_quoted h').symm.trans (skipText_of_quoted h))

theorem readText_append {s behind : List Char} (h : Quoted cs [])
    (hread : readText (cs ++ rest) = .ok (s, behind)) (rest' : List Char) :
    readText (cs ++ rest') = .ok (s, rest') := by
  obtain rfl := rest_of_quoted ((cut_of_quoted h).append rest) (quoted_of_readText hread)
  obtain ⟨used, hused, hcut⟩ := (readText_eq_ok_iff.mp hread).cut
  obtain rfl := List.append_cancel_right hused
  exact readText_eq_ok_iff.mpr (hcut rest')

theorem quoted_of_stands (h : Stands ('"' :: cs) rest) : Quoted cs rest := by
  generalize htext : '"' :: cs = text at h
  cases h with
  | word hw =>
    simp only [words, List.mem_cons, List.not_mem_nil, or_false] at hw
    rcases hw with rfl | rfl | rfl <;> simp at htext
  | text hq => exact (List.cons.inj htext).2 ▸ hq
  | number hn =>
    obtain ⟨c, more, rfl, hc⟩ := hn.head
    exact absurd (List.cons.inj htext).1.symm (ne_of_digit hc (by decide))
  | container kind _ => cases kind <;> simp [Container.bracket] at htext

theorem local_text : Local Reader.text := by
  intro room value rest behind a hv _ h rest' _
  obtain ⟨c, more, hvalue, hdrop⟩ := exists_first hv
  rw [Reader.text, atValue, hdrop] at h ⊢
  simp only at h ⊢
  split at h
  · rename_i hc
    subst hc
    split at h
    · simp at h
    · rename_i hread
      obtain ⟨rfl, -⟩ := Prod.mk.inj (Except.ok.inj h)
      rw [if_pos rfl, readText_append (quoted_of_stands (hvalue ▸ hv)) hread]
  · exact absurd h unexpected_ne_ok

/-! ### Integers -/

section

variable {negative : Bool} {s : Significand} {i : Int} {behind : List Char}

theorem double_ne_int (scale : Int) : double negative s scale cs ≠ .ok (.int i, behind) := by
  unfold double
  split <;> simp [fail]

theorem readExponent_ne_int : readExponent negative s cs ≠ .ok (.int i, behind) := by
  unfold readExponent
  split
  split
  · simp [fail]
  · split
    · split
      · exact double_ne_int _
      · split
        · simp [fail]
        · exact double_ne_int _
    · simp [failNext]

theorem readFraction_ne_int : readFraction negative s cs ≠ .ok (.int i, behind) := by
  unfold readFraction
  split
  · split <;> simp [fail, failNext]
  · simp only
    split
    · exact readExponent_ne_int
    · exact readExponent_ne_int
    · exact double_ne_int _

theorem wholeNumber_int (h : wholeNumber negative s cs = .ok (.int i, behind)) :
    behind = cs ∧ ∀ cs', wholeNumber negative s cs' = .ok (.int i, cs') := by
  unfold wholeNumber at h ⊢
  split at h
  · exact absurd h (double_ne_int _)
  · rename_i hfull
    split at h
    · rename_i hneg
      split at h
      · exact absurd h (double_ne_int _)
      · rename_i hrange
        obtain ⟨hi, rfl⟩ := Prod.mk.inj (Except.ok.inj h)
        exact ⟨rfl, fun cs' => by rw [if_neg hfull, if_pos hneg, if_neg hrange, hi]⟩
    · rename_i hneg
      obtain ⟨hi, rfl⟩ := Prod.mk.inj (Except.ok.inj h)
      exact ⟨rfl, fun cs' => by rw [if_neg hfull, if_neg hneg, hi]⟩

theorem readAfterWhole_int (h : readAfterWhole negative s cs = .ok (.int i, behind)) :
    wholeNumber negative s cs = .ok (.int i, behind) ∧
      ∀ c more, cs = c :: more → c ≠ '.' ∧ c ≠ 'e' ∧ c ≠ 'E' := by
  unfold readAfterWhole at h
  split at h
  · exact absurd h readFraction_ne_int
  · exact absurd h readExponent_ne_int
  · exact absurd h readExponent_ne_int
  · rename_i hpoint hlower hupper
    refine ⟨h, ?_⟩
    rintro c more rfl
    exact ⟨fun hc => hpoint more (hc ▸ rfl), fun hc => hlower more (hc ▸ rfl),
      fun hc => hupper more (hc ▸ rfl)⟩

theorem readAfterWhole_append
    (h : readAfterWhole negative s (cs ++ rest) = .ok (.int i, behind)) :
    behind = cs ++ rest ∧ ∀ rest', Ended rest' →
      readAfterWhole negative s (cs ++ rest') = .ok (.int i, cs ++ rest') := by
  obtain ⟨hwhole, hfirst⟩ := readAfterWhole_int h
  obtain ⟨rfl, hall⟩ := wholeNumber_int hwhole
  refine ⟨rfl, fun rest' hr' => ?_⟩
  have hfirst' : ∀ c more, cs ++ rest' = c :: more → c ≠ '.' ∧ c ≠ 'e' ∧ c ≠ 'E' := by
    intro c more hcs
    cases cs with
    | nil => exact (hr' c more hcs).2
    | cons d cs =>
      obtain ⟨rfl, -⟩ := List.cons.inj hcs
      exact hfirst d _ rfl
  rw [← hall]
  unfold readAfterWhole
  split
  · exact absurd rfl (hfirst' _ _ ‹_›).1
  · exact absurd rfl (hfirst' _ _ ‹_›).2.1
  · exact absurd rfl (hfirst' _ _ ‹_›).2.2
  · rfl

theorem digitsOf_append (h : Ended rest) (cs : List Char) :
    digitsOf (cs ++ rest) = digitsOf cs ∧ afterDigits (cs ++ rest) = afterDigits cs ++ rest := by
  induction cs with
  | nil => exact ⟨h.digitsOf_eq, afterDigits_of_digitsOf h.digitsOf_eq⟩
  | cons c cs ih =>
    by_cases hc : isDigit c = true
    · constructor
      · rw [List.cons_append, digitsOf, digitsOf, List.takeWhile_cons_of_pos hc,
          List.takeWhile_cons_of_pos hc]
        exact congrArg _ ih.1
      · rw [List.cons_append, afterDigits, afterDigits, List.dropWhile_cons_of_pos hc,
          List.dropWhile_cons_of_pos hc]
        exact ih.2
    · constructor
      · rw [List.cons_append, digitsOf, digitsOf, List.takeWhile_cons_of_neg hc,
          List.takeWhile_cons_of_neg hc]
      · rw [List.cons_append, afterDigits, afterDigits, List.dropWhile_cons_of_neg hc,
          List.dropWhile_cons_of_neg hc, List.cons_append]

theorem readUnsigned_append (hr : Ended rest)
    (h : readUnsigned negative (cs ++ rest) = .ok (.int i, behind)) :
    ∃ more, behind = more ++ rest ∧ ∀ rest', Ended rest' →
      readUnsigned negative (cs ++ rest') = .ok (.int i, more ++ rest') := by
  cases cs with
  | nil =>
    cases rest with
    | nil => simp [readUnsigned, fail] at h
    | cons c rest =>
      obtain ⟨hc, -⟩ := hr c rest rfl
      have hzero : c ≠ '0' := by
        rintro rfl
        exact absurd hc (by decide)
      simp [readUnsigned, hzero, hc, failNext] at h
  | cons c cs =>
    rw [List.cons_append, readUnsigned, ← List.cons_append, (digitsOf_append hr _).1,
      (digitsOf_append hr _).1, (digitsOf_append hr _).2] at h
    have hunsigned (rest' : List Char) (hr' : Ended rest') :
        readUnsigned negative (c :: cs ++ rest') =
          if c = '0' then
            if digitsOf cs = [] then readAfterWhole negative .zero (cs ++ rest')
            else failNext .invalidNumber (cs ++ rest')
          else if isDigit c then
            readAfterWhole negative ((digitsOf (c :: cs)).foldl Significand.whole .zero)
              (afterDigits (c :: cs) ++ rest')
          else failNext .invalidNumber (c :: cs ++ rest') := by
      rw [List.cons_append, readUnsigned, ← List.cons_append, (digitsOf_append hr' _).1,
        (digitsOf_append hr' _).1, (digitsOf_append hr' _).2]
    split at h
    · rename_i hc
      split at h
      · rename_i hd
        obtain ⟨rfl, hall⟩ := readAfterWhole_append h
        refine ⟨cs, rfl, fun rest' hr' => ?_⟩
        rw [hunsigned rest' hr', if_pos hc, if_pos hd, hall rest' hr']
      · simp [failNext] at h
    · rename_i hzero
      split at h
      · rename_i hc
        obtain ⟨rfl, hall⟩ := readAfterWhole_append h
        refine ⟨afterDigits (c :: cs), rfl, fun rest' hr' => ?_⟩
        rw [hunsigned rest' hr', if_neg hzero, if_pos hc, hall rest' hr']
      · simp [failNext] at h

theorem readNumber_append {c : Char} (hr : Ended rest)
    (h : readNumber (c :: (cs ++ rest)) = .ok (.int i, behind)) :
    ∃ more, behind = more ++ rest ∧ ∀ rest', Ended rest' →
      readNumber (c :: (cs ++ rest')) = .ok (.int i, more ++ rest') := by
  by_cases hc : c = '-'
  · subst hc
    exact readUnsigned_append hr h
  · rw [readNumber_of_ne hc, ← List.cons_append] at h
    obtain ⟨more, hmore, hall⟩ := readUnsigned_append hr h
    refine ⟨more, hmore, fun rest' hr' => ?_⟩
    rw [readNumber_of_ne hc]
    exact hall rest' hr'

end

theorem numeral_of_stands {c : Char} (h : Stands (c :: cs) rest)
    (hc : c = '-' ∨ isDigit c = true) : Numeral (c :: cs) rest := by
  generalize htext : c :: cs = text at h
  cases h with
  | word hw =>
    simp only [words, List.mem_cons, List.not_mem_nil, or_false] at hw
    rcases hw with rfl | rfl | rfl <;>
      exact absurd (List.cons.inj htext).1 (ne_of_digit hc (by decide))
  | text _ => exact absurd (List.cons.inj htext).1 (ne_of_digit hc (by decide))
  | number hn => exact hn
  | container kind _ =>
    cases kind <;> exact absurd (List.cons.inj htext).1 (ne_of_digit hc (by decide))

theorem local_integer (expected : String) (low high : Int) :
    Local (Reader.integer expected low high) := by
  intro room value rest behind i hv hr h rest' hr'
  obtain ⟨c, more, hvalue, hdrop⟩ := exists_first hv
  rw [Reader.integer, atValue, hdrop] at h ⊢
  simp only at h ⊢
  split at h
  · rename_i hc
    split at h
    · simp at h
    · rename_i hn
      split at h
      · rename_i hrange
        obtain ⟨rfl, rfl⟩ := Prod.mk.inj (Except.ok.inj h)
        obtain ⟨after, -, hall⟩ := readNumber_append hr hn
        -- the number is the whole value
        have hskip := skipNumber_of_readNumber (hall [] ended_nil)
        rw [List.append_nil, List.append_nil,
          skipNumber_of_numeral (numeral_of_stands (hvalue ▸ hv) hc) ended_nil] at hskip
        obtain rfl := Except.ok.inj hskip
        rw [if_pos hc, hall rest' hr']
        exact if_pos hrange
      · simp [fail] at h
    · simp [fail] at h
  · exact absurd h unexpected_ne_ok

theorem local_natural (expected : String) (bits : Nat) :
    Local (Codec.natural expected bits).read := by
  intro room value rest behind n hv hr h rest' hr'
  obtain ⟨i, hi, rfl⟩ := integer_of_natural h
  simp only [Codec.natural, local_integer _ _ _ hv hr hi rest' hr']

theorem stands_word {c : Char} {letters : List Char} (hw : c :: letters ∈ words)
    (h : Stands (c :: cs) rest) : cs = letters ++ rest := by
  simp only [words, List.mem_cons, List.not_mem_nil, or_false] at hw
  generalize htext : c :: cs = text at h
  cases h with
  | word hw' =>
    simp only [words, List.mem_cons, List.not_mem_nil, or_false] at hw'
    rcases hw with hw | hw | hw <;> rcases hw' with rfl | rfl | rfl <;> simp_all
  | text _ => rcases hw with hw | hw | hw <;> simp_all
  | number hn =>
    obtain ⟨d, more, rfl, hd⟩ := hn.head
    obtain rfl := (List.cons.inj htext).1
    rcases hw with hw | hw | hw <;>
      exact absurd (List.cons.inj hw).1 (ne_of_digit hd (by decide))
  | container kind _ => cases kind <;> rcases hw with hw | hw | hw <;> simp_all [Container.bracket]

theorem local_option {α : Type} {read : Reader α} (hl : Local read) : Local read.option := by
  intro room value rest behind a hv hr h rest' hr'
  obtain ⟨c, more, hvalue, hdrop⟩ := exists_first hv
  rw [option_of_first (hdrop _)] at h ⊢
  split at h
  · rename_i hc
    subst hc
    have hword : more = ['u', 'l', 'l'] := by
      have hw : Stands ('n' :: more) [] := hvalue ▸ hv
      have hletters : more = ['u', 'l', 'l'] ++ [] := stands_word (by decide) hw
      rwa [List.append_nil] at hletters
    rw [hword] at h ⊢
    obtain ⟨rfl, -⟩ := Prod.mk.inj (Except.ok.inj h)
    rfl
  · rename_i hc
    rw [if_neg hc]
    split at h
    · simp at h
    · rename_i hread
      obtain ⟨rfl, -⟩ := Prod.mk.inj (Except.ok.inj h)
      have hv' : Stands (dropSpace (c :: more)) [] := by
        rw [dropSpace_cons hvalue]
        exact hvalue ▸ hv
      have hback := hl hv' hr hread rest' hr'
      rw [List.cons_append] at hback
      rw [hback]

end LedgerClient.Json
