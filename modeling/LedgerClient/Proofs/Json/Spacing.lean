import LedgerClient.Proofs.Json.Denotation
import LedgerClient.Proofs.Json.Layout

/-!
# Blanks between the parts of a text

Two texts are `Respaced` if one has blanks where the other has them, except within strings, where
they are the same. It takes no grammar to say so, only whether a quote opens or closes a string. What
is read off the beginning of one of them, a word, a string or a number, is read off the other as well,
and what is left of them is respaced again.
-/

namespace LedgerClient.Json

/-- Where a character of a text stands, as to the strings in it. -/
inductive Side
  | outside
  | inside
  /-- Behind a backslash in a string. -/
  | escaped
deriving DecidableEq

/-- The side behind a character. -/
def Side.behind (side : Side) (c : Char) : Side :=
  match side with
  | .outside => if c = '"' then .inside else .outside
  | .inside => if c = '"' then .outside else if c = '\\' then .escaped else .inside
  | .escaped => .inside

/-- The texts have the same characters, but for the number and the kind of the blanks that stand
outside of strings, of which there may be any at the end. -/
inductive Respaced : Side → List Char → List Char → Prop
  | same {side : Side} {c : Char} {cs cs' : List Char} :
      (side = .outside → isSpace c = false) → Respaced (side.behind c) cs cs' →
      Respaced side (c :: cs) (c :: cs')
  | blanks {b b' : Char} {cs cs' : List Char} :
      isSpace b = true → isSpace b' = true → Respaced .outside (dropSpace cs) (dropSpace cs') →
      Respaced .outside (b :: cs) (b' :: cs')
  | ending {cs cs' : List Char} : Blank cs → Blank cs' → Respaced .outside cs cs'
  | nil {side : Side} : Respaced side [] []

/-- The texts are respaced but for the blanks that they begin with. -/
def SameParts (cs cs' : List Char) : Prop := Respaced .outside (dropSpace cs) (dropSpace cs')

variable {side : Side} {c : Char} {cs cs' rest : List Char}

theorem Respaced.symm (h : Respaced side cs cs') : Respaced side cs' cs := by
  induction h with
  | same hc _ ih => exact .same hc ih
  | blanks hb hb' _ ih => exact .blanks hb' hb ih
  | ending hb hb' => exact .ending hb' hb
  | nil => exact .nil

theorem SameParts.symm (h : SameParts cs cs') : SameParts cs' cs := Respaced.symm h

/-! ## The first character -/

theorem Respaced.behind (h : Respaced side (c :: cs) cs')
    (hc : side = .outside → isSpace c = false) :
    ∃ more, cs' = c :: more ∧ Respaced (side.behind c) cs more := by
  cases h with
  | same _ h => exact ⟨_, rfl, h⟩
  | blanks hb _ _ =>
    rw [hc rfl] at hb
    cases hb
  | ending hb _ =>
    have := hb c List.mem_cons_self
    rw [hc rfl] at this
    cases this

theorem Respaced.solid (h : Respaced .outside (c :: cs) cs') (hc : isSpace c = false)
    (hq : c ≠ '"') : ∃ more, cs' = c :: more ∧ Respaced .outside cs more := by
  have hbehind := h.behind fun _ => hc
  rwa [Side.behind, if_neg hq] at hbehind

theorem Respaced.sameParts (h : Respaced .outside cs cs') : SameParts cs cs' := by
  unfold SameParts
  cases h with
  | @same _ c _ _ hc h =>
    have hsolid : ¬ isSpace c = true := by simp [hc rfl]
    rw [dropSpace, dropSpace, List.dropWhile_cons_of_neg hsolid, List.dropWhile_cons_of_neg hsolid]
    exact .same hc h
  | blanks hb hb' h =>
    rwa [dropSpace, dropSpace, List.dropWhile_cons_of_pos hb, List.dropWhile_cons_of_pos hb']
  | ending hb hb' =>
    rw [dropSpace_of_blank hb, dropSpace_of_blank hb']
    exact .nil
  | nil => exact .nil

theorem SameParts.dropSpace (h : SameParts cs cs') :
    SameParts (Json.dropSpace cs) (Json.dropSpace cs') := by
  unfold SameParts
  rwa [dropSpace_dropSpace, dropSpace_dropSpace]

theorem SameParts.next (h : SameParts cs cs') (hcs : Json.dropSpace cs = c :: rest) :
    ∃ rest', Json.dropSpace cs' = c :: rest' ∧ Respaced (Side.outside.behind c) rest rest' := by
  unfold SameParts at h
  rw [hcs] at h
  exact h.behind fun _ => isSpace_of_dropSpace hcs

theorem SameParts.behind (h : SameParts cs cs') (hcs : Json.dropSpace cs = c :: rest)
    (hc : c ≠ '"') :
    ∃ rest', Json.dropSpace cs' = c :: rest' ∧ Respaced .outside rest rest' := by
  have hnext := h.next hcs
  rwa [Side.behind, if_neg hc] at hnext

theorem SameParts.ended (h : SameParts cs cs') (hcs : Json.dropSpace cs = []) :
    Json.dropSpace cs' = [] := by
  cases hcs' : Json.dropSpace cs' with
  | nil => rfl
  | cons c more =>
    obtain ⟨rest, hrest, -⟩ := h.symm.next hcs'
    rw [hcs] at hrest
    cases hrest

theorem Respaced.unbegun {P : Char → Prop} (h : Respaced .outside cs cs')
    (hP : ∀ c, P c → isSpace c = false) (hcs : ∀ c more, cs = c :: more → ¬ P c) :
    ∀ c more, cs' = c :: more → ¬ P c := by
  rintro c more rfl hc
  obtain ⟨more', rfl, -⟩ := h.symm.behind fun _ => hP c hc
  exact hcs c more' rfl hc

/-! ## Words and strings -/

theorem Respaced.letters {letters : List Char} (h : Respaced .outside (letters ++ rest) cs')
    (hl : ∀ c ∈ letters, isSpace c = false ∧ c ≠ '"') :
    ∃ rest', cs' = letters ++ rest' ∧ Respaced .outside rest rest' := by
  induction letters generalizing cs' with
  | nil => exact ⟨cs', rfl, h⟩
  | cons c letters ih =>
    obtain ⟨hc, hl⟩ := List.forall_mem_cons.mp hl
    obtain ⟨more, rfl, hmore⟩ := h.solid hc.1 hc.2
    obtain ⟨rest', rfl, hrest⟩ := ih hmore hl
    exact ⟨rest', rfl, hrest⟩

theorem word_append (letters rest : List Char) : word letters (letters ++ rest) = .ok rest := by
  induction letters with
  | nil => rfl
  | cons l letters ih => rw [List.cons_append, word, if_pos rfl, ih]

theorem word_respaced {letters : List Char} (h : Respaced .outside cs cs')
    (hl : ∀ c ∈ letters, isSpace c = false ∧ c ≠ '"') (hw : word letters cs = .ok rest) :
    ∃ rest', word letters cs' = .ok rest' ∧ Respaced .outside rest rest' := by
  rw [eq_of_word hw] at h
  obtain ⟨rest', rfl, hrest⟩ := h.letters hl
  exact ⟨rest', word_append letters rest', hrest⟩

theorem Respaced.inside (h : Respaced .inside (c :: cs) cs') :
    ∃ more, cs' = c :: more ∧ Respaced (Side.inside.behind c) cs more := h.behind nofun

theorem Respaced.hexDigit {m : Nat} (h : Respaced .inside (c :: cs) cs')
    (hc : hexValue? c = some m) : ∃ more, cs' = c :: more ∧ Respaced .inside cs more := by
  have hquote : c ≠ '"' := by
    rintro rfl
    cases hc
  have hslash : c ≠ '\\' := by
    rintro rfl
    cases hc
  have hinside := h.inside
  rwa [Side.behind, if_neg hquote, if_neg hslash] at hinside

theorem Respaced.hexDigits {d e f : Char} {n : Nat}
    (h : Respaced .inside (c :: d :: e :: f :: cs) cs') (hn : hexNumber? c d e f = some n) :
    ∃ more, cs' = c :: d :: e :: f :: more ∧ Respaced .inside cs more := by
  obtain ⟨w, x, y, z, hc, hd, he, hf, -⟩ := digits_of_hexNumber? hn
  obtain ⟨_, rfl, h₁⟩ := h.hexDigit hc
  obtain ⟨_, rfl, h₂⟩ := h₁.hexDigit hd
  obtain ⟨_, rfl, h₃⟩ := h₂.hexDigit he
  obtain ⟨more, rfl, h₄⟩ := h₃.hexDigit hf
  exact ⟨more, rfl, h₄⟩

theorem Respaced.escape {l : Char} (h : Respaced .inside ('\\' :: l :: cs) cs') :
    ∃ more, cs' = '\\' :: l :: more ∧ Respaced .inside cs more := by
  obtain ⟨_, rfl, hbehind⟩ := h.inside
  obtain ⟨more, rfl, hletter⟩ := hbehind.behind nofun
  exact ⟨more, rfl, hletter⟩

theorem denotes_respaced {s : List Char} (h : Denotes cs s rest) (hr : Respaced .inside cs cs') :
    ∃ rest', Denotes cs' s rest' ∧ Respaced .outside rest rest' := by
  induction h generalizing cs' with
  | close =>
    obtain ⟨more, rfl, hmore⟩ := hr.inside
    exact ⟨more, .close, hmore⟩
  | plain hquote hslash hcontrol _ ih =>
    obtain ⟨more, rfl, hmore⟩ := hr.inside
    rw [Side.behind, if_neg hquote, if_neg hslash] at hmore
    obtain ⟨rest', hd, hrest⟩ := ih hmore
    exact ⟨rest', .plain hquote hslash hcontrol hd, hrest⟩
  | letter he _ ih =>
    obtain ⟨more, rfl, hmore⟩ := hr.escape
    obtain ⟨rest', hd, hrest⟩ := ih hmore
    exact ⟨rest', .letter he hd, hrest⟩
  | unit hn hhigh hlow _ ih =>
    obtain ⟨_, rfl, hescape⟩ := hr.escape
    obtain ⟨more, rfl, hmore⟩ := hescape.hexDigits hn
    obtain ⟨rest', hd, hrest⟩ := ih hmore
    exact ⟨rest', .unit hn hhigh hlow hd, hrest⟩
  | pair hn hhigh hm hlow _ ih =>
    obtain ⟨_, rfl, hhigh'⟩ := hr.escape
    obtain ⟨_, rfl, hbehind⟩ := hhigh'.hexDigits hn
    obtain ⟨_, rfl, hlow'⟩ := hbehind.escape
    obtain ⟨more, rfl, hmore⟩ := hlow'.hexDigits hm
    obtain ⟨rest', hd, hrest⟩ := ih hmore
    exact ⟨rest', .pair hn hhigh hm hlow hd, hrest⟩

theorem readText_respaced {s : List Char} (h : readText cs = .ok (s, rest))
    (hr : Respaced .inside cs cs') :
    ∃ rest', readText cs' = .ok (s, rest') ∧ Respaced .outside rest rest' := by
  obtain ⟨rest', hd, hrest⟩ := denotes_respaced (readText_eq_ok_iff.mp h) hr
  exact ⟨rest', readText_eq_ok_iff.mpr hd, hrest⟩

/-! ## Numbers -/

/-- What the one step reads the other reads as well, and leaves the same parts of its text. -/
def Copies {α : Type} (read read' : Step α) : Prop :=
  ∀ ⦃a rest⦄, read = .ok (a, rest) → ∃ rest', read' = .ok (a, rest') ∧ SameParts rest rest'

theorem Copies.ok {α : Type} {rest' : List Char} (a : α) (h : SameParts rest rest') :
    Copies (.ok (a, rest)) (.ok (a, rest')) := by
  intro b behind hb
  obtain ⟨rfl, rfl⟩ := Prod.mk.inj (Except.ok.inj hb)
  exact ⟨rest', rfl, h⟩

theorem Copies.error {α : Type} (stop : Stop) (read' : Step α) : Copies (.error stop) read' :=
  nofun

theorem Respaced.digit (h : Respaced .outside (c :: cs) cs') (hc : isDigit c = true) :
    ∃ more, cs' = c :: more ∧ Respaced .outside cs more :=
  h.solid (isSpace_of_digit (.inr hc)) (ne_of_digit (.inr hc) (by decide))

theorem digitsOf_of_unbegun (h : ∀ c more, cs = c :: more → ¬ isDigit c = true) :
    digitsOf cs = [] := by
  cases cs with
  | nil => rfl
  | cons c more => exact List.takeWhile_cons_of_neg (h c more rfl)

theorem Respaced.digits (h : Respaced .outside cs cs') :
    digitsOf cs' = digitsOf cs ∧ Respaced .outside (afterDigits cs) (afterDigits cs') := by
  have hnone {cs cs' : List Char} (h : Respaced .outside cs cs')
      (hcs : ∀ c more, cs = c :: more → ¬ isDigit c = true) :
      digitsOf cs' = digitsOf cs ∧ Respaced .outside (afterDigits cs) (afterDigits cs') := by
    have hdigits := digitsOf_of_unbegun hcs
    have hdigits' := digitsOf_of_unbegun (h.unbegun (fun c hc => isSpace_of_digit (.inr hc)) hcs)
    rw [hdigits, hdigits', afterDigits_of_digitsOf hdigits, afterDigits_of_digitsOf hdigits']
    exact ⟨rfl, h⟩
  induction cs generalizing cs' with
  | nil => exact hnone h nofun
  | cons c cs ih =>
    by_cases hc : isDigit c = true
    · obtain ⟨more, rfl, hmore⟩ := h.digit hc
      obtain ⟨hdigits, hafter⟩ := ih hmore
      simp only [digitsOf, afterDigits, List.takeWhile_cons_of_pos hc,
        List.dropWhile_cons_of_pos hc] at hdigits hafter ⊢
      exact ⟨congrArg _ hdigits, hafter⟩
    · exact hnone h fun d _ hcs => (List.cons.inj hcs).1 ▸ hc

variable {negative : Bool} {s : Significand} {n : Number}

theorem copies_double (scale : Int) (h : Respaced .outside cs cs') :
    Copies (double negative s scale cs) (double negative s scale cs') := by
  unfold double
  split
  · exact .ok _ h.sameParts
  · exact .error _ _

theorem copies_wholeNumber (h : Respaced .outside cs cs') :
    Copies (wholeNumber negative s cs) (wholeNumber negative s cs') := by
  unfold wholeNumber
  split
  · exact copies_double _ h
  · split
    · split
      · exact copies_double _ h
      · exact .ok _ h.sameParts
    · exact .ok _ h.sameParts

theorem toOption_exponentDigits (value : Nat) (cs : List Char) :
    (exponentDigits value cs).toOption = (exponentDigits value (digitsOf cs)).toOption := by
  induction cs generalizing value with
  | nil => rfl
  | cons c cs ih =>
    by_cases hc : isDigit c = true
    · rw [digitsOf, List.takeWhile_cons_of_pos hc, exponentDigits, exponentDigits, if_pos hc,
        if_pos hc]
      simp only
      split
      · exact ih _
      · rfl
    · rw [digitsOf, List.takeWhile_cons_of_neg hc, exponentDigits, exponentDigits, if_neg hc]

theorem alike_of_toOption {ε α : Type} {read read' : Except ε α}
    (h : read.toOption = read'.toOption) :
    (∃ a, read = .ok a ∧ read' = .ok a) ∨ ∃ e e', read = .error e ∧ read' = .error e' := by
  cases read with
  | ok a =>
    cases read' with
    | ok b => exact .inl ⟨a, rfl, congrArg Except.ok (Option.some.inj h).symm⟩
    | error _ => cases h
  | error e =>
    cases read' with
    | ok _ => cases h
    | error e' => exact .inr ⟨e, e', rfl, rfl⟩

theorem copies_signedExponent {sign : Char} (hs : sign = '-' ∨ sign = '+')
    (h : Respaced .outside cs cs') :
    Copies (readExponent negative s (sign :: cs)) (readExponent negative s (sign :: cs')) := by
  have hvalue : (exponentDigits 0 cs).toOption = (exponentDigits 0 cs').toOption := by
    rw [toOption_exponentDigits, ← h.digits.1, ← toOption_exponentDigits]
  have hafter := h.digits.2
  rcases hs with rfl | rfl
  all_goals
    cases cs with
    | nil => exact .error _ _
    | cons c cs =>
      by_cases hc : isDigit c = true
      · obtain ⟨more, rfl, -⟩ := h.digit hc
        simp only [readExponent, hc, if_true]
        rcases alike_of_toOption hvalue with ⟨e, he, he'⟩ | ⟨_, _, he, he'⟩
        · rw [he, he']
          exact copies_double _ hafter
        · rw [he, he']
          simp only
          split
          · exact .error _ _
          · exact copies_double _ hafter
      · simp only [readExponent, hc]
        exact .error _ _

theorem readExponent_of_unsigned (h : ∀ c more, cs = c :: more → ¬ (c = '-' ∨ c = '+')) :
    readExponent negative s cs = readExponent negative s ('+' :: cs) := by
  cases cs with
  | nil => rfl
  | cons c cs =>
    obtain ⟨hminus, hplus⟩ := not_or.mp (h c cs rfl)
    simp [readExponent, hminus, hplus]

theorem copies_readExponent (h : Respaced .outside cs cs') :
    Copies (readExponent negative s cs) (readExponent negative s cs') := by
  by_cases hs : ∃ c more, cs = c :: more ∧ (c = '-' ∨ c = '+')
  · obtain ⟨c, more, rfl, hs⟩ := hs
    obtain ⟨more', rfl, hmore⟩ := h.solid (by rcases hs with rfl | rfl <;> rfl)
      (by rcases hs with rfl | rfl <;> decide)
    exact copies_signedExponent hs hmore
  · have hne : ∀ c more, cs = c :: more → ¬ (c = '-' ∨ c = '+') :=
      fun c more hcs hc => hs ⟨c, more, hcs, hc⟩
    have hne' := h.unbegun (by rintro c (rfl | rfl) <;> rfl) hne
    rw [readExponent_of_unsigned hne, readExponent_of_unsigned hne']
    exact copies_signedExponent (.inr rfl) h

theorem copies_readFraction (h : Respaced .outside cs cs') :
    Copies (readFraction negative s cs) (readFraction negative s cs') := by
  obtain ⟨hdigits, hafter⟩ := h.digits
  unfold readFraction
  rw [hdigits]
  by_cases hnone : digitsOf cs = []
  · rw [if_pos hnone]
    split <;> exact .error _ _
  · rw [if_neg hnone, if_neg hnone]
    simp only
    split
    · rename_i more hcs
      rw [hcs] at hafter
      obtain ⟨more', hcs', hmore⟩ := hafter.solid (by decide) (by decide)
      rw [hcs']
      exact copies_readExponent hmore
    · rename_i more hcs
      rw [hcs] at hafter
      obtain ⟨more', hcs', hmore⟩ := hafter.solid (by decide) (by decide)
      rw [hcs']
      exact copies_readExponent hmore
    · rename_i hlower hupper
      have hnot := hafter.unbegun (P := fun c => c = 'e' ∨ c = 'E')
        (by rintro c (rfl | rfl) <;> rfl) (by
          rintro c more hcs (rfl | rfl)
          · exact hlower _ hcs
          · exact hupper _ hcs)
      split
      · exact absurd (.inl rfl) (hnot _ _ ‹_›)
      · exact absurd (.inr rfl) (hnot _ _ ‹_›)
      · exact copies_double _ hafter

theorem copies_readAfterWhole (h : Respaced .outside cs cs') :
    Copies (readAfterWhole negative s cs) (readAfterWhole negative s cs') := by
  unfold readAfterWhole
  split
  · obtain ⟨more, rfl, hmore⟩ := h.solid (by decide) (by decide)
    exact copies_readFraction hmore
  · obtain ⟨more, rfl, hmore⟩ := h.solid (by decide) (by decide)
    exact copies_readExponent hmore
  · obtain ⟨more, rfl, hmore⟩ := h.solid (by decide) (by decide)
    exact copies_readExponent hmore
  · rename_i hpoint hlower hupper
    have hnot := h.unbegun (P := fun c => c = '.' ∨ c = 'e' ∨ c = 'E')
      (by rintro c (rfl | rfl | rfl) <;> rfl) (by
        rintro c more rfl (rfl | rfl | rfl)
        · exact hpoint _ rfl
        · exact hlower _ rfl
        · exact hupper _ rfl)
    split
    · exact absurd (.inl rfl) (hnot _ _ rfl)
    · exact absurd (.inr (.inl rfl)) (hnot _ _ rfl)
    · exact absurd (.inr (.inr rfl)) (hnot _ _ rfl)
    · exact copies_wholeNumber h

theorem copies_readUnsigned (h : Respaced .outside cs cs') :
    Copies (readUnsigned negative cs) (readUnsigned negative cs') := by
  cases cs with
  | nil => exact .error _ _
  | cons c cs =>
    by_cases hc : isDigit c = true
    · obtain ⟨hdigits, hafter⟩ := h.digits
      obtain ⟨more, rfl, hmore⟩ := h.digit hc
      simp only [readUnsigned, hc, if_true, hmore.digits.1, hdigits]
      split
      · split
        · exact copies_readAfterWhole hmore
        · exact .error _ _
      · exact copies_readAfterWhole hafter
    · have hzero : c ≠ '0' := by
        rintro rfl
        exact hc rfl
      rw [readUnsigned, if_neg hzero, if_neg hc]
      exact .error _ _

theorem copies_readNumber (h : Respaced .outside (c :: cs) cs')
    (hc : c = '-' ∨ isDigit c = true) :
    Copies (readNumber (c :: cs)) (readNumber cs') := by
  by_cases hminus : c = '-'
  · subst hminus
    obtain ⟨more, rfl, hmore⟩ := h.solid (by decide) (by decide)
    exact copies_readUnsigned hmore
  · have hunsigned : Copies (readUnsigned false (c :: cs)) (readUnsigned false cs') :=
      copies_readUnsigned h
    obtain ⟨more, rfl, -⟩ := h.digit (hc.resolve_left hminus)
    rwa [readNumber_of_ne hminus, readNumber_of_ne hminus]

end LedgerClient.Json
