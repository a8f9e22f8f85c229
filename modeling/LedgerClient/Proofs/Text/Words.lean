import LedgerClient.Text.Blank
import Mathlib.Data.List.TakeWhile

/-!
# Words and the blanks between them

A text is trimmed to nothing just if all of it is blank, and not at all if nothing of it is. Its pieces
are made of its own characters. A text whose words are joined by single spaces again is the text itself
with a space for every run of blanks and none at its ends (`spaced`), which goes along the text
character by character.
-/

namespace LedgerClient.Text

theorem of_ascii {P : Char → Prop} (h : ∀ n < 128, P (Char.ofNat n)) :
    ∀ c : Char, c.toNat < 128 → P c := by
  intro c hc
  have hchar := h c.toNat hc
  rwa [Char.ofNat_toNat] at hchar

/-! ## Blanks at the ends -/

section

variable {cs : List Char}

theorem trim_eq_nil_iff : trim cs = [] ↔ ∀ c ∈ cs, isBlank c = true := by
  rw [trim, trimEnd, List.reverse_eq_nil_iff, List.dropWhile_eq_nil_iff]
  simp only [List.mem_reverse, trimStart]
  constructor
  · intro h
    by_contra hne
    obtain ⟨c, hc, hb⟩ : ∃ c ∈ cs, isBlank c ≠ true := by simpa using hne
    -- the first character that is not blank is still there
    have hd : cs.dropWhile isBlank ≠ [] := by
      rw [ne_eq, List.dropWhile_eq_nil_iff]
      intro hall
      exact hb (hall c hc)
    have hhead := List.head_dropWhile_not isBlank hd
    rw [h _ (List.head_mem hd)] at hhead
    cases hhead
  · intro h c hc
    exact h c (List.dropWhile_suffix isBlank |>.subset hc)

theorem dropWhile_of_not_blank (h : ∀ c ∈ cs, isBlank c = false) : cs.dropWhile isBlank = cs := by
  cases cs with
  | nil => rfl
  | cons c cs => rw [List.dropWhile_cons_of_neg (by simp [h c List.mem_cons_self])]

theorem trim_of_not_blank (h : ∀ c ∈ cs, isBlank c = false) : trim cs = cs := by
  have hreverse : ∀ c ∈ cs.reverse, isBlank c = false := fun c hc => h c (List.mem_reverse.mp hc)
  rw [trim, trimStart, dropWhile_of_not_blank h, trimEnd, dropWhile_of_not_blank hreverse,
    List.reverse_reverse]

end

/-! ## Pieces -/

section

variable {separates : Char → Bool} {piece cs rest : List Char} {c : Char}

theorem pieces_append (h : ∀ c ∈ piece, separates c = false) (hc : separates c = true)
    (rest : List Char) : pieces separates (piece ++ c :: rest) = piece :: pieces separates rest := by
  induction piece with
  | nil => rw [List.nil_append, pieces, if_pos hc]
  | cons d piece ih =>
    obtain ⟨hd, hpiece⟩ := List.forall_mem_cons.mp h
    rw [List.cons_append, pieces, hd, ih hpiece]
    rfl

theorem exists_pieces (separates : Char → Bool) (cs : List Char) :
    ∃ p ps, pieces separates cs = p :: ps := List.exists_cons_of_ne_nil (pieces_ne_nil separates cs)

theorem pieces_cons_of_not (hc : separates c = false) {p : List Char} {ps : List (List Char)}
    (h : pieces separates rest = p :: ps) : pieces separates (c :: rest) = (c :: p) :: ps := by
  rw [pieces, hc, h]
  rfl

theorem pieces_cons_of_separates (hc : separates c = true) (cs : List Char) :
    pieces separates (c :: cs) = [] :: pieces separates cs := by
  rw [pieces, if_pos hc]

theorem pieces_of_not (h : ∀ c ∈ cs, separates c = false) : pieces separates cs = [cs] := by
  induction cs with
  | nil => rfl
  | cons c cs ih =>
    obtain ⟨hc, hcs⟩ := List.forall_mem_cons.mp h
    exact pieces_cons_of_not hc (ih hcs)

theorem mem_of_mem_pieces (hp : piece ∈ pieces separates cs) (hc : c ∈ piece) : c ∈ cs := by
  induction cs generalizing piece with
  | nil =>
    rw [pieces, List.mem_singleton] at hp
    rwa [hp] at hc
  | cons d cs ih =>
    by_cases hd : separates d = true
    · rw [pieces_cons_of_separates hd] at hp
      rcases List.mem_cons.mp hp with rfl | hp
      · cases hc
      · exact List.mem_cons_of_mem d (ih hp hc)
    · obtain ⟨q, qs, hq⟩ := exists_pieces separates cs
      rw [pieces_cons_of_not (by simpa using hd) hq] at hp
      rw [hq] at ih
      rcases List.mem_cons.mp hp with rfl | hp
      · rcases List.mem_cons.mp hc with rfl | hc
        · exact List.mem_cons_self
        · exact List.mem_cons_of_mem d (ih List.mem_cons_self hc)
      · exact List.mem_cons_of_mem d (ih (List.mem_cons_of_mem q hp) hc)

end

/-! ## Words -/

variable {c : Char} {cs word rest : List Char}

theorem words_append (hne : word ≠ []) (h : ∀ c ∈ word, isBlank c = false) (hc : isBlank c = true)
    (rest : List Char) : words (word ++ c :: rest) = word :: words rest := by
  rw [words, pieces_append h hc, List.filter_cons_of_pos (by simpa using hne), words]

theorem words_of_not_blank (hne : word ≠ []) (h : ∀ c ∈ word, isBlank c = false) :
    words word = [word] := by
  rw [words, pieces_of_not h, List.filter_cons_of_pos (by simpa using hne), List.filter_nil]

theorem words_cons_of_blank (hc : isBlank c = true) (cs : List Char) :
    words (c :: cs) = words cs := by
  rw [words, pieces_cons_of_separates hc, List.filter_cons_of_neg (by simp), words]

theorem words_ne_nil (h : ∃ c ∈ cs, isBlank c = false) : words cs ≠ [] := by
  induction cs with
  | nil => simp at h
  | cons c cs ih =>
    by_cases hc : isBlank c = true
    · rw [words_cons_of_blank hc]
      obtain ⟨d, hd, hblank⟩ := h
      rcases List.mem_cons.mp hd with rfl | hd
      · rw [hc] at hblank
        cases hblank
      · exact ih ⟨d, hd, hblank⟩
    · obtain ⟨p, ps, hp⟩ := exists_pieces isBlank cs
      rw [words, pieces_cons_of_not (by simpa using hc) hp, List.filter_cons_of_pos (by simp)]
      simp

/-! ## Words that are joined again -/

/-- The words of a text with a single space between two of them. -/
def rejoined (s : String) : String := joinWith " " ((words s.toList).map String.ofList)

/-- A space and a word for each word. -/
def spread (ws : List (List Char)) : List Char := ws.flatMap (' ' :: ·)

theorem toList_joinWith (w : List Char) (ws : List (List Char)) :
    (joinWith " " ((w :: ws).map String.ofList)).toList = w ++ spread ws := by
  induction ws generalizing w with
  | nil => simp [joinWith, spread]
  | cons v ws ih =>
    simp only [List.map_cons, joinWith] at ih ⊢
    rw [String.toList_append, String.toList_append, ih]
    simp [spread]

/-- A text with a single space for each run of blanks, and none at its end. -/
def spaced (cs : List Char) : List Char :=
  match pieces isBlank cs with
  | [] => []
  | p :: ps => p ++ spread (ps.filter (!·.isEmpty))

theorem spaced_of_pieces {p : List Char} {ps : List (List Char)} (h : pieces isBlank cs = p :: ps) :
    spaced cs = p ++ spread (ps.filter (!·.isEmpty)) := by
  rw [spaced, h]

theorem spaced_cons_of_not_blank (hc : isBlank c = false) (cs : List Char) :
    spaced (c :: cs) = c :: spaced cs := by
  obtain ⟨p, ps, hp⟩ := exists_pieces isBlank cs
  rw [spaced_of_pieces (pieces_cons_of_not hc hp), spaced_of_pieces hp, List.cons_append]

theorem spaced_cons_of_blank (hc : isBlank c = true) (cs : List Char) :
    spaced (c :: cs) = spread (words cs) := by
  rw [spaced_of_pieces (pieces_cons_of_separates hc cs), List.nil_append, words]

theorem spaced_blank_word {d : Char} (hc : isBlank c = true) (hd : isBlank d = false)
    (cs : List Char) : spaced (c :: d :: cs) = ' ' :: spaced (d :: cs) := by
  obtain ⟨p, ps, hp⟩ := exists_pieces isBlank cs
  have hpieces := pieces_cons_of_not hd hp
  rw [spaced_cons_of_blank hc, words, hpieces, List.filter_cons_of_pos (by simp),
    spaced_of_pieces hpieces]
  rfl

theorem spaced_blank_cases (hc : isBlank c = true) (cs : List Char) :
    spaced (c :: cs) = ' ' :: spaced cs ∨
      spaced (c :: cs) = spaced cs ∧ (spaced cs = [] ∨ ∃ more, spaced cs = ' ' :: more) := by
  cases cs with
  | nil => exact .inr ⟨spaced_cons_of_blank hc [], .inl rfl⟩
  | cons d more =>
    by_cases hd : isBlank d = true
    · rw [spaced_cons_of_blank hc, words_cons_of_blank hd, spaced_cons_of_blank hd]
      cases words more with
      | nil => exact .inr ⟨rfl, .inl rfl⟩
      | cons w ws => exact .inr ⟨rfl, .inr ⟨_, rfl⟩⟩
    · exact .inl (spaced_blank_word hc (by simpa using hd) more)

theorem rejoined_cases (s : String) :
    spaced s.toList = (rejoined s).toList ∨ spaced s.toList = ' ' :: (rejoined s).toList := by
  obtain ⟨p, ps, hp⟩ := exists_pieces isBlank s.toList
  rw [spaced_of_pieces hp, rejoined, words, hp]
  cases p with
  | nil =>
    rw [List.filter_cons_of_neg (by simp), List.nil_append]
    cases ps.filter (!·.isEmpty) with
    | nil => exact .inl rfl
    | cons w ws =>
      rw [toList_joinWith]
      exact .inr rfl
  | cons c p =>
    rw [List.filter_cons_of_pos (by simp), toList_joinWith]
    exact .inl rfl

end LedgerClient.Text
