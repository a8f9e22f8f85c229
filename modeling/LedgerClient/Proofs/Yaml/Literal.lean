import LedgerClient.Proofs.Yaml.Quoted

/-!
# Literal scalars are read back

A text with line breaks is made of lines, empty ones apart (`Lines`). The reader finds their column
from the header or from the first line, puts the lines together again, and keeps as many of the line
breaks at the end as the header says.
-/

namespace LedgerClient.Yaml

variable {c : Char} {xs ys bs more rest : List Char} {line column col fuel indent widest : Nat}
  {spots next : List Spot}

/-! ## Lines -/

/-- A text that begins with a line that is not empty. -/
inductive Lines : List Char → Prop
  | last {line : List Char} (hne : line ≠ []) (hline : ∀ c ∈ line, IsInline c) : Lines line
  | ended {line breaks : List Char} {b : Char} (hne : line ≠ []) (hline : ∀ c ∈ line, IsInline c)
    (hbreaks : ∀ c ∈ b :: breaks, isPrintable c = true ∧ isLineBreak c = true) :
    Lines (line ++ b :: breaks)
  | next {line breaks tail : List Char} {b : Char} (hne : line ≠ [])
    (hline : ∀ c ∈ line, IsInline c)
    (hbreaks : ∀ c ∈ b :: breaks, isPrintable c = true ∧ isLineBreak c = true)
    (htail : Lines tail) : Lines (line ++ b :: (breaks ++ tail))

theorem Lines.cons (h : Lines xs) (hc : IsInline c) : Lines (c :: xs) := by
  have hcons {line : List Char} (hline : ∀ c ∈ line, IsInline c) : ∀ d ∈ c :: line, IsInline d :=
    List.forall_mem_cons.mpr ⟨hc, hline⟩
  cases h with
  | last hne hline => exact .last (by simp) (hcons hline)
  | ended hne hline hbreaks => exact .ended (by simp) (hcons hline) hbreaks
  | next hne hline hbreaks htail => exact .next (by simp) (hcons hline) hbreaks htail

theorem exists_lines (h : ∀ c ∈ xs, isPrintable c = true) : ∃ breaks tail, xs = breaks ++ tail ∧
    (∀ c ∈ breaks, isPrintable c = true ∧ isLineBreak c = true) ∧ (tail = [] ∨ Lines tail) := by
  induction xs with
  | nil => exact ⟨[], [], rfl, by simp, .inl rfl⟩
  | cons c xs ih =>
    obtain ⟨hc, hxs⟩ := List.forall_mem_cons.mp h
    obtain ⟨breaks, tail, rfl, hbreaks, htail⟩ := ih hxs
    by_cases hbreak : isLineBreak c = true
    · exact ⟨c :: breaks, tail, rfl, List.forall_mem_cons.mpr ⟨⟨hc, hbreak⟩, hbreaks⟩, htail⟩
    · have hinline : IsInline c := ⟨hc, by simpa using hbreak⟩
      refine ⟨[], c :: (breaks ++ tail), rfl, by simp, .inr ?_⟩
      have hline : ∀ d ∈ [c], IsInline d := by simpa using hinline
      rcases htail with rfl | htail
      · cases breaks with
        | nil => exact .last (by simp) hline
        | cons b breaks => simpa using Lines.ended (by simp) hline hbreaks
      · cases breaks with
        | nil => exact htail.cons hinline
        | cons b breaks => simpa using Lines.next (by simp) hline hbreaks htail

/-! ## Empty lines -/

theorem emptyLines?_breaks (h : ∀ c ∈ bs, isPrintable c = true ∧ isLineBreak c = true) :
    emptyLines? (some indent) widest (spotsFrom line 0 (bs ++ more)) =
      (emptyLines? (some indent) widest (spotsFrom (line + bs.length) 0 more)).map
        fun (breaks, rest) => (bs ++ breaks, rest) := by
  induction bs generalizing line with
  | nil => exact Option.map_id'.symm
  | cons c bs ih =>
    obtain ⟨⟨hc, hbreak⟩, hbs⟩ := List.forall_mem_cons.mp h
    have hspacing : (⟨c, line, 0⟩ : Spot).isSpacing = false := by
      rw [Spot.isSpacing, ← Bool.not_eq_true, isSpacing_of_isPrintable hc]
      rintro rfl
      cases hbreak
    have hspot : (⟨c, line, 0⟩ : Spot).isLineBreak = true := hbreak
    rw [List.cons_append, spotsFrom_break hc hbreak, emptyLines?, hspacing, hspot, ih hbs,
      List.length_cons, Nat.add_comm bs.length, ← Nat.add_assoc]
    simp only [Bool.and_false, Bool.false_eq_true, if_false, if_true, Option.map_map]
    rfl

theorem emptyLines?_spaces {front : List Spot}
    (h : ∀ s ∈ front, s.char = ' ' ∧ s.column < indent) (widest : Nat) (spots : List Spot) :
    ∃ widest', emptyLines? (some indent) widest (front ++ spots) =
      emptyLines? (some indent) widest' spots := by
  induction front generalizing widest with
  | nil => exact ⟨widest, rfl⟩
  | cons s front ih =>
    obtain ⟨⟨hspace, hlt⟩, hfront⟩ := List.forall_mem_cons.mp h
    obtain ⟨widest', hrest⟩ := ih hfront (max widest (s.column + 1))
    have hspacing : s.isSpacing = true := by
      rw [Spot.isSpacing, hspace]
      rfl
    refine ⟨widest', ?_⟩
    rw [List.cons_append, emptyLines?, hspacing, hspace, ← hrest]
    simp [hlt]

theorem emptyLines?_stop (h : ∀ s ∈ spots.head?, s.isLineBreak = false ∧
    (s.isSpacing = true → indent ≤ s.column)) :
    emptyLines? (some indent) widest spots = some ([], widest, spots) := by
  cases spots with
  | nil => rfl
  | cons s spots =>
    obtain ⟨hbreak, hspacing⟩ := h s rfl
    rw [emptyLines?, hbreak]
    by_cases hs : s.isSpacing = true
    · have hle : decide (s.column < indent) = false := by simpa using hspacing hs
      simp [hle]
    · simp [hs]

theorem emptyLines?_line (line indent widest : Nat) (more : List Char)
    (h : ∀ c ∈ bs, isPrintable c = true ∧ isLineBreak c = true) (hc : IsInline c) : ∃ widest',
    emptyLines? (some indent) widest (spotsFrom line 0 (bs ++ (indentation indent ++ c :: more))) =
      some (bs, widest', spotsFrom (line + bs.length) indent (c :: more)) := by
  have hfront : ∀ s ∈ spotsFrom (line + bs.length) 0 (indentation indent),
      s.char = ' ' ∧ s.column < indent :=
    fun s hs => by simpa using mem_spotsFrom_indentation hs
  obtain ⟨widest', hspaces⟩ := emptyLines?_spaces hfront widest
    (spotsFrom (line + bs.length) indent (c :: more))
  refine ⟨widest', ?_⟩
  rw [emptyLines?_breaks h, spotsFrom_indentation, Nat.zero_add, hspaces, emptyLines?_stop]
  · simp
  · rw [spotsFrom_inline hc]
    rintro s ⟨⟩
    exact ⟨hc.2, fun _ => Nat.le_refl _⟩

theorem emptyLines?_end (widest : Nat) (h : ∀ c ∈ bs, isPrintable c = true ∧ isLineBreak c = true)
    (hnext : Leads col (spotsFrom (line + bs.length) 0 rest) next) (hcol : col < indent) :
    ∃ widest', emptyLines? (some indent) widest (spotsFrom line 0 (bs ++ rest)) =
      some (bs, widest', next) := by
  obtain ⟨front, hfront, hspaces⟩ := hnext.spaces
  obtain ⟨widest', hrest⟩ := emptyLines?_spaces
    (fun s hs => ⟨(hspaces s hs).1, Nat.lt_trans (hspaces s hs).2 hcol⟩) widest next
  refine ⟨widest', ?_⟩
  rw [emptyLines?_breaks h, hfront, hrest, emptyLines?_stop]
  · simp
  · intro s hs
    have hblank := hnext.not_isBlank s hs
    rw [Spot.isBlank, Bool.or_eq_false_iff] at hblank
    exact ⟨hblank.2, by simp [hblank.1]⟩

theorem emptyLines?_first {count : Nat} (hc : IsInline c) (hspace : c ≠ ' ') :
    emptyLines? none column (spotsFrom line column (indentation count ++ c :: more)) =
      some ([], column + count, spotsFrom line (column + count) (c :: more)) := by
  induction count generalizing column with
  | zero =>
    have hblank : (⟨c, line, column⟩ : Spot).isBlank = false := not_isBlank_of_isInline hc hspace
    rw [Spot.isBlank, Bool.or_eq_false_iff] at hblank
    rw [indentation, List.replicate_zero, List.nil_append, spotsFrom_inline hc, emptyLines?,
      hblank.1, hblank.2]
    simp [spotsFrom_inline hc]
  | succ count ih =>
    have hspot : (⟨' ', line, column⟩ : Spot).isSpacing = true := rfl
    rw [indentation, List.replicate_succ, ← indentation, List.cons_append,
      spotsFrom_inline isInline_space, emptyLines?, hspot]
    simp [ih, Nat.add_comm 1, Nat.add_assoc]

/-! ## Reading lines -/

/-- A text as it is read: its lines, the line break behind the last of them, which is added where
there is none, and the further ones. -/
inductive Ends : (xs text lineEnd breaks : List Char) → Prop
  | added {xs : List Char} (hne : xs ≠ []) (hlast : xs.getLast?.any isLineBreak = false) :
    Ends xs xs ['\n'] []
  | kept {text breaks : List Char} {b : Char} (hne : text ≠ [])
    (hlast : text.getLast?.any isLineBreak = false)
    (hbreaks : ∀ c ∈ b :: breaks, isLineBreak c = true) : Ends (text ++ b :: breaks) text [b] breaks

variable {text lineEnd breaks : List Char}

theorem Ends.append (h : Ends xs text lineEnd breaks) (ys : List Char) :
    Ends (ys ++ xs) (ys ++ text) lineEnd breaks := by
  cases h with
  | added hne hlast =>
    exact .added (by simp [hne]) (by rwa [List.getLast?_append_of_ne_nil _ hne])
  | kept hne hlast hbreaks =>
    rw [← List.append_assoc]
    exact .kept (by simp [hne]) (by rwa [List.getLast?_append_of_ne_nil _ hne]) hbreaks

theorem takeSpots_line (line column : Nat) {b : Char} {xs : List Char} (h : ∀ c ∈ xs, IsInline c)
    (hb : isPrintable b = true ∧ isLineBreak b = true) (more : List Char) :
    takeSpots (!isLineBreak ·) (spotsFrom line column (xs ++ b :: more)) =
      (xs, ⟨b, line, column + xs.length⟩ :: spotsFrom (line + 1) 0 more) := by
  induction xs generalizing column with
  | nil =>
    rw [List.nil_append, spotsFrom_break hb.1 hb.2, takeSpots,
      List.takeWhile_cons_of_neg (by simp [hb]), List.dropWhile_cons_of_neg (by simp [hb])]
    rfl
  | cons c xs ih =>
    obtain ⟨hc, hxs⟩ := List.forall_mem_cons.mp h
    have hrest := ih (column + 1) hxs
    simp only [takeSpots, Prod.mk.injEq] at hrest
    rw [List.cons_append, spotsFrom_inline hc, takeSpots, List.takeWhile_cons_of_pos (by simp [hc.2]),
      List.dropWhile_cons_of_pos (by simp [hc.2]), List.map_cons, hrest.1, hrest.2, List.length_cons,
      Nat.add_assoc, Nat.add_comm 1]

theorem blockLines?_line (fuel : Nat) {b : Char} {xs bs : List Char} {rest' : List Spot}
    (hne : xs ≠ []) (h : ∀ c ∈ xs, IsInline c)
    (hb : isPrintable b = true ∧ isLineBreak b = true)
    (hempty : emptyLines? (some indent) 0 (spotsFrom (line + 1) 0 more) = some (bs, widest, rest'))
    (lineEnd breaks : List Char) (kept : Bool) : ∃ kept',
    blockLines? true indent (fuel + 1) lineEnd breaks kept
        (spotsFrom line indent (xs ++ b :: more)) =
      (blockLines? true indent fuel [b] bs kept' rest').map fun (lines, lineEnd', breaks', rest) =>
        (lineEnd ++ breaks ++ xs ++ lines, lineEnd', breaks', rest) := by
  have htake := takeSpots_line line indent h hb more
  obtain ⟨c, xs, rfl⟩ := List.exists_cons_of_ne_nil hne
  have hc := h c List.mem_cons_self
  rw [List.cons_append, spotsFrom_inline hc] at htake ⊢
  refine ⟨(⟨c, line, indent⟩ : Spot).isSpacing, ?_⟩
  rw [blockLines?]
  simp only [ne_eq, not_true_eq_false, if_false, htake, Bool.not_true, Bool.false_and,
    Bool.false_eq_true, List.drop_one, List.tail_cons, hempty, Option.bind_eq_bind, Option.bind_some,
    List.take_succ_cons, List.take_zero, List.map_cons, List.map_nil]
  cases blockLines? true indent fuel [b] bs (⟨c, line, indent⟩ : Spot).isSpacing rest' <;> rfl

theorem blockLines?_stop {kept : Bool} (h : ∀ s ∈ spots.head?, s.column ≠ indent)
    (lineEnd breaks : List Char) :
    blockLines? true indent fuel lineEnd breaks kept spots = some ([], lineEnd, breaks, spots) := by
  cases fuel with
  | zero => rfl
  | succ fuel =>
    cases spots with
    | nil => rfl
    | cons s spots => rw [blockLines?, if_pos (h s rfl)]

/-- What is written for the lines of a text behind the indentation of the first of them. -/
def literalBody (col : Nat) (xs rest : List Char) : List Char :=
  indentedLines col false xs ++ ((if xs.getLast?.any isLineBreak then [] else ['\n']) ++ rest)

theorem getLast?_any_of_forall (hne : xs ≠ []) {value : Bool}
    (h : ∀ c ∈ xs, isLineBreak c = value) : xs.getLast?.any isLineBreak = value := by
  obtain ⟨c, hc⟩ := exists_getLast? hne
  rw [hc]
  exact h c (List.mem_of_getLast? hc)

theorem literalBody_last (hne : xs ≠ []) (h : ∀ c ∈ xs, IsInline c) (rest : List Char) :
    literalBody col xs rest = xs ++ '\n' :: rest := by
  have hlines := indentedLines_inline col false (fun c hc => (h c hc).2) hne []
  rw [List.append_nil] at hlines
  rw [literalBody, getLast?_any_of_forall hne fun c hc => (h c hc).2, hlines]
  simp [indentedLines]

theorem literalBody_ended {b : Char} (hne : xs ≠ []) (h : ∀ c ∈ xs, IsInline c)
    (hbreaks : ∀ c ∈ b :: bs, isLineBreak c = true) (rest : List Char) :
    literalBody col (xs ++ b :: bs) rest = xs ++ b :: (bs ++ rest) := by
  have hlast : (xs ++ b :: bs).getLast?.any isLineBreak = true := by
    rw [List.getLast?_append_of_ne_nil _ (List.cons_ne_nil b bs)]
    exact getLast?_any_of_forall (by simp) hbreaks
  have hlines := indentedLines_breaks col false hbreaks (by simp) []
  rw [List.append_nil] at hlines
  rw [literalBody, hlast, indentedLines_inline col false (fun c hc => (h c hc).2) hne, hlines]
  simp [indentedLines]

theorem Lines.exists_cons (h : Lines xs) : ∃ c ys, xs = c :: ys ∧ IsInline c := by
  cases h with
  | last hne hline | ended hne hline _ | next hne hline _ _ =>
    obtain ⟨c, line, rfl⟩ := List.exists_cons_of_ne_nil hne
    exact ⟨c, _, rfl, hline c List.mem_cons_self⟩

theorem indentedLines_cons {atStart : Bool} (hc : IsInline c) (xs : List Char) :
    indentedLines col atStart (c :: xs) =
      (if atStart then indentation col else []) ++ c :: indentedLines col false xs :=
  indentedLines_inline col atStart (List.forall_mem_singleton.mpr hc.2) (List.cons_ne_nil c []) xs

theorem Lines.literalBody_cons (h : Lines xs) (col : Nat) (rest : List Char) :
    ∃ c more, literalBody col xs rest = c :: more ∧ xs.head? = some c ∧ IsInline c := by
  obtain ⟨c, ys, rfl, hc⟩ := h.exists_cons
  exact ⟨c, _, by rw [literalBody, indentedLines_cons hc]; rfl, rfl, hc⟩

theorem Lines.indentedLines (h : Lines xs) (col : Nat) :
    indentedLines col true xs = indentation col ++ indentedLines col false xs := by
  obtain ⟨c, ys, rfl, hc⟩ := h.exists_cons
  rw [indentedLines_cons hc, indentedLines_cons hc]
  rfl

theorem literalBody_next {b : Char} {tail : List Char} (hne : xs ≠ []) (h : ∀ c ∈ xs, IsInline c)
    (hbreaks : ∀ c ∈ b :: bs, isLineBreak c = true) (htail : Lines tail) (rest : List Char) :
    literalBody col (xs ++ b :: (bs ++ tail)) rest =
      xs ++ b :: (bs ++ (indentation col ++ literalBody col tail rest)) := by
  have htailNe : tail ≠ [] := by
    obtain ⟨c, ys, rfl, -⟩ := htail.exists_cons
    simp
  have hlast : (xs ++ b :: (bs ++ tail)).getLast? = tail.getLast? := by
    rw [← List.cons_append, ← List.append_assoc, List.getLast?_append_of_ne_nil _ htailNe]
  rw [literalBody, hlast, indentedLines_inline col false (fun c hc => (h c hc).2) hne,
    ← List.cons_append, indentedLines_breaks col false hbreaks (by simp), htail.indentedLines,
    literalBody]
  simp

theorem Dedented.column_ne (h : Dedented col rest) (hcol : col < indent) (line : Nat) :
    ∀ s ∈ (onward line rest).head?, s.column ≠ indent := by
  intro s hs
  rcases (leads_onward h line).next with hnil | ⟨t, more, hcons, hle, -⟩
  · rw [hnil] at hs
    cases hs
  · rw [hcons] at hs
    obtain rfl := Option.some.inj hs
    omega

theorem blockLines?_lines (line : Nat) (h : Lines xs) (hrest : Dedented col rest)
    (hcol : col < indent) (hfuel : xs.length ≤ fuel) : ∃ text lineEnd' breaks' line', Ends xs text lineEnd' breaks' ∧
      ∀ lineEnd breaks kept, blockLines? true indent fuel lineEnd breaks kept
        (spotsFrom line indent (literalBody indent xs rest)) =
          some (lineEnd ++ breaks ++ text, lineEnd', breaks', onward line' rest) := by
  have hstop := hrest.column_ne hcol
  induction h generalizing line fuel with
  | @last xs hne hline =>
    obtain ⟨fuel, rfl⟩ := Nat.exists_eq_add_of_lt
      (Nat.lt_of_lt_of_le (List.length_pos_iff.mpr hne) hfuel)
    obtain ⟨widest, hempty⟩ :=
      emptyLines?_end 0 (List.forall_mem_nil _) (leads_onward hrest (line + 1)) hcol
    refine ⟨xs, ['\n'], [], line + 1, .added hne
      (getLast?_any_of_forall hne fun c hc => (hline c hc).2), fun lineEnd breaks kept => ?_⟩
    obtain ⟨kept', hread⟩ := blockLines?_line (0 + fuel) hne hline
      (b := '\n') (by decide) hempty lineEnd breaks kept
    rw [List.nil_append] at hread
    rw [literalBody_last hne hline, hread, blockLines?_stop (hstop _)]
    simp
  | @ended xs bs b hne hline hbreaks =>
    obtain ⟨fuel, rfl⟩ := Nat.exists_eq_add_of_lt
      (Nat.lt_of_lt_of_le (List.length_pos_iff.mpr (by simp)) hfuel)
    obtain ⟨hb, hbs⟩ := List.forall_mem_cons.mp hbreaks
    obtain ⟨widest, hempty⟩ :=
      emptyLines?_end 0 hbs (leads_onward hrest (line + 1 + bs.length)) hcol
    refine ⟨xs, [b], bs, line + 1 + bs.length, .kept hne
      (getLast?_any_of_forall hne fun c hc => (hline c hc).2) fun c hc => (hbreaks c hc).2,
      fun lineEnd breaks kept => ?_⟩
    obtain ⟨kept', hread⟩ :=
      blockLines?_line (0 + fuel) hne hline hb hempty lineEnd breaks kept
    rw [literalBody_ended hne hline fun c hc => (hbreaks c hc).2, hread, blockLines?_stop (hstop _)]
    simp
  | @next xs bs tail b hne hline hbreaks htail ih =>
    obtain ⟨fuel, rfl⟩ := Nat.exists_eq_add_of_lt
      (Nat.lt_of_lt_of_le (List.length_pos_iff.mpr (by simp)) hfuel)
    obtain ⟨hb, hbs⟩ := List.forall_mem_cons.mp hbreaks
    have hfuel' : tail.length ≤ 0 + fuel := by
      simp only [List.length_append, List.length_cons] at hfuel
      omega
    obtain ⟨text, lineEnd', breaks', line', hends, htext⟩ := ih (line + 1 + bs.length) hfuel'
    obtain ⟨c, more, hbody, -, hc⟩ := htail.literalBody_cons indent rest
    obtain ⟨widest, hempty⟩ := emptyLines?_line (line + 1) indent 0 more hbs hc
    rw [← hbody] at hempty
    refine ⟨xs ++ b :: (bs ++ text), lineEnd', breaks', line', ?_, fun lineEnd breaks kept => ?_⟩
    · have happend := hends.append (xs ++ b :: bs)
      simpa using happend
    · obtain ⟨kept', hread⟩ :=
        blockLines?_line (0 + fuel) hne hline hb hempty lineEnd breaks kept
      rw [literalBody_next hne hline (fun c hc => (hbreaks c hc).2) htail, hread, htext]
      simp

/-! ## Headers -/

/-- Whether the header has to say where the lines begin. -/
def showsIndentation (xs : List Char) : Bool :=
  !xs.head?.any fun c => c == ' ' || isLineBreak c

/-- What is kept of the line breaks at the end of a text. -/
def Chomping.ofText (xs : List Char) : Chomping :=
  if !xs.getLast?.any isLineBreak then .strip
  else if xs.dropLast.getLast?.all isLineBreak then .keep
  else .clip

def Chomping.indicator : Chomping → List Char
  | .strip => ['-']
  | .clip => []
  | .keep => ['+']

theorem literalHeader_eq (xs : List Char) : literalHeader xs =
    '|' :: ((if showsIndentation xs then [] else ['2']) ++ (Chomping.ofText xs).indicator) := by
  have hhint : (if xs.head?.any fun c => c == ' ' || isLineBreak c then ['2'] else []) =
      if showsIndentation xs then [] else ['2'] := by
    rw [showsIndentation]
    cases xs.head?.any fun c => c == ' ' || isLineBreak c <;> rfl
  rw [literalHeader, hhint, List.cons_append]
  congr 2
  rw [Chomping.ofText]
  split
  · rename_i heq
    obtain rfl := List.reverse_eq_nil_iff.mp heq
    rfl
  · rename_i c heq
    obtain rfl := List.reverse_eq_iff.mp heq
    by_cases hc : isLineBreak c = true <;> simp [hc, Chomping.indicator]
  · rename_i c b ys heq
    obtain rfl := List.reverse_eq_iff.mp heq
    by_cases hc : isLineBreak c = true <;> by_cases hb : isLineBreak b = true <;>
      simp [hc, hb, Chomping.indicator]

theorem blockHeader?_header (line column : Nat) (shows : Bool) (chomping : Chomping)
    (more : List Char) :
    blockHeader? (spotsFrom line column
        ((if shows then [] else ['2']) ++ chomping.indicator ++ '\n' :: more)) =
      some (chomping, if shows then none else some 2, spotsFrom (line + 1) 0 more) := by
  have hdash : IsInline '-' := by decide
  have hplus : IsInline '+' := by decide
  have htwo : IsInline '2' := by decide
  have hbreak (line column : Nat) : (⟨'\n', line, column⟩ : Spot).isLineBreak = true := rfl
  have hspacing (line column : Nat) : (⟨'\n', line, column⟩ : Spot).isSpacing = false := rfl
  cases shows <;> cases chomping <;>
    simp [Chomping.indicator, spotsFrom_inline hdash, spotsFrom_inline hplus, spotsFrom_inline htwo,
      spotsFrom_newline, blockHeader?, chomping?, indentation?, skipLineEnd?, skipSpacing,
      startsWith, hbreak, hspacing]

theorem Chomping.ofText_breaks (xs : List Char) {b : Char}
    (hbreaks : ∀ c ∈ b :: bs, isLineBreak c = true) (h : xs = [] ∨ bs ≠ []) : Chomping.ofText (xs ++ b :: bs) = .keep := by
  have hlast : (xs ++ b :: bs).getLast?.any isLineBreak = true := by
    rw [List.getLast?_append_of_ne_nil _ (List.cons_ne_nil b bs)]
    exact getLast?_any_of_forall (by simp) hbreaks
  have hbefore : (xs ++ b :: bs).dropLast.getLast?.all isLineBreak = true := by
    rw [List.dropLast_append_of_ne_nil (by simp)]
    cases hend : (xs ++ (b :: bs).dropLast).getLast? with
    | none => rfl
    | some c =>
      have hmem : c ∈ (b :: bs).dropLast := by
        rcases h with rfl | hne
        · exact List.mem_of_getLast? hend
        · obtain ⟨d, bs, rfl⟩ := List.exists_cons_of_ne_nil hne
          rw [List.getLast?_append_of_ne_nil _ (by simp)] at hend
          exact List.mem_of_getLast? hend
      exact hbreaks c ((List.dropLast_sublist _).mem hmem)
  rw [Chomping.ofText, hlast, hbefore]
  rfl

/-- What is kept of the line breaks at the end. -/
def Chomping.ending (chomping : Chomping) (lineEnd breaks : List Char) : List Char :=
  match chomping with
  | .strip => []
  | .clip => lineEnd
  | .keep => lineEnd ++ breaks

theorem Ends.whole (h : Ends xs text lineEnd breaks) :
    text ++ (Chomping.ofText xs).ending lineEnd breaks = xs := by
  cases h with
  | added hne hlast => simp [Chomping.ofText, Chomping.ending, hlast]
  | @kept text breaks b hne hlast hbreaks =>
    cases breaks with
    | nil =>
      have hb : isLineBreak b = true := hbreaks b List.mem_cons_self
      obtain ⟨c, hc⟩ := exists_getLast? hne
      rw [hc] at hlast
      have hcbreak : isLineBreak c = false := hlast
      have hclip : Chomping.ofText (text ++ [b]) = .clip := by
        rw [Chomping.ofText, List.getLast?_concat, List.dropLast_concat, hc]
        simp [hb, hcbreak]
      rw [hclip]
      rfl
    | cons d breaks =>
      rw [Chomping.ofText_breaks text hbreaks (.inr (by simp))]
      rfl

/-! ## Scalars -/

variable {parent : Nat}

/-- What is written for a text behind the bar, and what is behind it. -/
def literalText (col : Nat) (xs rest : List Char) : List Char :=
  (if showsIndentation xs then [] else ['2']) ++ (Chomping.ofText xs).indicator ++
    '\n' :: (indentedLines col true xs ++
      ((if xs.getLast?.any isLineBreak then [] else ['\n']) ++ rest))

theorem scalarText_literal (xs rest : List Char) :
    scalarText .literal col xs ++ rest = '|' :: literalText col xs rest := by
  rw [scalarText, literalHeader_eq, literalText]
  simp

theorem block?_eq {spots' lines : List Spot} {line₁ : Nat} {hint : Option Nat}
    (hheader : blockHeader? spots = some (Chomping.ofText xs, hint, spots'))
    (hempty : emptyLines? (hint.map (parent + ·)) 0 spots' =
      some (bs, widest, lines))
    (hindent : (hint.map (parent + ·)).getD (max widest (max (parent + 1) 1)) = parent + 2)
    (hlines : blockLines? true (parent + 2) lines.length [] bs false lines =
      some (text, lineEnd, breaks, onward line₁ rest))
    (hwhole : text ++ (Chomping.ofText xs).ending lineEnd breaks = xs) :
    block? true parent (parent + 1) spots =
      some (.scalar (String.ofList xs) .literal, onward line₁ rest) := by
  rw [block?, hheader]
  simp only [Option.bind_eq_bind, Option.bind_some, hempty, hindent, hlines]
  exact congrArg (fun text => some (Token.scalar (String.ofList text) .literal, onward line₁ rest))
    hwhole

theorem emptyLines?_text {tail : List Char}
    (hbreaks : ∀ c ∈ bs, isPrintable c = true ∧ isLineBreak c = true) (htail : Lines tail)
    (parent line : Nat) (rest : List Char) : ∃ widest,
    emptyLines? ((if showsIndentation (bs ++ tail) then none else some 2).map (parent + ·)) 0
        (spotsFrom line 0 (bs ++ (indentation (parent + 2) ++ literalBody (parent + 2) tail rest))) =
      some (bs, widest,
        spotsFrom (line + bs.length) (parent + 2) (literalBody (parent + 2) tail rest)) ∧
    ((if showsIndentation (bs ++ tail) then none else some 2).map (parent + ·)).getD
      (max widest (max (parent + 1) 1)) = parent + 2 := by
  obtain ⟨c, more, hbody, hhead, hc⟩ := htail.literalBody_cons (parent + 2) rest
  rw [hbody]
  by_cases hshows : showsIndentation (bs ++ tail) = true
  · have hnil : bs = [] := by
      cases bs with
      | nil => rfl
      | cons b bs =>
        rw [showsIndentation, List.cons_append, List.head?_cons] at hshows
        simp [(hbreaks b List.mem_cons_self).2] at hshows
    subst hnil
    have hspace : c ≠ ' ' := by
      rw [List.nil_append, showsIndentation, hhead] at hshows
      simp at hshows
      exact hshows.1
    rw [if_pos hshows]
    refine ⟨parent + 2, ?_, by simp⟩
    rw [List.nil_append, Option.map_none, emptyLines?_first hc hspace]
    simp
  · obtain ⟨widest, hempty⟩ := emptyLines?_line line (parent + 2) 0 more hbreaks hc
    rw [if_neg hshows]
    exact ⟨widest, hempty, rfl⟩

theorem block?_breaks {b : Char} (h : ∀ c ∈ b :: bs, isPrintable c = true ∧ isLineBreak c = true)
    (hrest : Dedented col rest) (hcol : col ≤ parent) (line column : Nat) : ∃ line',
    block? true parent (parent + 1)
        (spotsFrom line column (literalText (parent + 2) (b :: bs) rest)) =
      some (.scalar (String.ofList (b :: bs)) .literal, onward line' rest) := by
  have hbreaks : ∀ c ∈ b :: bs, isLineBreak c = true := fun c hc => (h c hc).2
  have hlines := indentedLines_breaks (parent + 2) true hbreaks (by simp) []
  have hshows : showsIndentation (b :: bs) = false := by
    simp [showsIndentation, hbreaks b List.mem_cons_self]
  have htext : literalText (parent + 2) (b :: bs) rest =
      (if showsIndentation (b :: bs) then [] else ['2']) ++ (Chomping.ofText (b :: bs)).indicator ++
        '\n' :: (b :: bs ++ rest) := by
    rw [List.append_nil] at hlines
    rw [literalText, hlines, getLast?_any_of_forall (by simp) hbreaks]
    simp [indentedLines]
  obtain ⟨widest, hempty⟩ := emptyLines?_end 0 h
    (leads_onward hrest (line + 1 + (b :: bs).length)) (Nat.lt_add_right 1 (Nat.lt_succ_of_le hcol))
  have hheader := blockHeader?_header line column (showsIndentation (b :: bs))
    (Chomping.ofText (b :: bs)) (b :: bs ++ rest)
  rw [htext]
  rw [hshows] at hheader ⊢
  refine ⟨line + 1 + (b :: bs).length, block?_eq hheader hempty rfl
    (blockLines?_stop (hrest.column_ne (by omega) _) [] (b :: bs)) ?_⟩
  have hkeep : Chomping.ofText (b :: bs) = .keep := Chomping.ofText_breaks [] hbreaks (.inl rfl)
  rw [hkeep]
  rfl

theorem block?_lines {tail : List Char}
    (hbreaks : ∀ c ∈ bs, isPrintable c = true ∧ isLineBreak c = true) (htail : Lines tail)
    (hprintable : ∀ c ∈ tail, isPrintable c = true) (hrest : Dedented col rest)
    (hcol : col ≤ parent) (line column : Nat) : ∃ line',
    block? true parent (parent + 1)
        (spotsFrom line column (literalText (parent + 2) (bs ++ tail) rest)) =
      some (.scalar (String.ofList (bs ++ tail)) .literal, onward line' rest) := by
  obtain ⟨widest, hempty, hindent⟩ := emptyLines?_text hbreaks htail parent (line + 1) rest
  have htailNe : tail ≠ [] := by
    obtain ⟨c, ys, rfl, -⟩ := htail.exists_cons
    simp
  have htext : literalText (parent + 2) (bs ++ tail) rest =
      (if showsIndentation (bs ++ tail) then [] else ['2']) ++
        (Chomping.ofText (bs ++ tail)).indicator ++
          '\n' :: (bs ++ (indentation (parent + 2) ++ literalBody (parent + 2) tail rest)) := by
    rw [literalText, List.getLast?_append_of_ne_nil _ htailNe, literalBody]
    cases bs with
    | nil => simp [htail.indentedLines]
    | cons b bs =>
      rw [indentedLines_breaks _ _ (fun c hc => (hbreaks c hc).2) (by simp), htail.indentedLines]
      simp
  have hfuel : tail.length ≤ (spotsFrom (line + 1 + bs.length) (parent + 2)
      (literalBody (parent + 2) tail rest)).length := by
    rw [length_spotsFrom_eq, literalBody,
      spotCount_append (isPrintable_indentedLines hprintable (parent + 2) false)]
    exact Nat.le_trans (length_le_indentedLines ..) (Nat.le_add_right _ _)
  obtain ⟨text, lineEnd, breaks, line', hends, hread⟩ :=
    blockLines?_lines (line + 1 + bs.length) htail hrest
      (Nat.lt_add_right 1 (Nat.lt_succ_of_le hcol)) hfuel
  rw [htext]
  refine ⟨line', block?_eq (blockHeader?_header line column _ _ _) hempty hindent
    (hread [] bs false) ?_⟩
  rw [List.nil_append]
  exact (hends.append bs).whole

/-- A text of several lines is read back, with all the line breaks at its end. -/
theorem block?_text (hprintable : ∀ c ∈ xs, isPrintable c = true) (hne : xs ≠ [])
    (hrest : Dedented col rest) (hcol : col ≤ parent) (line column : Nat) : ∃ line',
    block? true parent (parent + 1) (spotsFrom line column (literalText (parent + 2) xs rest)) =
      some (.scalar (String.ofList xs) .literal, onward line' rest) := by
  obtain ⟨bs, tail, rfl, hbreaks, htail⟩ := exists_lines hprintable
  rcases htail with rfl | htail
  · rw [List.append_nil] at hne ⊢
    obtain ⟨b, bs, rfl⟩ := List.exists_cons_of_ne_nil hne
    exact block?_breaks hbreaks hrest hcol line column
  · exact block?_lines hbreaks htail (List.forall_mem_append.mp hprintable).2 hrest hcol line column

end LedgerClient.Yaml
