import LedgerClient.Proofs.Yaml.Spot
import LedgerClient.Yaml.Token.Scan

/-!
# Plain scalars are read back

A text that can be a plain scalar holds no colon or hash sign that would end it (`PlainRest`), which
is also true of every rest of it. So its reader goes along from word to word, and stops at the line
break behind the last one; at a key it stops at the colon.
-/

namespace LedgerClient.Yaml

variable {c : Char} {xs ys word more rest : List Char} {line column col margin : Nat}
  {spots next : List Spot}

/-! ## Gaps -/

theorem not_isBlank_of_isInline (h : IsInline c) (hspace : c ≠ ' ') :
    (⟨c, line, column⟩ : Spot).isBlank = false := by
  have hspacing : isSpacing c = false := by
    rw [← Bool.not_eq_true, isSpacing_of_isPrintable h.1]
    exact hspace
  rw [Spot.isBlank, Spot.isSpacing, Spot.isLineBreak, hspacing, h.2]
  rfl

theorem Leads.not_isBlank (h : Leads col spots next) : ∀ s ∈ next.head?, s.isBlank = false := by
  intro s hs
  rcases h.next with rfl | ⟨t, more, rfl, -, hname⟩
  · cases hs
  · obtain rfl := Option.some.inj hs
    exact not_isBlank_of_isInline (isInline_of_isNameChar hname) (ne_of_isNameChar hname rfl)

theorem Gap.read?_of_not_isBlank {broken : Bool} (h : ∀ s ∈ spots.head?, s.isBlank = false) :
    Gap.read? margin broken spots = some (Gap.none, spots) := by
  cases spots with
  | nil => rfl
  | cons s spots =>
    have hs := h s rfl
    rw [Spot.isBlank, Bool.or_eq_false_iff] at hs
    simp [Gap.read?, hs.1, hs.2]

theorem Gap.read?_indentation {front : List Spot} (h : ∀ s ∈ front, s.char = ' ')
    (spots : List Spot) :
    Gap.read? margin true (front ++ spots) = Gap.read? margin true spots := by
  induction front with
  | nil => rfl
  | cons s front ih =>
    obtain ⟨hs, hfront⟩ := List.forall_mem_cons.mp h
    have hspacing : s.isSpacing = true := by
      rw [Spot.isSpacing, hs]
      rfl
    have hbreak : s.isLineBreak = false := by
      rw [Spot.isLineBreak, hs]
      rfl
    rw [List.cons_append, Gap.read?, hbreak, hspacing, ih hfront]
    simp [hs]

theorem Gap.read?_spaces (count : Nat) (h : ∀ s ∈ spots.head?, s.isBlank = false) :
    Gap.read? margin false (spotsFrom line column (indentation count) ++ spots) =
      some (⟨indentation count, []⟩, spots) := by
  induction count generalizing column with
  | zero => exact Gap.read?_of_not_isBlank h
  | succ count ih =>
    have hspace : (⟨' ', line, column⟩ : Spot).isLineBreak = false ∧
        (⟨' ', line, column⟩ : Spot).isSpacing = true := ⟨rfl, rfl⟩
    rw [indentation, List.replicate_succ, spotsFrom_inline isInline_space, List.cons_append,
      Gap.read?, hspace.1, hspace.2]
    simp only [Bool.false_eq_true, if_false, if_true, Bool.not_false]
    rw [← indentation, ih]
    rfl

theorem Gap.read?_inline (margin line column count : Nat) (hc : IsInline c) (hspace : c ≠ ' ')
    (more : List Char) :
    Gap.read? margin false (spotsFrom line column (indentation count ++ c :: more)) =
      some (⟨indentation count, []⟩, spotsFrom line (column + count) (c :: more)) := by
  rw [spotsFrom_indentation]
  apply Gap.read?_spaces
  rw [spotsFrom_inline hc]
  rintro s ⟨⟩
  exact not_isBlank_of_isInline hc hspace

theorem Gap.read?_newline (h : Leads col spots next) :
    Gap.read? margin false (⟨'\n', line, column⟩ :: spots) = some (⟨[], ['\n']⟩, next) := by
  obtain ⟨front, rfl, hfront⟩ := h.spaces
  have hbreak : (⟨'\n', line, column⟩ : Spot).isLineBreak = true := rfl
  rw [Gap.read?, if_pos hbreak, Gap.read?_indentation fun s hs => (hfront s hs).1,
    Gap.read?_of_not_isBlank h.not_isBlank]
  rfl

/-! ## Words -/

theorem endsWord_inline (h : IsInline c) (cs : List Char) :
    endsWord (spotsFrom line column (c :: cs)) = (c == ' ') := by
  rw [spotsFrom_inline h, endsWord]
  by_cases hc : c = ' '
  · rw [hc]
    rfl
  · rw [not_isBlank_of_isInline h hc, beq_false_of_ne hc]

theorem marker?_of_column (h : ∀ s ∈ spots.head?, s.column ≠ 0) : Token.marker? spots = none := by
  unfold Token.marker?
  split
  · rename_i a b d rest
    rw [if_neg]
    exact fun hmarker => h a rfl hmarker.1
  · rfl

theorem marker?_spotsFrom (h : 0 < column) (cs : List Char) :
    Token.marker? (spotsFrom line column cs) = none := by
  apply marker?_of_column
  intro s hs
  rw [column_of_head cs s hs]
  omega

/-! ## Texts that can be plain -/

/-- A text, or the rest of one, in which nothing ends a plain scalar. -/
structure PlainRest (xs : List Char) : Prop where
  inline : ∀ c ∈ xs, IsInline c
  last : xs.getLast? ≠ some ' '
  colons : ∀ ys, ':' :: ys <:+ xs → blankFollows ys = false
  hashes : ∀ ys, ' ' :: '#' :: ys <:+ xs → False

theorem PlainRest.suffix (h : PlainRest xs) (hs : ys <:+ xs) : PlainRest ys where
  inline c hc := h.inline c (hs.mem hc)
  last := by
    obtain ⟨front, rfl⟩ := hs
    intro hlast
    apply h.last
    rw [List.getLast?_append, hlast]
    rfl
  colons zs hz := h.colons zs (hz.trans hs)
  hashes zs hz := h.hashes zs (hz.trans hs)

theorem blankFollows_of_endsInside (h : endsInside (c :: xs) = false) (hs : ':' :: ys <:+ xs) :
    blankFollows ys = false := by
  induction xs generalizing c with
  | nil => simp at hs
  | cons d xs ih =>
    simp only [endsInside.eq_2 c, List.head?_cons, List.drop_one, List.tail_cons,
      Bool.or_eq_false_iff] at h
    rcases List.suffix_cons_iff.mp hs with heq | hs
    · obtain ⟨rfl, rfl⟩ := List.cons.inj heq
      simpa using h.1.2
    · exact ih h.2 hs

theorem not_hash_of_endsInside (h : endsInside xs = false) (hs : ' ' :: '#' :: ys <:+ xs) :
    False := by
  induction xs with
  | nil => simp at hs
  | cons c xs ih =>
    simp only [endsInside, Bool.or_eq_false_iff] at h
    rcases List.suffix_cons_iff.mp hs with heq | hs
    · obtain ⟨rfl, rfl⟩ := List.cons.inj heq
      simp [isSpacing] at h
    · exact ih h.2 hs

/-- The first character of a text that can be plain begins nothing else. -/
structure PlainFirst (xs : List Char) : Prop where
  space : xs.head? ≠ some ' '
  opens : opensOtherwise xs = false

theorem plainRest_of_canBePlain (h : canBePlain xs = true) : PlainRest xs ∧ PlainFirst xs := by
  simp only [canBePlain, needsEscapes, Bool.and_eq_true, Bool.not_eq_true', Bool.or_eq_false_iff,
    List.any_eq_false, bne_iff_ne] at h
  obtain ⟨⟨⟨⟨⟨⟨hprintable, -⟩, hbreak⟩, hhead⟩, hlast⟩, hopens⟩, hinside⟩ := h
  refine ⟨⟨fun c hc => ?_, hlast, fun ys hs => ?_, fun ys => not_hash_of_endsInside hinside⟩,
    hhead, hopens⟩
  · exact ⟨by simpa using hprintable c hc, by simpa using hbreak c hc⟩
  · cases xs with
    | nil => simp at hs
    | cons c xs =>
      rcases List.suffix_cons_iff.mp hs with heq | hs
      · obtain ⟨rfl, rfl⟩ := List.cons.inj heq
        simp only [opensOtherwise, Bool.or_eq_false_iff] at hopens
        simpa using hopens.1.2
      · exact blankFollows_of_endsInside hinside hs

theorem PlainFirst.alone (h : PlainFirst (c :: ys)) (hys : ∀ d ∈ ys, IsInline d)
    (hend : endsWord (spotsFrom line column (ys ++ '\n' :: rest)) = true) :
    c ≠ '-' ∧ c ≠ '?' ∧ c ≠ ':' := by
  have hblank : blankFollows ys = true := by
    cases ys with
    | nil => rfl
    | cons d ys =>
      rw [List.cons_append, endsWord_inline (hys d List.mem_cons_self)] at hend
      rw [beq_iff_eq.mp hend]
      rfl
  have hopens := h.opens
  simp only [opensOtherwise, Bool.or_eq_false_iff] at hopens
  have hmarks := hopens.1.2
  rw [hblank, Bool.and_true] at hmarks
  simpa [and_comm, and_assoc] using hmarks

/-! ## Reading -/

theorem plainRun?_word (line column : Nat) (rest : List Char)
    (hword : ∀ c ∈ word, IsInline c ∧ c ≠ ' ')
    (hmore : more = [] ∨ more.head? = some ' ') (hinline : ∀ c ∈ more, IsInline c)
    (hcolons : ∀ ys, ':' :: ys <:+ word ++ more → blankFollows ys = false) :
    plainRun? false (spotsFrom line column (word ++ (more ++ '\n' :: rest))) =
      some (word, spotsFrom line (column + word.length) (more ++ '\n' :: rest)) := by
  induction word generalizing column with
  | nil =>
    rcases hmore with rfl | hmore
    · rfl
    · obtain ⟨more, rfl⟩ := List.head?_eq_some_iff.mp hmore
      rw [List.nil_append, List.cons_append, spotsFrom_inline isInline_space]
      rfl
  | cons c word ih =>
    obtain ⟨⟨hc, hspace⟩, hword'⟩ := List.forall_mem_cons.mp hword
    have hrest := ih (column + 1) hword' fun ys hys =>
      hcolons ys (hys.trans (List.suffix_cons c _))
    -- no blank comes behind a colon
    have hstop : (c == ':' && endsWord (spotsFrom line (column + 1)
        (word ++ (more ++ '\n' :: rest)))) = false := by
      by_cases hcolon : c = ':'
      · subst hcolon
        have hfollows := hcolons (word ++ more) (List.suffix_refl _)
        cases word with
        | nil =>
          rcases hmore with rfl | hmore
          · cases hfollows
          · obtain ⟨more, rfl⟩ := List.head?_eq_some_iff.mp hmore
            cases hfollows
        | cons d word =>
          obtain ⟨hd, hdspace⟩ := hword' d List.mem_cons_self
          rw [List.cons_append, endsWord_inline hd, beq_false_of_ne hdspace, Bool.and_false]
      · rw [beq_false_of_ne hcolon, Bool.false_and]
    rw [List.cons_append, spotsFrom_inline hc, plainRun?, not_isBlank_of_isInline hc hspace]
    simp only [Bool.false_and, Bool.or_false, hstop, Bool.false_eq_true, if_false, hrest,
      Option.map_some, List.length_cons]
    rw [Nat.add_assoc, Nat.add_comm 1]

theorem plainRest?_run {fuel : Nat} {gap gap' : Gap} {run : List Char} {rest rest' : List Spot}
    (hmarker : Token.marker? spots = none) (hhash : startsWith '#' spots = false)
    (hrun : plainRun? false spots = some (run, rest)) (hne : run ≠ [])
    (hgap : Gap.read? margin false rest = some (gap', rest')) :
    plainRest? false margin (fuel + 1) gap spots =
      if ∀ s ∈ rest'.head?, gap'.isBroken = true ∧ s.column < margin then
        some (gap.folded ++ run, gap'.isBroken, rest')
      else (plainRest? false margin fuel gap' rest').map fun (more, broken, rest) =>
        (gap.folded ++ run ++ more, broken, rest) := by
  have hnil : run.isEmpty = false := by simpa using hne
  rw [plainRest?, hmarker, hhash]
  simp only [Option.isSome_none, Bool.or_self, Bool.false_eq_true, if_false, hrun, Option.bind_eq_bind,
    Option.bind_some, hnil, hgap]
  cases rest' with
  | nil => simp
  | cons s rest' =>
    by_cases hstop : gap'.isBroken = true ∧ s.column < margin
    · simp [hstop]
    · have hgoes : (!false && gap'.isBroken && decide (s.column < margin)) = false := by
        simpa using hstop
      rw [if_neg (by simpa using hstop)]
      simp only [hgoes, Bool.false_eq_true, if_false]
      cases plainRest? false margin fuel gap' (s :: rest') <;> rfl

theorem plainRest?_text {fuel : Nat} {gap : Gap} (hcolumn : 0 < column) (h : PlainRest xs)
    (hne : xs ≠ []) (hspace : xs.head? ≠ some ' ') (hhash : xs.head? ≠ some '#')
    (hgap : gap.breaks = []) (hnext : Leads col (spotsFrom (line + 1) 0 rest) next)
    (hmargin : col < margin) (hfuel : xs.length ≤ fuel) :
    plainRest? false margin fuel gap (spotsFrom line column (xs ++ '\n' :: rest)) =
      some (gap.blanks ++ xs, true, next) := by
  induction fuel generalizing xs column gap with
  | zero => exact absurd (List.length_eq_zero_iff.mp (by omega)) hne
  | succ fuel ih =>
    obtain ⟨word, count, tail, rfl, hword, htail, hcount⟩ := exists_word xs
    have hwordNe : word ≠ [] := by
      rintro rfl
      cases count with
      | zero => exact hne (by rw [hcount rfl]; rfl)
      | succ count => exact hspace rfl
    have hfirst : startsWith '#' (spotsFrom line column
        (word ++ (indentation count ++ tail) ++ '\n' :: rest)) = false := by
      obtain ⟨c, word, rfl⟩ := List.exists_cons_of_ne_nil hwordNe
      rw [List.cons_append, List.cons_append, spotsFrom_inline (h.inline c (by simp))]
      simpa [startsWith] using hhash
    have hmore : indentation count ++ tail = [] ∨ (indentation count ++ tail).head? = some ' ' := by
      cases count with
      | zero => exact .inl (by rw [hcount rfl]; rfl)
      | succ count => exact .inr rfl
    have hrun := plainRun?_word line column rest
      (fun c hc => ⟨h.inline c (List.mem_append_left _ hc), hword c hc⟩) hmore
      (fun c hc => h.inline c (List.mem_append_right _ hc)) h.colons
    have hfolded : gap.folded = gap.blanks := by rw [Gap.folded, hgap]
    rw [← List.append_assoc] at hrun
    by_cases hend : tail = []
    · -- the line break is behind the last word
      subst hend
      have hzero : count = 0 := by
        by_contra hne
        obtain ⟨n, rfl⟩ := Nat.exists_eq_succ_of_ne_zero hne
        refine h.last ?_
        rw [List.append_nil, indentation, List.replicate_succ', ← List.append_assoc,
          List.getLast?_concat]
      subst hzero
      rw [plainRest?_run (marker?_spotsFrom hcolumn _) hfirst hrun hwordNe
        (by
          rw [indentation, List.replicate_zero, List.nil_append, List.nil_append, spotsFrom_newline]
          exact Gap.read?_newline hnext), if_pos, hfolded]
      · simp [indentation, Gap.isBroken]
      · intro s hs
        rcases hnext.next with rfl | ⟨t, more, rfl, hle, -⟩
        · cases hs
        · obtain rfl := Option.some.inj hs
          exact ⟨rfl, by omega⟩
    · obtain ⟨c, tail, rfl⟩ := List.exists_cons_of_ne_nil hend
      have htailRest : PlainRest (c :: tail) := h.suffix ⟨word ++ indentation count, by simp⟩
      have hc := htailRest.inline c List.mem_cons_self
      have htailHash : (c :: tail).head? ≠ some '#' := by
        rintro ⟨⟩
        obtain ⟨n, rfl⟩ := Nat.exists_eq_succ_of_ne_zero (mt hcount hend)
        refine h.hashes tail ⟨word ++ indentation n, ?_⟩
        rw [indentation, indentation, List.replicate_succ']
        simp
      have hlong : 0 < word.length := List.length_pos_iff.mpr hwordNe
      have hgap' := Gap.read?_inline margin line (column + word.length) count hc
        (by simpa using htail) (tail ++ '\n' :: rest)
      rw [← List.cons_append, ← List.append_assoc] at hgap'
      rw [plainRest?_run (marker?_spotsFrom hcolumn _) hfirst hrun hwordNe hgap', if_neg, hfolded,
        ih (by omega) htailRest hend htail htailHash rfl]
      · simp
      · simp only [List.length_append] at hfuel
        omega
      · rw [List.cons_append, spotsFrom_inline hc]
        simp [Gap.isBroken]

/-- A text that can be plain is read back as it is. -/
theorem plain?_text (line : Nat) (hcolumn : 0 < column) (h : canBePlain xs = true) (hne : xs ≠ [])
    (hnext : Leads col (spotsFrom (line + 1) 0 rest) next) (hmargin : col < margin) :
    plain? false margin (spotsFrom line column (xs ++ '\n' :: rest)) =
      some (.scalar (String.ofList xs) .plain, true, next) := by
  obtain ⟨hrest, hfirst⟩ := plainRest_of_canBePlain h
  have hhash : xs.head? ≠ some '#' := by
    intro hhead
    obtain ⟨xs, rfl⟩ := List.head?_eq_some_iff.mp hhead
    have hopens := hfirst.opens
    simp [opensOtherwise] at hopens
  have hfuel : xs.length ≤ (spotsFrom line column (xs ++ '\n' :: rest)).length := by
    rw [length_spotsFrom_eq, spotCount_append fun c hc => (hrest.inline c hc).1]
    omega
  rw [plain?, plainRest?_text hcolumn hrest hne hfirst.space hhash rfl hnext hmargin hfuel]
  rfl

/-! ## Names -/

/-- A name of a field: a key that needs no quotes. -/
structure IsName (name : List Char) : Prop where
  ne_nil : name ≠ []
  chars : ∀ c ∈ name, isNameChar c = true
  head : name.head? ≠ some '-'

instance (name : List Char) : Decidable (IsName name) :=
  decidable_of_iff (name ≠ [] ∧ name.all isNameChar = true ∧ name.head? ≠ some '-')
    ⟨fun ⟨hne, hchars, hhead⟩ => ⟨hne, List.all_eq_true.mp hchars, hhead⟩,
      fun h => ⟨h.ne_nil, List.all_eq_true.mpr h.chars, h.head⟩⟩

variable {name : List Char}

theorem marker?_of_char (h : ∀ s ∈ spots.head?, s.char ≠ '-' ∧ s.char ≠ '.') :
    Token.marker? spots = none := by
  unfold Token.marker?
  split
  · rename_i a b d rest
    obtain ⟨hdash, hdot⟩ := h a rfl
    rw [if_neg hdash, if_neg hdot, ite_self]
  · rfl

theorem IsName.marker? (h : IsName name) (line column : Nat) (rest : List Char) :
    Token.marker? (spotsFrom line column (name ++ rest)) = none := by
  obtain ⟨c, name, rfl⟩ := List.exists_cons_of_ne_nil h.ne_nil
  have hc := h.chars c List.mem_cons_self
  rw [List.cons_append, spotsFrom_inline (isInline_of_isNameChar hc)]
  apply marker?_of_char
  rintro s ⟨⟩
  exact ⟨by simpa using h.head, ne_of_isNameChar hc rfl⟩

theorem isInline_colon : IsInline ':' := by decide

theorem plainRun?_name (column : Nat) (h : ∀ c ∈ name, isNameChar c = true)
    (hblank : endsWord (spotsFrom line (column + name.length + 1) rest) = true) :
    plainRun? false (spotsFrom line column (name ++ ':' :: rest)) =
      some (name, spotsFrom line (column + name.length) (':' :: rest)) := by
  induction name generalizing column with
  | nil =>
    have hcolon : (⟨':', line, column⟩ : Spot).isBlank = false := rfl
    rw [List.nil_append, spotsFrom_inline isInline_colon, plainRun?, hcolon]
    simp only [List.length_nil, Nat.add_zero] at hblank
    simp [hblank, spotsFrom_inline isInline_colon]
  | cons c name ih =>
    obtain ⟨hc, hname⟩ := List.forall_mem_cons.mp h
    have hspace : c ≠ ' ' := ne_of_isNameChar hc rfl
    have hcolon : c ≠ ':' := ne_of_isNameChar hc rfl
    have hplace : column + (c :: name).length = column + 1 + name.length := by
      rw [List.length_cons]
      omega
    rw [hplace] at hblank ⊢
    rw [List.cons_append, spotsFrom_inline (isInline_of_isNameChar hc), plainRun?,
      not_isBlank_of_isInline (isInline_of_isNameChar hc) hspace, beq_false_of_ne hcolon]
    simp [ih _ hname hblank]

theorem plain?_name (line column margin : Nat) (h : IsName name)
    (hblank : endsWord (spotsFrom line (column + name.length + 1) rest) = true) :
    plain? false margin (spotsFrom line column (name ++ ':' :: rest)) =
      some (.scalar (String.ofList name) .plain, false,
        spotsFrom line (column + name.length) (':' :: rest)) := by
  have hfirst : startsWith '#' (spotsFrom line column (name ++ ':' :: rest)) = false := by
    obtain ⟨c, name, rfl⟩ := List.exists_cons_of_ne_nil h.ne_nil
    have hc := h.chars c List.mem_cons_self
    rw [List.cons_append, spotsFrom_inline (isInline_of_isNameChar hc)]
    exact beq_false_of_ne (ne_of_isNameChar hc rfl)
  have hcolon : ∀ s ∈ (spotsFrom line (column + name.length) (':' :: rest)).head?, s.char = ':' := by
    rw [spotsFrom_inline isInline_colon]
    rintro s ⟨⟩
    rfl
  have hgap : Gap.read? margin false (spotsFrom line (column + name.length) (':' :: rest)) =
      some (.none, spotsFrom line (column + name.length) (':' :: rest)) := by
    apply Gap.read?_of_not_isBlank
    intro s hs
    exact not_isBlank_of_isInline (by rw [hcolon s hs]; exact isInline_colon)
      (by rw [hcolon s hs]; decide)
  -- no stretch begins at the colon
  have hstop (fuel : Nat) : plainRest? false margin fuel .none
      (spotsFrom line (column + name.length) (':' :: rest)) =
        some ([], false, spotsFrom line (column + name.length) (':' :: rest)) := by
    cases fuel with
    | zero => rfl
    | succ fuel =>
      have hmarker : Token.marker? (spotsFrom line (column + name.length) (':' :: rest)) = none := by
        apply marker?_of_char
        intro s hs
        rw [hcolon s hs]
        decide
      have hrun := plainRun?_name (column + name.length) (List.forall_mem_nil _) hblank
      rw [List.nil_append] at hrun
      rw [plainRest?, hmarker, hrun]
      simp [spotsFrom_inline isInline_colon, startsWith, Gap.isBroken, Gap.none]
  have hpositive : ∃ fuel, (spotsFrom line column (name ++ ':' :: rest)).length = fuel + 1 := by
    obtain ⟨c, name, rfl⟩ := List.exists_cons_of_ne_nil h.ne_nil
    have hc := h.chars c List.mem_cons_self
    rw [List.cons_append, spotsFrom_inline (isInline_of_isNameChar hc)]
    exact ⟨_, List.length_cons⟩
  obtain ⟨fuel, hfuel⟩ := hpositive
  rw [plain?, hfuel, plainRest?_run (h.marker? line column _) hfirst
    (plainRun?_name column h.chars hblank) h.ne_nil hgap, if_neg, hstop]
  · simp [Gap.none, Gap.folded]
  · rw [spotsFrom_inline isInline_colon]
    simp [Gap.isBroken, Gap.none]

/-! ## Names as texts -/

theorem anyNeighbours_eq_false {p : Char → Char → Bool} (h : ∀ c ∈ xs, ∀ d, p c d = false) :
    anyNeighbours p xs = false := by
  fun_induction anyNeighbours p xs with
  | case1 a b cs ih =>
    rw [h a List.mem_cons_self b, ih fun c hc => h c (List.mem_cons_of_mem a hc), Bool.or_self]
  | case2 cs hshort => rfl

theorem endsInside_eq_false (h : ∀ c ∈ xs, c ≠ ':' ∧ c ≠ '#') : endsInside xs = false := by
  induction xs with
  | nil => rfl
  | cons c xs ih =>
    obtain ⟨-, hxs⟩ := List.forall_mem_cons.mp h
    have hcolon : (xs.head? == some ':') = false := beq_false_of_ne fun hhead =>
      (hxs ':' (List.mem_of_mem_head? hhead)).1 rfl
    have hhash : (xs.head? == some '#') = false := beq_false_of_ne fun hhead =>
      (hxs '#' (List.mem_of_mem_head? hhead)).2 rfl
    rw [endsInside, hcolon, hhash, ih hxs]
    simp

theorem not_opens_of_isNameChar (h : isNameChar c = true) :
    "#,[]\x7b\x7d&*!|>'\"%@\x60".contains c = false := by
  have hnone : "#,[]\x7b\x7d&*!|>'\"%@\x60".toList.any isNameChar = false := by decide
  rw [String.contains_char_eq, decide_eq_false_iff_not]
  exact fun hmem => List.any_eq_false.mp hnone c hmem h

theorem IsName.canBePlain (h : IsName name) : canBePlain name = true := by
  have hinline (c : Char) (hc : c ∈ name) : IsInline c := isInline_of_isNameChar (h.chars c hc)
  have hspace : ∀ c ∈ name, c ≠ ' ' := fun c hc => ne_of_isNameChar (h.chars c hc) rfl
  have hescapes : needsEscapes name = false := by
    rw [needsEscapes, Bool.or_eq_false_iff, List.any_eq_false]
    refine ⟨fun c hc => by simp [(hinline c hc).1], anyNeighbours_eq_false fun c hc d => ?_⟩
    rw [beq_false_of_ne (hspace c hc), Bool.false_and]
  have hbreaks : name.any isLineBreak = false := by
    rw [List.any_eq_false]
    exact fun c hc => by simp [(hinline c hc).2]
  have hinside : endsInside name = false :=
    endsInside_eq_false fun c hc =>
      ⟨ne_of_isNameChar (h.chars c hc) rfl, ne_of_isNameChar (h.chars c hc) rfl⟩
  have hhead : name.head? ≠ some ' ' := fun hc => hspace ' ' (List.mem_of_mem_head? hc) rfl
  have hlast : name.getLast? ≠ some ' ' := fun hc => hspace ' ' (List.mem_of_mem_getLast? hc) rfl
  have hopens : opensOtherwise name = false := by
    obtain ⟨c, name, rfl⟩ := List.exists_cons_of_ne_nil h.ne_nil
    have hc := h.chars c List.mem_cons_self
    have hdash : c ≠ '-' := by simpa using h.head
    have hmark : c ≠ '?' := ne_of_isNameChar hc rfl
    have hcolon : c ≠ ':' := ne_of_isNameChar hc rfl
    have hdot : c ≠ '.' := ne_of_isNameChar hc rfl
    rw [opensOtherwise, not_opens_of_isNameChar hc, beq_false_of_ne hmark, beq_false_of_ne hcolon,
      beq_false_of_ne hdash, beq_false_of_ne hdot]
    rfl
  simp [Yaml.canBePlain, hescapes, hbreaks, hhead, hlast, hopens, hinside]

end LedgerClient.Yaml
