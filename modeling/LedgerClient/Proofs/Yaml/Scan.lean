import LedgerClient.Proofs.Yaml.Literal

/-!
# Steps of the scanner

Outside flow collections a scanner is its tokens, the columns of the open collections, the place
where a key may have begun and whether one may begin (`Scanner.inBlock`). `Scanner.Steps` counts the
tokens that it takes to get from one scanner to another; `Scanner.Reads` says that it gets to the next
line of a document in this way.
-/

namespace LedgerClient.Yaml

namespace Scanner

variable {tokens : List Token} {indents outer : List Nat} {key : Option KeyStart}
  {allowed : Bool} {c : Char} {xs rest : List Char} {line column : Nat} {spots : List Spot}

/-! ## Scanners outside flow collections -/

/-- A scanner outside flow collections. -/
def inBlock (tokens : List Token) (indents : List Nat) (key : Option KeyStart) (allowed : Bool) :
    Scanner := ⟨tokens.toArray, indents, [key], allowed⟩

@[simp] theorem inFlow_inBlock : (inBlock tokens indents key allowed).inFlow = false := rfl

@[simp] theorem keyAllowed_inBlock : (inBlock tokens indents key allowed).keyAllowed = allowed := rfl

@[simp] theorem indents_inBlock : (inBlock tokens indents key allowed).indents = indents := rfl

@[simp] theorem allowKey_inBlock (allowed' : Bool) :
    (inBlock tokens indents key allowed).allowKey allowed' = inBlock tokens indents key allowed' := rfl

@[simp] theorem push_inBlock (t : Token) :
    (inBlock tokens indents key allowed).push t = inBlock (tokens ++ [t]) indents key allowed := by
  simp [inBlock, push]

@[simp] theorem margin_inBlock :
    (inBlock tokens (column :: outer) key allowed).margin = column + 1 := rfl

/-- A key that may have begun, but does not have to. -/
def IsIdle (key : Option KeyStart) : Prop := ∀ k ∈ key, k.required = false

theorem isIdle_none : IsIdle none := by simp [IsIdle]

theorem dropKey?_inBlock (h : IsIdle key) :
    (inBlock tokens indents key allowed).dropKey? = some (inBlock tokens indents none allowed) := by
  cases key with
  | none => rfl
  | some k => simp [inBlock, dropKey?, h k rfl]

/-- A column that is not to the left of the innermost block collection. -/
def IsInside (indents : List Nat) (column : Nat) : Prop := ∀ i ∈ indents.head?, i ≤ column

theorem closeTo_inBlock (h : IsInside indents column) :
    (inBlock tokens indents key allowed).closeTo column = inBlock tokens indents key allowed := by
  cases indents with
  | nil => rfl
  | cons i indents =>
    have hle : decide (column < i) = false := by simpa using h i rfl
    simp [closeTo, close, inBlock, hle, inFlow]

theorem closeTo_cons {i : Nat} (h : column < i) :
    (inBlock tokens (i :: indents) key allowed).closeTo column =
      (inBlock (tokens ++ [.blockEnd]) indents key allowed).closeTo column := by
  simp [closeTo, close, inBlock, h, inFlow]

theorem closeAll_cons {i : Nat} : (inBlock tokens (i :: indents) key allowed).closeAll =
    (inBlock (tokens ++ [.blockEnd]) indents key allowed).closeAll := by
  simp [closeAll, close, inBlock, inFlow]

/-! ## Collections that begin -/

/-- The open collections when one is to be open in this column. -/
def opened (column : Nat) (indents : List Nat) : List Nat :=
  if indents.head? = some column then indents else column :: indents

/-- The token of a collection that begins in this column, if it is not open yet. -/
def opening (column : Nat) (indents : List Nat) (t : Token) : List Token :=
  if indents.head? = some column then [] else [t]

theorem insertIdx_append (tokens more : List Token) (t : Token) :
    (tokens ++ more).insertIdx tokens.length t = tokens ++ t :: more := by
  induction tokens with
  | nil => exact List.insertIdx_zero
  | cons u tokens ih =>
    rw [List.cons_append, List.length_cons, List.insertIdx_succ_cons, ih, List.cons_append]

theorem openAt_inBlock (tokens : List Token) (key : Option KeyStart) (allowed : Bool)
    (h : IsInside indents column) (more : List Token) (t : Token) :
    (inBlock (tokens ++ more) indents key allowed).openAt column tokens.length t =
      inBlock (tokens ++ (opening column indents t ++ more)) (opened column indents) key allowed := by
  have hmargin : column < (inBlock (tokens ++ more) indents key allowed).margin ↔
      indents.head? = some column := by
    cases indents with
    | nil => simp [inBlock, margin]
    | cons i indents =>
      have hle : i ≤ column := h i rfl
      simp only [inBlock, margin, List.head?_cons, Option.map_some, Option.getD_some,
        Option.some.injEq]
      omega
  rw [openAt, inFlow_inBlock, Bool.false_or]
  simp only [decide_eq_true_eq, hmargin, opened, opening]
  split
  · rfl
  · simp [inBlock, insertIdx_append]

/-! ## Blanks -/

/-- A character that no blank and no comment begins with. -/
def IsSolid (c : Char) : Prop := IsInline c ∧ c ≠ ' ' ∧ c ≠ '#'

theorem skipBlank_solid (inFlow allowed : Bool) (line column : Nat) (h : IsSolid c)
    (xs : List Char) :
    skipBlank inFlow false allowed (spotsFrom line column (c :: xs)) =
      (allowed, spotsFrom line column (c :: xs)) := by
  obtain ⟨hinline, hspace, hhash⟩ := h
  obtain ⟨htab, -, -, hmark⟩ := ne_of_isPrintable hinline.1
  rw [spotsFrom_inline hinline, skipBlank]
  simp [Spot.isLineBreak, hinline.2, hspace, hhash, htab, hmark]

theorem skipBlank_space (xs : List Char) :
    skipBlank false false allowed (spotsFrom line column (' ' :: xs)) =
      skipBlank false false allowed (spotsFrom line (column + 1) xs) := by
  have hbreak : (⟨' ', line, column⟩ : Spot).isLineBreak = false := rfl
  rw [spotsFrom_inline isInline_space, skipBlank, hbreak]
  simp

theorem skipBlank_indentation (count : Nat) (xs : List Char) :
    skipBlank false false allowed (spotsFrom line column (indentation count ++ xs)) =
      skipBlank false false allowed (spotsFrom line (column + count) xs) := by
  induction count generalizing column with
  | zero => rfl
  | succ count ih =>
    rw [indentation, List.replicate_succ, List.cons_append, skipBlank_space, ← indentation, ih,
      Nat.add_assoc, Nat.add_comm 1]

theorem isSolid_of_isNameChar (h : isNameChar c = true) : IsSolid c :=
  ⟨isInline_of_isNameChar h, ne_of_isNameChar h rfl, ne_of_isNameChar h rfl⟩

theorem skipBlank_line (h : Dedented column rest) :
    skipBlank false false allowed (spotsFrom line 0 rest) = (allowed, onward line rest) := by
  rcases h with rfl | ⟨count, c, more, -, hc, rfl⟩
  · rfl
  · rw [skipBlank_indentation, Nat.zero_add, skipBlank_solid _ _ _ _ (isSolid_of_isNameChar hc),
      onward_indentation hc]

theorem skipBlank_onward (h : Dedented column rest) :
    skipBlank false false allowed (onward line rest) = (allowed, onward line rest) := by
  rcases h with rfl | ⟨count, c, more, -, hc, rfl⟩
  · rfl
  · rw [onward_indentation hc, skipBlank_solid _ _ _ _ (isSolid_of_isNameChar hc)]

theorem skipBlank_newline (h : Dedented column rest) (col : Nat) :
    skipBlank false false allowed (spotsFrom line col ('\n' :: rest)) =
      (true, onward (line + 1) rest) := by
  have hbreak : (⟨'\n', line, col⟩ : Spot).isLineBreak = true := rfl
  rw [spotsFrom_newline, skipBlank, if_pos hbreak, Bool.not_false, Bool.or_true, skipBlank_line h]

/-! ## Steps -/

/-- So many tokens lead from one scanner to another, or have the same to come as if they did. -/
def Steps (n : Nat) (s : Scanner) (spots : List Spot) (s' : Scanner) (spots' : List Spot) : Prop :=
  ∀ fuel, tokens? (fuel + n) s spots = tokens? fuel s' spots'

variable {s s' s'' : Scanner} {spots' spots'' : List Spot} {n n' : Nat}

theorem Steps.trans (h : Steps n s spots s' spots') (h' : Steps n' s' spots' s'' spots'') :
    Steps (n' + n) s spots s'' spots'' := fun fuel => by rw [← Nat.add_assoc, h, h']

theorem Steps.next {spot : Spot} {rest : List Spot}
    (hskip : skipBlank s.inFlow false s.keyAllowed spots = (allowed, spot :: rest))
    (hnext : ((s.allowKey allowed).closeTo spot.column).next? spot rest = some (s', spots')) :
    Steps 1 s spots s' spots' := by
  intro fuel
  rw [tokens?, hskip]
  simp only [hnext, Option.bind_eq_bind, Option.bind_some]

theorem Steps.skip {allowed' : Bool}
    (h : skipBlank false false allowed spots = (allowed', spots'))
    (h' : skipBlank false false allowed' spots' = (allowed', spots')) :
    Steps 0 (inBlock tokens indents key allowed) spots
      (inBlock tokens indents key allowed') spots' := by
  intro fuel
  cases fuel with
  | zero => rfl
  | succ fuel =>
    rw [Nat.add_zero, tokens?, tokens?]
    simp only [inFlow_inBlock, keyAllowed_inBlock, h, h', allowKey_inBlock]
    cases spots' with
    | nil =>
      cases key with
      | none => rfl
      | some k => simp [closeAll, close, inBlock, dropKey?, inFlow, apply_ite]
    | cons spot rest => rfl

theorem Steps.close {i : Nat} (h : Dedented column rest) (hi : column < i) :
    Steps 0 (inBlock tokens (i :: indents) key allowed) (onward line rest)
      (inBlock (tokens ++ [.blockEnd]) indents key allowed) (onward line rest) := by
  intro fuel
  cases fuel with
  | zero => rfl
  | succ fuel =>
    rw [Nat.add_zero, tokens?, tokens?]
    simp only [inFlow_inBlock, keyAllowed_inBlock, skipBlank_onward h, allowKey_inBlock]
    cases hspots : onward line rest with
    | nil => simp only [closeAll_cons]
    | cons spot spots =>
      have hle : spot.column < i := by
        rcases (leads_onward h line).next with hnil | ⟨t, more, hcons, hle, -⟩
        · rw [hnil] at hspots
          cases hspots
        · rw [hcons] at hspots
          cases hspots
          omega
      simp only [closeTo_cons hle]

/-! ## Tokens -/

theorem next?_plain {spot : Spot} {rest : List Spot} (hmarker : Token.marker? (spot :: rest) = none)
    (hopens : "#,[]\x7b\x7d&*!|>'\"%@\x60".contains spot.char = false)
    (halone : endsWord rest = true → spot.char ≠ '-' ∧ spot.char ≠ '?' ∧ spot.char ≠ ':')
    (hblank : spot.isBlank = false) :
    (inBlock tokens indents key allowed).next? spot rest =
      (inBlock tokens indents key allowed).plainScalar? spot (spot :: rest) := by
  have hlist : "#,[]\x7b\x7d&*!|>'\"%@\x60".toList =
      ['#', ',', '[', ']', '\x7b', '\x7d', '&', '*', '!', '|', '>', '\'', '"', '%', '@', '\x60'] := rfl
  have hall : "-?:,[]\x7b\x7d#&*!|>'\"%@\x60".toList =
      ['-', '?', ':', ',', '[', ']', '\x7b', '\x7d', '#', '&', '*', '!', '|', '>', '\'', '"', '%', '@',
        '\x60'] := rfl
  simp only [String.contains_char_eq, hlist, decide_eq_false_iff_not, List.mem_cons, List.not_mem_nil,
    or_false, not_or] at hopens
  have hlast : spot.char = '-' ∨ spot.char = '?' ∨ spot.char = ':' ∨
      (!isIndicator spot.char && !spot.isBlank) = true := by
    by_cases hmark : spot.char = '-' ∨ spot.char = '?' ∨ spot.char = ':'
    · rcases hmark with h | h | h <;> simp [h]
    · simp only [not_or] at hmark
      simp [isIndicator, String.contains_char_eq, hall, hopens, hmark, hblank]
  have hdash : ¬ (spot.char = '-' ∧ endsWord rest = true) := fun h => (halone h.2).1 h.1
  have hquestion : ¬ (spot.char = '?' ∧ endsWord rest = true) := fun h => (halone h.2).2.1 h.1
  have hcolon : ¬ (spot.char = ':' ∧ endsWord rest = true) := fun h => (halone h.2).2.2 h.1
  rw [next?, hmarker]
  simp only [hopens, hdash, hquestion, hcolon, and_false, false_and, if_false, inFlow_inBlock,
    Bool.false_eq_true, false_or]
  rw [if_pos hlast]

theorem next?_dash (h : IsInside indents column) (hkey : IsIdle key) {rest : List Spot}
    (hmarker : Token.marker? (⟨'-', line, column⟩ :: rest) = none) (hrest : endsWord rest = true) :
    (inBlock tokens indents key true).next? ⟨'-', line, column⟩ rest =
      some (inBlock (tokens ++ (opening column indents .blockSequenceStart ++ [.blockEntry]))
        (opened column indents) none true, rest) := by
  have hopen := openAt_inBlock tokens key true h [] .blockSequenceStart
  rw [List.append_nil, List.append_nil] at hopen
  have hsize : (inBlock tokens indents key true).tokens.size = tokens.length := rfl
  have hentry : blockEntry? ⟨'-', line, column⟩ (inBlock tokens indents key true) =
      some (inBlock (tokens ++ (opening column indents .blockSequenceStart ++ [.blockEntry]))
        (opened column indents) none true) := by
    rw [ blockEntry?, begin?, inFlow_inBlock, keyAllowed_inBlock, hsize, hopen]
    simp [dropKey?_inBlock hkey]
  rw [next?, hmarker]
  simp [hrest, hentry]

theorem value?_inBlock (tokens : List Token) (allowed : Bool) (k : KeyStart) (spot : Spot)
    (name : Token) (h : IsInside indents k.column)
    (hposition : k.position = tokens.length) (hline : k.line = spot.line)
    (hcolumn : spot.column ≤ k.column + longestKey) :
    (inBlock (tokens ++ [name]) indents (some k) allowed).value? spot =
      some (inBlock (tokens ++ (opening k.column indents .blockMappingStart ++ [.key, name, .value]))
        (opened k.column indents) none false) := by
  have hbefore : (inBlock (tokens ++ [name]) indents (some k) allowed).keyBefore? spot =
      some (some k) := by
    have hfree : ¬ (k.line < spot.line ∨ k.column + longestKey < spot.column) := by omega
    simp [keyBefore?, inBlock, hfree]
  have hinsert : (inBlock (tokens ++ [name]) indents (some k) allowed).tokens.insertIdxIfInBounds
      k.position .key = (tokens ++ [.key, name]).toArray := by
    rw [inBlock, hposition, List.insertIdxIfInBounds_toArray, insertIdx_append]
  have hopen := openAt_inBlock tokens none allowed h [.key, name] .blockMappingStart
  rw [value?, hbefore]
  simp only [Option.bind_eq_bind, Option.bind_some, hinsert]
  rw [hposition]
  change some (((openAt k.column tokens.length .blockMappingStart
    (inBlock (tokens ++ [.key, name]) indents none allowed)).allowKey false).push .value) = _
  rw [hopen]
  simp

theorem saveKey?_inBlock (hkey : IsIdle key) (spot : Spot) :
    (inBlock tokens indents key true).saveKey? spot = some (inBlock tokens indents
      (some ⟨indents.head? == some spot.column, tokens.length, spot.line, spot.column⟩) true) := by
  rw [saveKey?, keyAllowed_inBlock, if_pos rfl, dropKey?_inBlock hkey]
  simp [inBlock, inFlow]

theorem saveKey?_value {parent : Nat} (tokens : List Token) (outer : List Nat) (allowed : Bool)
    (spot : Spot) (h : parent < spot.column) :
    ∃ key, IsIdle key ∧ (inBlock tokens (parent :: outer) none allowed).saveKey? spot =
      some (inBlock tokens (parent :: outer) key allowed) := by
  cases allowed with
  | false => exact ⟨none, isIdle_none, rfl⟩
  | true =>
    have hfree : ((parent :: outer).head? == some spot.column) = false := by
      rw [beq_eq_false_iff_ne, List.head?_cons]
      intro hhead
      exact Nat.ne_of_lt h (Option.some.inj hhead)
    refine ⟨_, ?_, saveKey?_inBlock isIdle_none spot⟩
    rintro k ⟨⟩
    exact hfree

/-! ## Names -/

theorem Steps.name (line : Nat) (tokens : List Token) (h : IsInside indents column)
    (hkey : IsIdle key) (hname : IsName xs) (hlong : xs.length ≤ longestKey)
    (hblank : rest.head? = some ' ' ∨ rest.head? = some '\n') :
    Steps 2 (inBlock tokens indents key true) (spotsFrom line column (xs ++ ':' :: rest))
      (inBlock (tokens ++ (opening column indents .blockMappingStart ++
        [.key, .scalar (String.ofList xs) .plain, .value])) (opened column indents) none false)
      (spotsFrom line (column + xs.length + 1) rest) := by
  have hword (column : Nat) : endsWord (spotsFrom line column rest) = true := by
    rcases hblank with hblank | hblank <;> obtain ⟨rest, rfl⟩ := List.head?_eq_some_iff.mp hblank
    · rw [spotsFrom_inline isInline_space]
      rfl
    · rw [spotsFrom_newline]
      rfl
  have hcolon : IsSolid ':' := by unfold IsSolid; decide
  have hplain (margin : Nat) := plain?_name line column margin hname (hword _)
  have hscalar : Steps 1 (inBlock tokens indents key true) (spotsFrom line column (xs ++ ':' :: rest))
      (inBlock (tokens ++ [.scalar (String.ofList xs) .plain]) indents
        (some ⟨indents.head? == some column, tokens.length, line, column⟩) false)
      (spotsFrom line (column + xs.length) (':' :: rest)) := by
    have hmarker := hname.marker? line column (':' :: rest)
    obtain ⟨c, xs, rfl⟩ := List.exists_cons_of_ne_nil hname.ne_nil
    have hc := hname.chars c List.mem_cons_self
    rw [List.cons_append] at hmarker ⊢
    have hskip := skipBlank_solid false true line column (isSolid_of_isNameChar hc)
      (xs ++ ':' :: rest)
    simp only [List.cons_append] at hplain
    rw [spotsFrom_inline (isInline_of_isNameChar hc)] at hskip hmarker ⊢
    simp only [spotsFrom_inline (isInline_of_isNameChar hc)] at hplain
    refine Steps.next hskip ?_
    have hdash : c ≠ '-' := by simpa using hname.head
    rw [allowKey_inBlock, closeTo_inBlock h, next?_plain hmarker (not_opens_of_isNameChar hc)
      (fun _ => ⟨hdash, ne_of_isNameChar hc rfl, ne_of_isNameChar hc rfl⟩)
      (not_isBlank_of_isInline (isInline_of_isNameChar hc) (ne_of_isNameChar hc rfl)), plainScalar?,
      saveKey?_inBlock hkey]
    simp [hplain]
  refine hscalar.trans ?_
  have hskip := skipBlank_solid false false line (column + xs.length) hcolon rest
  rw [spotsFrom_inline isInline_colon] at hskip ⊢
  refine Steps.next hskip ?_
  have hinside : IsInside indents (column + xs.length) := fun i hi =>
    Nat.le_trans (h i hi) (Nat.le_add_right _ _)
  have hmarker : Token.marker? (⟨':', line, column + xs.length⟩ ::
      spotsFrom line (column + xs.length + 1) rest) = none := by
    apply marker?_of_char
    rintro s ⟨⟩
    exact ⟨show ':' ≠ '-' by decide, show ':' ≠ '.' by decide⟩
  have hvalue := value?_inBlock tokens false
    ⟨indents.head? == some column, tokens.length, line, column⟩ ⟨':', line, column + xs.length⟩
    (.scalar (String.ofList xs) .plain) h rfl rfl (Nat.add_le_add_left hlong column)
  rw [allowKey_inBlock, closeTo_inBlock hinside, next?, hmarker]
  simp [hword, hvalue]

/-! ## Dashes -/

theorem marker?_dash (spots : List Spot) :
    Token.marker? (⟨'-', line, column⟩ :: ⟨' ', line, column + 1⟩ :: spots) = none := by
  unfold Token.marker?
  split
  · rename_i heq
    cases heq
    simp
  · rfl

theorem Steps.dash (line : Nat) (tokens : List Token) (h : IsInside indents column)
    (hkey : IsIdle key) (hblank : rest.head? = some ' ') :
    Steps 1 (inBlock tokens indents key true) (spotsFrom line column ('-' :: rest))
      (inBlock (tokens ++ (opening column indents .blockSequenceStart ++ [.blockEntry]))
        (opened column indents) none true) (spotsFrom line (column + 1) rest) := by
  have hdash : IsSolid '-' := by unfold IsSolid; decide
  have hskip := skipBlank_solid false true line column hdash rest
  obtain ⟨rest, rfl⟩ := List.head?_eq_some_iff.mp hblank
  rw [spotsFrom_inline hdash.1, spotsFrom_inline isInline_space] at hskip ⊢
  refine Steps.next hskip ?_
  rw [allowKey_inBlock, closeTo_inBlock h]
  exact next?_dash h hkey (marker?_dash _) rfl

/-! ## Values -/

variable {parent col : Nat}

/-- The scanner gets to the next line with these tokens and these open collections. -/
def Reads (s : Scanner) (spots : List Spot) (tokens : List Token) (indents : List Nat)
    (rest : List Char) : Prop :=
  ∃ n key line, IsIdle key ∧ n + (onward line rest).length ≤ spots.length ∧
    Steps n s spots (inBlock tokens indents key true) (onward line rest)

theorem Steps.value {spots' : List Spot} (hc : IsSolid c)
    (hcol : ∀ i ∈ indents.head?, i ≤ col)
    (hnext : (inBlock tokens indents none allowed).next? ⟨c, line, col + 1⟩
      (spotsFrom line (col + 2) xs) = some (s', spots')) :
    Steps 1 (inBlock tokens indents none allowed) (spotsFrom line col (' ' :: c :: xs)) s' spots' := by
  have hskip := skipBlank_solid false allowed line (col + 1) hc xs
  rw [← skipBlank_space, spotsFrom_inline hc.1] at hskip
  refine Steps.next hskip ?_
  have hinside : IsInside indents (col + 1) := fun i hi => Nat.le_succ_of_le (hcol i hi)
  rw [allowKey_inBlock, closeTo_inBlock hinside]
  exact hnext

theorem Steps.newline (h : Dedented column rest) :
    Steps 0 (inBlock tokens indents key allowed) (spotsFrom line col ('\n' :: rest))
      (inBlock tokens indents key true) (onward (line + 1) rest) :=
  Steps.skip (skipBlank_newline h col) (skipBlank_onward h)

theorem marker?_value (spots : List Spot) : Token.marker? (⟨c, line, col + 1⟩ :: spots) = none :=
  marker?_of_column (by rintro s ⟨⟩; exact Nat.succ_ne_zero col)

theorem Steps.plain (s : String) (hne : s.toList ≠ []) (h : canBePlain s.toList = true)
    (hrest : Dedented parent rest) (hcol : parent ≤ col) : ∃ key line', IsIdle key ∧
    Steps 1 (inBlock tokens (parent :: outer) none allowed)
      (spotsFrom line col (' ' :: (s.toList ++ '\n' :: rest)))
      (inBlock (tokens ++ [.scalar s .plain]) (parent :: outer) key true) (onward line' rest) := by
  obtain ⟨hplain, hfirst⟩ := plainRest_of_canBePlain h
  have hread := plain?_text line (Nat.succ_pos col) h hne (leads_onward hrest (line + 1))
    (Nat.lt_succ_self parent)
  rw [String.ofList_toList] at hread
  obtain ⟨c, ys, hxs⟩ := List.exists_cons_of_ne_nil hne
  rw [hxs] at hplain hfirst hread ⊢
  rw [List.cons_append] at hread ⊢
  obtain ⟨hc, hys⟩ := List.forall_mem_cons.mp hplain.inline
  have hopens := hfirst.opens
  simp only [opensOtherwise, Bool.or_eq_false_iff] at hopens
  have hspace : c ≠ ' ' := by simpa using hfirst.space
  have hhash : c ≠ '#' := by
    rintro rfl
    simp at hopens
  obtain ⟨key, hkey, hsave⟩ := saveKey?_value tokens outer allowed ⟨c, line, col + 1⟩
    (Nat.lt_succ_of_le hcol)
  refine ⟨key, line + 1, hkey, Steps.value ⟨hc, hspace, hhash⟩ (by rintro i ⟨⟩; exact hcol) ?_⟩
  rw [spotsFrom_inline hc] at hread
  rw [next?_plain (marker?_value _) hopens.1.1 (hfirst.alone hys)
    (not_isBlank_of_isInline hc hspace), plainScalar?, hsave]
  simp [hread]

theorem Reads.of_steps {text : List Char} {token : Token} {n : Nat}
    (hprintable : ∀ c ∈ text, isPrintable c = true) (hn : n ≤ text.length)
    (h : ∃ key line', IsIdle key ∧ Steps n (inBlock tokens indents none allowed)
      (spotsFrom line col (text ++ rest)) (inBlock (tokens ++ [token]) indents key true)
      (onward line' rest)) :
    Reads (inBlock tokens indents none allowed) (spotsFrom line col (text ++ rest))
      (tokens ++ [token]) indents rest := by
  obtain ⟨key, line', hkey, hsteps⟩ := h
  refine ⟨n, key, line', hkey, ?_, hsteps⟩
  have hrest := length_onward_le line' rest
  rw [length_spotsFrom_eq, spotCount_append hprintable]
  omega

theorem Steps.quoted {body : List Char} {token : Token} {read : Option (Token × List Spot)}
    {line' col' : Nat} (hc : IsSolid c) (hrest : Dedented parent rest) (hcol : parent ≤ col)
    (hnext : (inBlock tokens (parent :: outer) none allowed).next? ⟨c, line, col + 1⟩
        (spotsFrom line (col + 2) body) =
      (inBlock tokens (parent :: outer) none allowed).keyLike ⟨c, line, col + 1⟩ read)
    (hread : read = some (token, spotsFrom line' col' ('\n' :: rest))) :
    ∃ key line', IsIdle key ∧ Steps 1 (inBlock tokens (parent :: outer) none allowed)
      (spotsFrom line col (' ' :: c :: body))
      (inBlock (tokens ++ [token]) (parent :: outer) key true) (onward line' rest) := by
  obtain ⟨key, hkey, hsave⟩ := saveKey?_value tokens outer allowed ⟨c, line, col + 1⟩
    (Nat.lt_succ_of_le hcol)
  have hvalue : (inBlock tokens (parent :: outer) none allowed).next? ⟨c, line, col + 1⟩
      (spotsFrom line (col + 2) body) =
        some (inBlock (tokens ++ [token]) (parent :: outer) key false,
          spotsFrom line' col' ('\n' :: rest)) := by
    rw [hnext, keyLike, hsave, hread]
    simp
  exact ⟨key, line' + 1, hkey, (Steps.value hc (by rintro i ⟨⟩; exact hcol) hvalue).trans
    (Steps.newline hrest)⟩

end Scanner

/-! ## Styles -/

variable {xs : List Char} {col : Nat} {c : Char}

theorem isPrintable_of_needsEscapes (h : needsEscapes xs = false) :
    (∀ c ∈ xs, isPrintable c = true) ∧
      anyNeighbours (fun a b => a == ' ' && isLineBreak b) xs = false := by
  simpa [needsEscapes] using h

theorem Style.ofText_cases (s : String) :
    (Style.ofText s = .plain ∧ canBePlain s.toList = true ∧ s.toList ≠ []) ∨
    (Style.ofText s = .singleQuoted ∧ Stretches s.toList ∧ ∀ c ∈ s.toList, isPrintable c = true) ∨
    Style.ofText s = .doubleQuoted ∨
    (Style.ofText s = .literal ∧ s.toList ≠ [] ∧ ∀ c ∈ s.toList, isPrintable c = true) := by
  rw [Style.ofText]
  by_cases hlines : s.toList.contains '\n' = true
  · rw [if_pos hlines]
    by_cases hescapes : needsEscapes s.toList || s.toList.getLast? == some ' '
    · rw [if_pos hescapes]
      exact .inr (.inr (.inl rfl))
    · rw [if_neg hescapes]
      rw [Bool.or_eq_true, not_or, Bool.not_eq_true] at hescapes
      refine .inr (.inr (.inr ⟨rfl, ?_, (isPrintable_of_needsEscapes hescapes.1).1⟩))
      intro hnil
      rw [hnil] at hlines
      cases hlines
  · rw [if_neg hlines]
    by_cases hplain : !isMeaning s && canBePlain s.toList
    · rw [if_pos hplain]
      rw [Bool.and_eq_true, Bool.not_eq_true'] at hplain
      refine .inl ⟨rfl, hplain.2, ?_⟩
      intro hnil
      have hempty : s.isEmpty = true := by
        rw [String.isEmpty_iff, ← String.toList_eq_nil_iff]
        exact hnil
      have hmeaning := hplain.1
      rw [isMeaning, hempty] at hmeaning
      cases hmeaning
    · rw [if_neg hplain]
      by_cases hescapes : needsEscapes s.toList ||
          anyNeighbours (fun a b => isLineBreak a && b == ' ') s.toList
      · rw [if_pos hescapes]
        exact .inr (.inr (.inl rfl))
      · rw [if_neg hescapes]
        rw [Bool.or_eq_true, not_or, Bool.not_eq_true, Bool.not_eq_true] at hescapes
        obtain ⟨hprintable, hneighbours⟩ := isPrintable_of_needsEscapes hescapes.1
        refine .inr (.inl ⟨rfl, stretches_of_neighbours (fun c hc => ⟨hprintable c hc, ?_⟩)
          hneighbours hescapes.2, hprintable⟩)
        rintro rfl
        exact hlines (List.contains_iff_mem.mpr hc)

theorem isPrintable_scalarText (s : String) (col : Nat) :
    ∀ c ∈ scalarText (.ofText s) col s.toList, isPrintable c = true := by
  have hindicator (chomping : Chomping) : ∀ c ∈ chomping.indicator, isPrintable c = true := by
    cases chomping <;> exact List.all_eq_true.mp rfl
  intro c hc
  rcases Style.ofText_cases s with ⟨hstyle, hplain, -⟩ | ⟨hstyle, -, hprintable⟩ | hstyle |
    ⟨hstyle, -, hprintable⟩
  · rw [hstyle, scalarText, List.mem_append, List.mem_singleton] at hc
    rcases hc with hc | rfl
    · exact ((plainRest_of_canBePlain hplain).1.inline c hc).1
    · rfl
  · rw [hstyle, scalarText, singleQuotes_append, quotedBody] at hc
    simp only [List.mem_cons, List.mem_append, List.not_mem_nil, or_false] at hc
    rcases hc with rfl | hc | hc | rfl | rfl
    · rfl
    · exact isPrintable_indentedLines (fun c hc => hprintable c (mem_doubled.mp hc)) col false c hc
    · split at hc
      · exact (isInline_of_mem_indentation hc).1
      · cases hc
    · rfl
    · rfl
  · rw [hstyle, scalarText] at hc
    simp only [List.mem_cons, List.mem_append, List.not_mem_nil, or_false] at hc
    rcases hc with (rfl | hc) | rfl | rfl
    · rfl
    · exact (isInline_of_mem_flatMap_escaped hc).1
    · rfl
    · rfl
  · rw [hstyle, ← List.append_nil (scalarText _ _ _), scalarText_literal,
      literalText] at hc
    simp only [List.mem_cons, List.mem_append, List.append_nil] at hc
    rcases hc with rfl | (hc | hc) | rfl | hc | hc
    · rfl
    · split at hc
      · cases hc
      · rw [List.mem_singleton.mp hc]
        rfl
    · exact hindicator _ c hc
    · rfl
    · exact isPrintable_indentedLines hprintable col true c hc
    · split at hc
      · cases hc
      · rw [List.mem_singleton.mp hc]
        rfl

namespace Scanner

variable {tokens : List Token} {outer : List Nat} {allowed : Bool} {rest : List Char}
  {line parent : Nat}

/-- A text that is a value is read back in any style, up to the next line. -/
theorem reads_text (s : String) (hrest : Dedented parent rest) (hcol : parent ≤ col) :
    Reads (inBlock tokens (parent :: outer) none allowed)
      (spotsFrom line col (' ' :: scalarText (.ofText s) (parent + 2) s.toList ++ rest))
      (tokens ++ [.scalar s (.ofText s)]) (parent :: outer) rest := by
  apply Reads.of_steps (n := 1)
  · exact List.forall_mem_cons.mpr ⟨rfl, isPrintable_scalarText s (parent + 2)⟩
  · simp
  rw [List.cons_append]
  rcases Style.ofText_cases s with ⟨hstyle, hplain, hne⟩ | ⟨hstyle, hstretches, hprintable⟩ |
    hstyle | ⟨hstyle, hne, hprintable⟩
  · rw [hstyle, scalarText, List.append_assoc, List.singleton_append]
    exact Steps.plain s hne hplain hrest hcol
  · have hcolumn : 0 < parent + 2 ∧ 0 < col + 2 := ⟨Nat.succ_pos _, Nat.succ_pos _⟩
    obtain ⟨line', col', hread⟩ :=
      quoted?_single line rest hstretches hprintable hcolumn.1 hcolumn.2
    rw [String.ofList_toList] at hread
    rw [hstyle, scalarText, List.append_assoc, singleQuotes_append, List.singleton_append]
    refine Steps.quoted (by unfold IsSolid; decide) hrest hcol ?_ hread
    rw [next?, marker?_value]
    simp
  · have hread := quoted?_double line (Nat.succ_pos (col + 1)) s.toList ('\n' :: rest)
    rw [String.ofList_toList] at hread
    rw [hstyle, scalarText]
    simp only [List.cons_append, List.append_assoc, List.nil_append]
    refine Steps.quoted (by unfold IsSolid; decide) hrest hcol ?_ hread
    rw [next?, marker?_value]
    simp
  · obtain ⟨line', hread⟩ :=
      block?_text hprintable hne hrest (Nat.le_refl parent) line (col + 2)
    refine ⟨none, line', isIdle_none, ?_⟩
    rw [hstyle, scalarText_literal]
    refine Steps.value (by unfold IsSolid; decide) (by rintro i ⟨⟩; exact hcol) ?_
    rw [String.ofList_toList] at hread
    rw [next?, marker?_value]
    simp [blockScalar?, dropKey?_inBlock isIdle_none, hread]

theorem isName_digits (n : Nat) : IsName (toString n).toList := by
  have htext : (toString n).toList = Nat.toDigits 10 n := Nat.toList_repr
  have hdigit (c : Char) (hc : c ∈ Nat.toDigits 10 n) : c.isDigit = true :=
    Nat.isDigit_of_mem_toDigits (by decide) (by decide) hc
  rw [htext]
  refine ⟨Nat.toDigits_ne_nil, fun c hc => ?_, fun hhead => ?_⟩
  · simp [isNameChar, Char.isAlphanum, hdigit c hc]
  · exact absurd (hdigit '-' (List.mem_of_mem_head? hhead)) (by decide)

theorem reads_number (n : Nat) (hrest : Dedented parent rest) (hcol : parent ≤ col) :
    Reads (inBlock tokens (parent :: outer) none allowed)
      (spotsFrom line col (' ' :: (toString n).toList ++ ['\n'] ++ rest))
      (tokens ++ [.scalar (toString n) .plain]) (parent :: outer) rest := by
  have hname := isName_digits n
  apply Reads.of_steps (n := 1)
  · intro c hc
    simp only [List.cons_append, List.mem_cons, List.mem_append, List.not_mem_nil, or_false] at hc
    rcases hc with rfl | hc | rfl
    · rfl
    · exact (isInline_of_isNameChar (hname.chars c hc)).1
    · rfl
  · simp
  simp only [List.cons_append, List.append_assoc, List.nil_append]
  exact Steps.plain (toString n) hname.ne_nil hname.canBePlain hrest hcol

theorem reads_empty {opens closes : Token} {a b : Char}
    (h : (a = '[' ∧ b = ']' ∧ opens = .flowSequenceStart ∧ closes = .flowSequenceEnd) ∨
      (a = '\x7b' ∧ b = '\x7d' ∧ opens = .flowMappingStart ∧ closes = .flowMappingEnd))
    (hrest : Dedented parent rest) (hcol : parent ≤ col) :
    Reads (inBlock tokens (parent :: outer) none allowed)
      (spotsFrom line col ([' ', a, b, '\n'] ++ rest))
      (tokens ++ [opens, closes]) (parent :: outer) rest := by
  obtain ⟨key, hkey, hsave⟩ := saveKey?_value tokens outer allowed ⟨a, line, col + 1⟩
    (Nat.lt_succ_of_le hcol)
  have ha : IsSolid a := by
    unfold IsSolid
    rcases h with ⟨rfl, -⟩ | ⟨rfl, -⟩ <;> decide
  have hb : IsSolid b := by
    unfold IsSolid
    rcases h with ⟨-, rfl, -⟩ | ⟨-, rfl, -⟩ <;> decide
  -- between the brackets the scanner is in a flow collection
  let between : Scanner := ⟨(tokens ++ [opens]).toArray, parent :: outer, [none, key], true⟩
  have hopenFlow : (inBlock tokens (parent :: outer) none allowed).openFlow? opens
      ⟨a, line, col + 1⟩ = some between := by
    rw [openFlow?, hsave]
    simp [inBlock, allowKey, push, between]
  have hcloseFlow : between.closeFlow? closes =
      some (inBlock (tokens ++ [opens, closes]) (parent :: outer) key false) := by
    simp [closeFlow?, between, allowKey, push, dropKey?, inFlow, inBlock]
  have hopen : Steps 1 (inBlock tokens (parent :: outer) none allowed)
      (spotsFrom line col (' ' :: a :: b :: '\n' :: rest)) between
      (spotsFrom line (col + 2) (b :: '\n' :: rest)) := by
    refine Steps.value ha (by rintro i ⟨⟩; exact hcol) ?_
    rw [next?, marker?_value]
    rcases h with ⟨rfl, -, rfl, -⟩ | ⟨rfl, -, rfl, -⟩ <;> simp [hopenFlow]
  have hclose : Steps 1 between (spotsFrom line (col + 2) (b :: '\n' :: rest))
      (inBlock (tokens ++ [opens, closes]) (parent :: outer) key false)
      (spotsFrom line (col + 3) ('\n' :: rest)) := by
    have hskip := skipBlank_solid between.inFlow between.keyAllowed line (col + 2) hb ('\n' :: rest)
    rw [spotsFrom_inline hb.1] at hskip ⊢
    refine Steps.next hskip ?_
    have hcloseTo : (between.allowKey between.keyAllowed).closeTo (col + 2) = between := rfl
    rw [hcloseTo, next?, marker?_value]
    rcases h with ⟨-, rfl, -, rfl⟩ | ⟨-, rfl, -, rfl⟩ <;> simp [hcloseFlow]
  refine ⟨2, key, line + 1, hkey, ?_, (hopen.trans hclose).trans (Steps.newline hrest)⟩
  have hlength := length_onward_le (line + 1) rest
  rw [length_spotsFrom_eq, spotCount_append]
  · simp only [List.length_cons, List.length_nil]
    omega
  · rcases h with ⟨rfl, rfl, -⟩ | ⟨rfl, rfl, -⟩ <;> exact List.all_eq_true.mp rfl

end Scanner

end LedgerClient.Yaml
