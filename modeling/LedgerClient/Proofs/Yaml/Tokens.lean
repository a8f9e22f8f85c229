import LedgerClient.Proofs.Yaml.Scan

/-!
# The tokens of a tree

What is written for a tree is cut into its tokens (`scan?_print`). A list behind the name of a field
has no tokens of its own around its items; every other collection that is not empty has, and one
that is empty stands between brackets.
-/

namespace LedgerClient.Yaml

open Scanner

/-! ## Tokens -/

/-- A name that is short enough for a key. -/
def IsKey (name : String) : Prop := IsName name.toList ∧ name.toList.length ≤ longestKey

instance (name : String) : Decidable (IsKey name) := inferInstanceAs (Decidable (_ ∧ _))

namespace Tree

mutual

/-- Whether all fields have names that can be keys. -/
def IsNamed : Tree → Prop
  | .text _ => True
  | .number _ => True
  | .list items => AllNamed items
  | .fields pairs => FieldsNamed pairs

def AllNamed : List Tree → Prop
  | [] => True
  | t :: ts => t.IsNamed ∧ AllNamed ts

def FieldsNamed : List (String × Tree) → Prop
  | [] => True
  | (name, t) :: fs => IsKey name ∧ t.IsNamed ∧ FieldsNamed fs

end

mutual

/-- The tokens of a tree, behind a dash or, where lists need no tokens of their own, behind a name. -/
def nodeTokens (indentless : Bool) : Tree → List Token
  | .text s => [.scalar s (.ofText s)]
  | .number n => [.scalar (toString n) .plain]
  | .list [] => [.flowSequenceStart, .flowSequenceEnd]
  | .list (t :: ts) =>
    if indentless then itemTokens (t :: ts)
    else .blockSequenceStart :: (itemTokens (t :: ts) ++ [.blockEnd])
  | .fields [] => [.flowMappingStart, .flowMappingEnd]
  | .fields (f :: fs) => .blockMappingStart :: (fieldTokens (f :: fs) ++ [.blockEnd])

def itemTokens : List Tree → List Token
  | [] => []
  | t :: ts => .blockEntry :: (t.nodeTokens false ++ itemTokens ts)

def fieldTokens : List (String × Tree) → List Token
  | [] => []
  | (name, t) :: fs => .key :: .scalar name .plain :: .value :: (t.nodeTokens true ++ fieldTokens fs)

end

end Tree

/-! ## Columns -/

variable {column line col : Nat} {rest : List Char} {tokens : List Token} {indents outer : List Nat}
  {key : Option KeyStart}

/-- Some texts, each in a column. -/
def lined (column : Nat) (texts : List (List Char)) : List Char :=
  texts.flatMap (indentation column ++ ·)

theorem inColumn_cons (column : Nat) (text : List Char) (texts : List (List Char)) :
    indentation column ++ inColumn column (text :: texts) = lined column (text :: texts) := by
  simp [inColumn, lined]

theorem lined_cons (text : List Char) (texts : List (List Char)) (rest : List Char) :
    lined column (text :: texts) ++ rest =
      indentation column ++ (text ++ (lined column texts ++ rest)) := by
  simp [lined]

theorem begins_itemTexts (t : Tree) (ts : List Tree) (column : Nat) (rest : List Char) :
    ∃ c more, isNameChar c = true ∧
      inColumn column (Tree.itemTexts column (t :: ts)) ++ rest = c :: more :=
  ⟨'-', _, rfl, rfl⟩

theorem begins_fieldTexts (f : String × Tree) (fs : List (String × Tree))
    (h : Tree.FieldsNamed (f :: fs)) (column : Nat) (rest : List Char) :
    ∃ c more, isNameChar c = true ∧
      inColumn column (Tree.fieldTexts column (f :: fs)) ++ rest = c :: more := by
  obtain ⟨name, t⟩ := f
  rw [Tree.FieldsNamed] at h
  obtain ⟨c, more, hchars⟩ := List.exists_cons_of_ne_nil h.1.1.ne_nil
  exact ⟨c, _, h.1.1.chars c (by simp [hchars]), by rw [Tree.fieldTexts, inColumn, hchars]; rfl⟩

theorem lined_items (t : Tree) (ts : List Tree) (column : Nat) (rest : List Char) :
    lined column (Tree.itemTexts column (t :: ts)) ++ rest =
      indentation column ++ (inColumn column (Tree.itemTexts column (t :: ts)) ++ rest) := by
  rw [Tree.itemTexts, ← inColumn_cons, List.append_assoc]

theorem lined_fields (f : String × Tree) (fs : List (String × Tree)) (column : Nat)
    (rest : List Char) : lined column (Tree.fieldTexts column (f :: fs)) ++ rest =
      indentation column ++ (inColumn column (Tree.fieldTexts column (f :: fs)) ++ rest) := by
  rw [Tree.fieldTexts, ← inColumn_cons, List.append_assoc]

theorem dedented_items (ts : List Tree) (h : Dedented column rest) :
    Dedented column (lined column (Tree.itemTexts column ts) ++ rest) := by
  cases ts with
  | nil => exact h
  | cons t ts =>
    obtain ⟨c, more, hc, htext⟩ := begins_itemTexts t ts column rest
    exact .inr ⟨column, c, more, Nat.le_refl column, hc, by rw [lined_items, htext]⟩

theorem dedented_fields (fs : List (String × Tree)) (hfs : Tree.FieldsNamed fs)
    (h : Dedented column rest) :
    Dedented column (lined column (Tree.fieldTexts column fs) ++ rest) := by
  cases fs with
  | nil => exact h
  | cons f fs =>
    obtain ⟨c, more, hc, htext⟩ := begins_fieldTexts f fs hfs column rest
    exact .inr ⟨column, c, more, Nat.le_refl column, hc, by rw [lined_fields, htext]⟩

theorem head_afterDash (t : Tree) (column : Nat) (rest : List Char) :
    (t.afterDash column ++ rest).head? = some ' ' := by
  fun_cases Tree.afterDash column t <;> rfl

theorem head_afterName (t : Tree) (column : Nat) (rest : List Char) :
    (t.afterName column ++ rest).head? = some ' ' ∨ (t.afterName column ++ rest).head? = some '\n' := by
  fun_cases Tree.afterName column t <;> simp

namespace Scanner

theorem exists_opened (column : Nat) (indents : List Nat) :
    ∃ outer, opened column indents = column :: outer := by
  unfold opened
  split
  · rename_i hhead
    obtain ⟨outer, rfl⟩ := List.head?_eq_some_iff.mp hhead
    exact ⟨outer, rfl⟩
  · exact ⟨indents, rfl⟩

theorem opened_cons : opened column (column :: outer) = column :: outer := by simp [opened]

theorem opening_cons (t : Token) : opening column (column :: outer) t = [] := by simp [opening]

theorem isInside_right (outer : List Nat) : IsInside (column :: outer) (column + 2) := by
  rintro i ⟨⟩
  exact Nat.le_add_right column 2

theorem opened_right : opened (column + 2) (column :: outer) = (column + 2) :: column :: outer := by
  simp [opened]

theorem opening_right (t : Token) : opening (column + 2) (column :: outer) t = [t] := by
  simp [opening]

theorem isInside_cons (outer : List Nat) : IsInside (column :: outer) column := by
  rintro i ⟨⟩
  exact Nat.le_refl column

variable {s s' : Scanner} {spots spots' : List Spot} {tokens' : List Token} {indents' : List Nat}
  {rest' : List Char}

theorem Reads.after {n : Nat} (hsteps : Steps n s spots s' spots')
    (hlength : n + spots'.length ≤ spots.length) (h : Reads s' spots' tokens indents rest) :
    Reads s spots tokens indents rest := by
  obtain ⟨n', key, line, hkey, hlength', hsteps'⟩ := h
  exact ⟨n' + n, key, line, hkey, by omega, hsteps.trans hsteps'⟩

theorem Reads.trans (h : Reads s spots tokens indents rest)
    (h' : ∀ key line, IsIdle key →
      Reads (inBlock tokens indents key true) (onward line rest) tokens' indents' rest') :
    Reads s spots tokens' indents' rest' := by
  obtain ⟨n, key, line, hkey, hlength, hsteps⟩ := h
  exact (h' key line hkey).after hsteps hlength

theorem Reads.close {i : Nat} (h : Reads s spots tokens (i :: indents) rest)
    (hrest : Dedented column rest) (hi : column < i) :
    Reads s spots (tokens ++ [.blockEnd]) indents rest := by
  obtain ⟨n, key, line, hkey, hlength, hsteps⟩ := h
  refine ⟨0 + n, key, line, hkey, by omega, hsteps.trans (Steps.close hrest hi)⟩

theorem Reads.refl (hkey : IsIdle key) :
    Reads (inBlock tokens indents key true) (onward line rest) tokens indents rest :=
  ⟨0, key, line, hkey, by omega, fun _ => rfl⟩

/-! ## Items and fields -/

theorem reads_item {t : Tree} (line : Nat) (tokens : List Token) (h : IsInside indents column)
    (hkey : IsIdle key) (ht : ∀ outer tokens, Reads (inBlock tokens (column :: outer) none true)
      (spotsFrom line (column + 1) (t.afterDash column ++ rest)) (tokens ++ t.nodeTokens false)
      (column :: outer) rest) :
    Reads (inBlock tokens indents key true)
      (onward line (indentation column ++ ('-' :: t.afterDash column ++ rest)))
      (tokens ++ (opening column indents .blockSequenceStart ++ (.blockEntry :: t.nodeTokens false)))
      (opened column indents) rest := by
  have hdash := Steps.dash line tokens h hkey (head_afterDash t column rest)
  obtain ⟨outer, houter⟩ := exists_opened column indents
  rw [houter] at hdash ⊢
  have hread := Reads.after hdash ?_ (ht outer _)
  · rw [List.cons_append, onward_indentation (by decide)]
    simpa using hread
  · rw [spotsFrom_inline (by decide), List.length_cons]
    omega

theorem reads_field {t : Tree} {name : String} (line : Nat) (tokens : List Token)
    (hname : IsKey name) (h : IsInside indents column) (hkey : IsIdle key)
    (ht : ∀ outer tokens col, column ≤ col → Reads (inBlock tokens (column :: outer) none false)
      (spotsFrom line col (t.afterName column ++ rest)) (tokens ++ t.nodeTokens true)
      (column :: outer) rest) :
    Reads (inBlock tokens indents key true)
      (onward line (indentation column ++ (name.toList ++ ':' :: t.afterName column ++ rest)))
      (tokens ++ (opening column indents .blockMappingStart ++
        (.key :: .scalar name .plain :: .value :: t.nodeTokens true)))
      (opened column indents) rest := by
  have hsteps := Steps.name line tokens h hkey hname.1 hname.2
    (head_afterName t column rest)
  obtain ⟨outer, houter⟩ := exists_opened column indents
  rw [houter, String.ofList_toList] at hsteps
  rw [houter]
  have hread := Reads.after hsteps ?_ (ht outer _ _ (by omega))
  · obtain ⟨c, more, hchars⟩ := List.exists_cons_of_ne_nil hname.1.ne_nil
    have hc := hname.1.chars c (by simp [hchars])
    rw [hchars] at hread ⊢
    rw [List.cons_append, List.cons_append, onward_indentation hc]
    simpa using hread
  · have hprintable : ∀ c ∈ name.toList, isPrintable c = true := fun c hc =>
      (isInline_of_isNameChar (hname.1.chars c hc)).1
    have hlong := List.length_pos_iff.mpr hname.1.ne_nil
    rw [length_spotsFrom_eq, length_spotsFrom_eq, spotCount_append hprintable,
      spotCount_cons isInline_colon.1]
    omega

theorem Reads.onLine {text : List Char} (hbegins : ∃ c more, isNameChar c = true ∧ text = c :: more)
    (h : Reads (inBlock tokens indents none true) (onward line (indentation (column + 2) ++ text))
      tokens' indents' rest') :
    Reads (inBlock tokens indents none true) (spotsFrom line (column + 1) (' ' :: text)) tokens'
      indents' rest' := by
  obtain ⟨c, more, hc, rfl⟩ := hbegins
  rw [onward_indentation hc] at h
  have hsolid := skipBlank_solid false true line (column + 2) (isSolid_of_isNameChar hc) more
  refine h.after (Steps.skip (by rw [skipBlank_space]; exact hsolid) hsolid) ?_
  rw [spotsFrom_inline isInline_space, List.length_cons]
  exact Nat.le_trans (Nat.le_of_eq (Nat.zero_add _)) (Nat.le_succ _)

theorem Reads.onNextLine (col : Nat) (hrest : Dedented column rest)
    (h : Reads (inBlock tokens indents none true) (onward (line + 1) rest) tokens' indents' rest') :
    Reads (inBlock tokens indents none false) (spotsFrom line col ('\n' :: rest)) tokens' indents'
      rest' := by
  refine h.after (Steps.newline hrest) ?_
  have hlength := length_onward_le (line + 1) rest
  rw [spotsFrom_newline, List.length_cons, length_spotsFrom_eq]
  omega

end Scanner

namespace Tree

mutual

theorem reads_afterDash (t : Tree) (h : t.IsNamed) {column : Nat} {rest : List Char}
    (hrest : Dedented column rest) (line : Nat) (outer : List Nat) (tokens : List Token) :
    Reads (inBlock tokens (column :: outer) none true)
      (spotsFrom line (column + 1) (t.afterDash column ++ rest)) (tokens ++ t.nodeTokens false)
      (column :: outer) rest := by
  match t with
  | .text s => exact reads_text s hrest (Nat.le_succ column)
  | .number n => exact reads_number n hrest (Nat.le_succ column)
  | .list [] => exact reads_empty (.inl ⟨rfl, rfl, rfl, rfl⟩) hrest (Nat.le_succ column)
  | .list (t :: ts) =>
    rw [IsNamed] at h
    have hread := reads_itemTexts (t :: ts) h (hrest.mono (Nat.le_add_right column 2))
      (isInside_right outer) (by simp) isIdle_none line tokens
    rw [opened_right, opening_right, lined_items] at hread
    have hitems := (hread.onLine (begins_itemTexts t ts (column + 2) rest)).close hrest
      (Nat.lt_add_of_pos_right (by decide))
    rw [List.append_assoc] at hitems
    exact hitems
  | .fields [] => exact reads_empty (.inr ⟨rfl, rfl, rfl, rfl⟩) hrest (Nat.le_succ column)
  | .fields (f :: fs) =>
    rw [IsNamed] at h
    have hread := reads_fieldTexts (f :: fs) h (hrest.mono (Nat.le_add_right column 2))
      (isInside_right outer) (by simp) isIdle_none line tokens
    rw [opened_right, opening_right, lined_fields] at hread
    have hfields := (hread.onLine (begins_fieldTexts f fs h (column + 2) rest)).close hrest
      (Nat.lt_add_of_pos_right (by decide))
    rw [List.append_assoc] at hfields
    exact hfields

theorem reads_afterName (t : Tree) (h : t.IsNamed) {column : Nat} {rest : List Char}
    (hrest : Dedented column rest) (line : Nat) (outer : List Nat) (tokens : List Token) (col : Nat)
    (hcol : column ≤ col) :
    Reads (inBlock tokens (column :: outer) none false)
      (spotsFrom line col (t.afterName column ++ rest)) (tokens ++ t.nodeTokens true)
      (column :: outer) rest := by
  match t with
  | .text s => exact reads_text s hrest hcol
  | .number n => exact reads_number n hrest hcol
  | .list [] => exact reads_empty (.inl ⟨rfl, rfl, rfl, rfl⟩) hrest hcol
  | .list (t :: ts) =>
    rw [IsNamed] at h
    have hread := reads_itemTexts (t :: ts) h hrest (isInside_cons outer)
      (by simp) isIdle_none (line + 1) tokens
    rw [opened_cons, opening_cons] at hread
    have htext : afterName column (.list (t :: ts)) ++ rest =
        '\n' :: (lined column (itemTexts column (t :: ts)) ++ rest) := by
      rw [lined_items, afterName, List.append_assoc]
      rfl
    rw [htext]
    exact hread.onNextLine col (dedented_items (t :: ts) hrest)
  | .fields [] => exact reads_empty (.inr ⟨rfl, rfl, rfl, rfl⟩) hrest hcol
  | .fields (f :: fs) =>
    rw [IsNamed] at h
    have hdeeper := hrest.mono (Nat.le_add_right column 2)
    have hread := reads_fieldTexts (f :: fs) h hdeeper
      (isInside_right outer) (by simp) isIdle_none (line + 1) tokens
    rw [opened_right, opening_right] at hread
    have htext : afterName column (.fields (f :: fs)) ++ rest =
        '\n' :: (lined (column + 2) (fieldTexts (column + 2) (f :: fs)) ++ rest) := by
      rw [lined_fields, afterName, List.append_assoc]
      rfl
    have hfields := (hread.onNextLine col (dedented_fields (f :: fs) h hdeeper)).close hrest
      (Nat.lt_add_of_pos_right (by decide))
    rw [List.append_assoc] at hfields
    rw [htext]
    exact hfields

theorem reads_itemTexts (ts : List Tree) (h : AllNamed ts) {column : Nat} {rest : List Char}
    {indents : List Nat} {key : Option KeyStart} (hrest : Dedented column rest)
    (hinside : IsInside indents column) (hopen : ts = [] → indents.head? = some column)
    (hkey : IsIdle key) (line : Nat) (tokens : List Token) :
    Reads (inBlock tokens indents key true)
      (onward line (lined column (itemTexts column ts) ++ rest))
      (tokens ++ (opening column indents .blockSequenceStart ++ itemTokens ts))
      (opened column indents) rest := by
  match ts with
  | [] =>
    obtain ⟨outer, rfl⟩ := List.head?_eq_some_iff.mp (hopen rfl)
    rw [opening_cons, opened_cons, itemTokens, List.append_nil, List.append_nil]
    exact Reads.refl hkey
  | t :: ts =>
    rw [AllNamed] at h
    have hitem := reads_item line tokens hinside hkey
      (reads_afterDash t h.1 (dedented_items ts hrest) line)
    obtain ⟨outer, houter⟩ := exists_opened column indents
    rw [houter] at hitem ⊢
    rw [itemTexts, lined_cons]
    refine hitem.trans fun key line hkey => ?_
    have hmore := reads_itemTexts ts h.2 hrest (isInside_cons outer)
      (fun _ => rfl) hkey line
      (tokens ++ (opening column indents .blockSequenceStart ++ (.blockEntry :: t.nodeTokens false)))
    rw [opening_cons, opened_cons] at hmore
    simpa [itemTokens] using hmore

theorem reads_fieldTexts (fs : List (String × Tree)) (h : FieldsNamed fs) {column : Nat}
    {rest : List Char} {indents : List Nat} {key : Option KeyStart} (hrest : Dedented column rest)
    (hinside : IsInside indents column) (hopen : fs = [] → indents.head? = some column)
    (hkey : IsIdle key) (line : Nat) (tokens : List Token) :
    Reads (inBlock tokens indents key true)
      (onward line (lined column (fieldTexts column fs) ++ rest))
      (tokens ++ (opening column indents .blockMappingStart ++ fieldTokens fs))
      (opened column indents) rest := by
  match fs with
  | [] =>
    obtain ⟨outer, rfl⟩ := List.head?_eq_some_iff.mp (hopen rfl)
    rw [opening_cons, opened_cons, fieldTokens, List.append_nil, List.append_nil]
    exact Reads.refl hkey
  | (name, t) :: fs =>
    rw [FieldsNamed] at h
    have hfield := reads_field line tokens h.1 hinside hkey
      (reads_afterName t h.2.1 (dedented_fields fs h.2.2 hrest) line)
    obtain ⟨outer, houter⟩ := exists_opened column indents
    rw [houter] at hfield ⊢
    rw [fieldTexts, lined_cons]
    refine hfield.trans fun key line hkey => ?_
    have hmore := reads_fieldTexts fs h.2.2 hrest (isInside_cons outer)
      (fun _ => rfl) hkey line (tokens ++ (opening column indents .blockMappingStart ++
        (.key :: .scalar name .plain :: .value :: t.nodeTokens true)))
    rw [opening_cons, opened_cons] at hmore
    simpa [fieldTokens] using hmore

end

/-! ## Printable texts -/

theorem isPrintable_inColumn {texts : List (List Char)} (h : ∀ text ∈ texts, ∀ c ∈ text,
    isPrintable c = true) (column : Nat) : ∀ c ∈ inColumn column texts, isPrintable c = true := by
  cases texts with
  | nil => simp [inColumn]
  | cons text texts =>
    obtain ⟨htext, htexts⟩ := List.forall_mem_cons.mp h
    intro c hc
    rw [inColumn, List.mem_append] at hc
    rcases hc with hc | hc
    · exact htext c hc
    · obtain ⟨other, hother, hc⟩ := List.mem_flatMap.mp hc
      rcases List.mem_append.mp hc with hc | hc
      · exact (isInline_of_mem_indentation hc).1
      · exact htexts other hother c hc

theorem isPrintable_number (n : Nat) :
    ∀ c ∈ ' ' :: (toString n).toList ++ ['\n'], isPrintable c = true := by
  intro c hc
  simp only [List.cons_append, List.mem_cons, List.mem_append, List.not_mem_nil, or_false] at hc
  rcases hc with rfl | hc | rfl
  · rfl
  · exact (isInline_of_isNameChar ((isName_digits n).chars c hc)).1
  · rfl

theorem isPrintable_empty : (∀ c ∈ " []\n".toList, isPrintable c = true) ∧
    ∀ c ∈ " \x7b\x7d\n".toList, isPrintable c = true :=
  ⟨List.all_eq_true.mp rfl, List.all_eq_true.mp rfl⟩

theorem isPrintable_below {text : List Char} (h : ∀ c ∈ text, isPrintable c = true) (column : Nat) :
    ∀ c ∈ '\n' :: indentation column ++ text, isPrintable c = true := by
  intro c hc
  rw [List.cons_append, List.mem_cons, List.mem_append] at hc
  rcases hc with rfl | hc | hc
  · rfl
  · exact (isInline_of_mem_indentation hc).1
  · exact h c hc

mutual

theorem isPrintable_afterDash (t : Tree) (h : t.IsNamed) (column : Nat) :
    ∀ c ∈ t.afterDash column, isPrintable c = true := by
  match t with
  | .text s => exact List.forall_mem_cons.mpr ⟨rfl, isPrintable_scalarText s (column + 2)⟩
  | .number n => exact isPrintable_number n
  | .list [] => exact isPrintable_empty.1
  | .list (t :: ts) =>
    rw [IsNamed] at h
    exact List.forall_mem_cons.mpr ⟨rfl, isPrintable_inColumn
      (isPrintable_itemTexts (t :: ts) h (column + 2)) (column + 2)⟩
  | .fields [] => exact isPrintable_empty.2
  | .fields (f :: fs) =>
    rw [IsNamed] at h
    exact List.forall_mem_cons.mpr ⟨rfl, isPrintable_inColumn
      (isPrintable_fieldTexts (f :: fs) h (column + 2)) (column + 2)⟩

theorem isPrintable_afterName (t : Tree) (h : t.IsNamed) (column : Nat) :
    ∀ c ∈ t.afterName column, isPrintable c = true := by
  match t with
  | .text s => exact List.forall_mem_cons.mpr ⟨rfl, isPrintable_scalarText s (column + 2)⟩
  | .number n => exact isPrintable_number n
  | .list [] => exact isPrintable_empty.1
  | .list (t :: ts) =>
    rw [IsNamed] at h
    exact isPrintable_below (isPrintable_inColumn (isPrintable_itemTexts (t :: ts) h column) column)
      column
  | .fields [] => exact isPrintable_empty.2
  | .fields (f :: fs) =>
    rw [IsNamed] at h
    exact isPrintable_below (isPrintable_inColumn
      (isPrintable_fieldTexts (f :: fs) h (column + 2)) (column + 2)) (column + 2)

theorem isPrintable_itemTexts (ts : List Tree) (h : AllNamed ts) (column : Nat) :
    ∀ text ∈ itemTexts column ts, ∀ c ∈ text, isPrintable c = true := by
  match ts with
  | [] => simp [itemTexts]
  | t :: ts =>
    rw [AllNamed] at h
    exact List.forall_mem_cons.mpr ⟨List.forall_mem_cons.mpr ⟨rfl, isPrintable_afterDash t h.1 column⟩,
      isPrintable_itemTexts ts h.2 column⟩

theorem isPrintable_fieldTexts (fs : List (String × Tree)) (h : FieldsNamed fs) (column : Nat) :
    ∀ text ∈ fieldTexts column fs, ∀ c ∈ text, isPrintable c = true := by
  match fs with
  | [] => simp [fieldTexts]
  | (name, t) :: fs =>
    rw [FieldsNamed] at h
    refine List.forall_mem_cons.mpr ⟨List.forall_mem_append.mpr ⟨fun c hc => ?_,
      List.forall_mem_cons.mpr ⟨rfl, isPrintable_afterName t h.2.1 column⟩⟩,
      isPrintable_fieldTexts fs h.2.2 column⟩
    exact (isInline_of_isNameChar (h.1.1.chars c hc)).1

end

/-! ## Documents -/

/-- A document that is written is cut into the tokens of its tree. -/
theorem scan?_print (pairs : List (String × Tree)) (h : FieldsNamed pairs) (hne : pairs ≠ []) :
    Token.scan? (print pairs) = some (nodeTokens false (.fields pairs)) := by
  obtain ⟨f, fs, rfl⟩ := List.exists_cons_of_ne_nil hne
  have hallowed : (inColumn 0 (fieldTexts 0 (f :: fs))).all isAllowed = true :=
    List.all_eq_true.mpr fun c hc => isAllowed_of_isPrintable
      (isPrintable_inColumn (isPrintable_fieldTexts (f :: fs) h 0) 0 c hc)
  have hspots : spots? (print (f :: fs)) =
      some (spotsFrom 0 0 (inColumn 0 (fieldTexts 0 (f :: fs)))) := by
    rw [spots?, print, String.toList_ofList]
    simp only [hallowed, if_true]
  obtain ⟨c, more, hc, htext⟩ := begins_fieldTexts f fs h 0 []
  have hrest : Dedented 0 [] := .inl rfl
  have hinside : IsInside [] 0 := by simp [IsInside]
  have hread := reads_fieldTexts (f :: fs) h hrest hinside (by simp) isIdle_none 0 []
  rw [lined_fields, htext, onward_indentation hc, ← htext, List.append_nil, List.nil_append] at hread
  obtain ⟨n, key, line, hkey, hlength, hsteps⟩ := hread
  have hend (fuel : Nat) : tokens? (fuel + 1)
      (inBlock (opening 0 [] .blockMappingStart ++ fieldTokens (f :: fs)) (opened 0 []) key true)
      (onward line []) = some (nodeTokens false (.fields (f :: fs))) := by
    have hclose : (inBlock (opening 0 [] .blockMappingStart ++ fieldTokens (f :: fs)) [0] key
        true).closeAll = inBlock (nodeTokens false (.fields (f :: fs))) [] key true := by
      rw [closeAll_cons]
      rfl
    have hopened : opened 0 [] = [0] := rfl
    rw [tokens?, hopened]
    change ((inBlock _ [0] key true).closeAll.dropKey?).map _ = _
    rw [hclose, dropKey?_inBlock hkey]
    rfl
  obtain ⟨fuel, hfuel⟩ := Nat.exists_eq_add_of_le (Nat.le_trans (Nat.le_add_right n _) hlength)
  have hstart : Scanner.start = inBlock [] [] none true := rfl
  rw [Token.scan?, hspots, Option.bind_some, hfuel, hstart, Nat.add_assoc, Nat.add_comm n, hsteps, hend]

end Tree

end LedgerClient.Yaml
