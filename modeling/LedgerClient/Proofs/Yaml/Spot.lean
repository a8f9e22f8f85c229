import LedgerClient.Yaml.Tree
import LedgerClient.Proofs.Text.Words
import Mathlib.Data.List.Basic

/-!
# The spots of what is written

All that is written is printable, so each of its characters is a spot of its own; only line breaks
begin a new line. Behind the last line break of a value comes the indentation of the next token, if
there is one: `Dedented` says where that token may stand, and `onward` are the spots from it on.
-/

namespace LedgerClient.Yaml

variable {c : Char} {cs xs ys rest : List Char} {line column : Nat}

/-! ## Characters -/

/-- A character that is written as it is within a line. -/
def IsInline (c : Char) : Prop := isPrintable c = true ∧ isLineBreak c = false

instance (c : Char) : Decidable (IsInline c) := inferInstanceAs (Decidable (_ ∧ _))

theorem isAllowed_of_isPrintable (h : isPrintable c = true) : isAllowed c = true := by
  simp only [isPrintable, Bool.and_eq_true] at h
  exact h.2

theorem ne_of_isPrintable (h : isPrintable c = true) :
    c ≠ '\t' ∧ c ≠ '\r' ∧ c.toNat ≠ 0x85 ∧ c ≠ byteOrderMark := by
  simp only [isPrintable, Bool.and_eq_true, bne_iff_ne] at h
  exact ⟨h.1.1.1.1, h.1.1.1.2, h.1.1.2, h.1.2⟩

theorem isSeparator_of_isLineBreak (h : isPrintable c = true) (hb : isLineBreak c = true)
    (hn : c ≠ '\n') : isSeparator c = true := by
  obtain ⟨-, hr, hnext, -⟩ := ne_of_isPrintable h
  simpa [isLineBreak, hn, hr, hnext] using hb

theorem isSpacing_of_isPrintable (h : isPrintable c = true) :
    isSpacing c = true ↔ c = ' ' := by
  obtain ⟨ht, -⟩ := ne_of_isPrintable h
  simp [isSpacing, ht]

/-! ## Spots -/

theorem spotsFrom_inline (h : IsInline c) (cs : List Char) : spotsFrom line column (c :: cs) =
    ⟨c, line, column⟩ :: spotsFrom line (column + 1) cs := by
  obtain ⟨-, hr, -⟩ := ne_of_isPrintable h.1
  rw [spotsFrom, h.2]
  · rfl
  · rintro cs' rfl
    exact absurd rfl hr

theorem spotsFrom_break (h : isPrintable c = true) (hb : isLineBreak c = true) (cs : List Char) :
    spotsFrom line column (c :: cs) = ⟨c, line, column⟩ :: spotsFrom (line + 1) 0 cs := by
  obtain ⟨-, hr, -⟩ := ne_of_isPrintable h
  rw [spotsFrom, if_pos hb]
  · by_cases hn : c = '\n'
    · rw [hn, ite_self]
    · rw [if_pos (isSeparator_of_isLineBreak h hb hn)]
  · rintro cs' rfl
    exact absurd rfl hr

theorem spotsFrom_newline (cs : List Char) : spotsFrom line column ('\n' :: cs) =
    ⟨'\n', line, column⟩ :: spotsFrom (line + 1) 0 cs := spotsFrom_break (by decide) (by decide) cs

theorem spotsFrom_append (h : ∀ c ∈ xs, IsInline c) (ys : List Char) :
    spotsFrom line column (xs ++ ys) =
      spotsFrom line column xs ++ spotsFrom line (column + xs.length) ys := by
  induction xs generalizing column with
  | nil => rfl
  | cons c xs ih =>
    obtain ⟨hc, hxs⟩ := List.forall_mem_cons.mp h
    rw [List.cons_append, spotsFrom_inline hc, spotsFrom_inline hc, ih hxs, List.cons_append,
      List.length_cons, Nat.add_right_comm, Nat.add_assoc column]

theorem column_of_head (cs : List Char) : ∀ s ∈ (spotsFrom line column cs).head?,
    s.column = column := by
  fun_cases spotsFrom line column cs <;> simp

theorem length_spotsFrom (line column line' column' : Nat) (cs : List Char) :
    (spotsFrom line column cs).length = (spotsFrom line' column' cs).length := by
  fun_induction spotsFrom line column cs generalizing line' column' with
  | case1 => rfl
  | case2 line column cs ih => simp [spotsFrom, ih (line' + 1) 0]
  | case3 line column c cs hne hb ih =>
    rw [spotsFrom, if_pos hb]
    · simp [ih (line' + 1) 0]
    · exact hne
  | case4 line column c cs hne hb ih =>
    rw [spotsFrom, if_neg hb]
    · simp [ih line' (column' + 1)]
    · exact hne

/-- How many spots a text has. -/
def spotCount (cs : List Char) : Nat := (spotsFrom 0 0 cs).length

theorem length_spotsFrom_eq (line column : Nat) (cs : List Char) :
    (spotsFrom line column cs).length = spotCount cs := length_spotsFrom line column 0 0 cs

theorem spotCount_pos (c : Char) (cs : List Char) : 0 < spotCount (c :: cs) := by
  rw [spotCount]
  generalize hline : c :: cs = line
  fun_cases spotsFrom 0 0 line with
  | case1 => cases hline
  | case2 | case3 | case4 => exact Nat.succ_pos _

theorem spotCount_cons (hc : isPrintable c = true) (cs : List Char) :
    spotCount (c :: cs) = spotCount cs + 1 := by
  by_cases hb : isLineBreak c = true
  · rw [spotCount, spotsFrom_break hc hb, List.length_cons, length_spotsFrom_eq]
  · rw [spotCount, spotsFrom_inline ⟨hc, by simpa using hb⟩, List.length_cons, length_spotsFrom_eq]

theorem spotCount_append (h : ∀ c ∈ xs, isPrintable c = true) (ys : List Char) :
    spotCount (xs ++ ys) = xs.length + spotCount ys := by
  induction xs with
  | nil => simp
  | cons c xs ih =>
    obtain ⟨hc, hxs⟩ := List.forall_mem_cons.mp h
    rw [List.cons_append, spotCount_cons hc, ih hxs, List.length_cons]
    omega

/-! ## Spaces -/

theorem isInline_space : IsInline ' ' := by decide

theorem isInline_of_mem_indentation {count : Nat} (h : c ∈ indentation count) : IsInline c := by
  rw [List.eq_of_mem_replicate h]
  exact isInline_space

theorem spotsFrom_indentation (count : Nat) (cs : List Char) :
    spotsFrom line column (indentation count ++ cs) =
      spotsFrom line column (indentation count) ++ spotsFrom line (column + count) cs := by
  rw [spotsFrom_append fun c hc => isInline_of_mem_indentation hc]
  simp [indentation]

theorem mem_spotsFrom_indentation {count : Nat} {s : Spot}
    (h : s ∈ spotsFrom line column (indentation count)) :
    s.char = ' ' ∧ s.column < column + count := by
  induction count generalizing column with
  | zero => simp [indentation, spotsFrom] at h
  | succ count ih =>
    rw [indentation, List.replicate_succ, spotsFrom_inline isInline_space] at h
    rcases List.mem_cons.mp h with rfl | h
    · exact ⟨rfl, by simp⟩
    · obtain ⟨hchar, hlt⟩ := ih h
      exact ⟨hchar, by omega⟩

theorem exists_word (xs : List Char) : ∃ word count tail, xs = word ++ (indentation count ++ tail) ∧
    (∀ c ∈ word, c ≠ ' ') ∧ tail.head? ≠ some ' ' ∧ (count = 0 → tail = []) := by
  induction xs with
  | nil => exact ⟨[], 0, [], rfl, by simp, by simp, fun _ => rfl⟩
  | cons c xs ih =>
    obtain ⟨word, count, tail, hxs, hword, htail, hcount⟩ := ih
    by_cases hc : c = ' '
    · subst hc
      cases word with
      | nil =>
        refine ⟨[], count + 1, tail, ?_, hword, htail, by omega⟩
        rw [hxs, indentation, indentation, List.replicate_succ]
        rfl
      | cons d word =>
        refine ⟨[], 1, xs, rfl, by simp, ?_, by omega⟩
        rw [hxs]
        simpa using hword d List.mem_cons_self
    · refine ⟨c :: word, count, tail, by rw [hxs, List.cons_append], ?_, htail, hcount⟩
      exact List.forall_mem_cons.mpr ⟨hc, hword⟩

/-! ## What follows a value -/

/-- The rest of a document, which goes on in this column or to the left of it with a name or a dash,
if it goes on. -/
def Dedented (column : Nat) (rest : List Char) : Prop :=
  rest = [] ∨ ∃ count c more, count ≤ column ∧ isNameChar c = true ∧
    rest = indentation count ++ c :: more

theorem Dedented.mono {column' : Nat} (h : Dedented column rest) (hle : column ≤ column') :
    Dedented column' rest := by
  rcases h with h | ⟨count, c, more, hcount, hc, hrest⟩
  · exact .inl h
  · exact .inr ⟨count, c, more, by omega, hc, hrest⟩

/-- The rest of a document from its next token on; a line begins here. -/
def onward (line : Nat) (rest : List Char) : List Spot :=
  (spotsFrom line 0 rest).dropWhile (·.char == ' ')

/-- A line of which the first token stands in this column or to the left of it. -/
structure Leads (column : Nat) (spots next : List Spot) : Prop where
  spaces : ∃ front, spots = front ++ next ∧ ∀ s ∈ front, s.char = ' ' ∧ s.column < column
  next : next = [] ∨ ∃ s more, next = s :: more ∧ s.column ≤ column ∧ isNameChar s.char = true

theorem toNat_lt_of_isNameChar (h : isNameChar c = true) : c.toNat < 128 := by
  have halpha : c.isAlpha = (c.isUpper || c.isLower) := rfl
  have hupper : c.isUpper = decide ('A'.val ≤ c.val ∧ c.val ≤ 'Z'.val) := rfl
  have hlower : c.isLower = (decide ('a'.val ≤ c.val) && decide (c.val ≤ 'z'.val)) := rfl
  simp only [isNameChar, Char.isAlphanum, halpha, hupper, hlower, Char.isDigit, Bool.or_eq_true,
    Bool.and_eq_true, decide_eq_true_eq, beq_iff_eq, UInt32.le_iff_toNat_le] at h
  rcases h with ((((h | h) | h) | rfl) | rfl)
  · exact Nat.lt_of_le_of_lt h.2 (by decide)
  · exact Nat.lt_of_le_of_lt h.2 (by decide)
  · exact Nat.lt_of_le_of_lt h.2 (by decide)
  · decide
  · decide

theorem isInline_of_isNameChar (h : isNameChar c = true) : IsInline c := by
  have hall : ∀ c : Char, c.toNat < 128 → isNameChar c = true → IsInline c :=
    Text.of_ascii (by decide)
  exact hall c (toNat_lt_of_isNameChar h) h

theorem ne_of_isNameChar {d : Char} (h : isNameChar c = true) (hd : isNameChar d = false) :
    c ≠ d := by
  rintro rfl
  rw [h] at hd
  cases hd

theorem onward_indentation {count : Nat} (h : isNameChar c = true) (more : List Char) :
    onward line (indentation count ++ c :: more) = spotsFrom line count (c :: more) := by
  have hspaces : ∀ s ∈ spotsFrom line 0 (indentation count), (s.char == ' ') = true := by
    intro s hs
    simp [(mem_spotsFrom_indentation hs).1]
  have hspace : (c == ' ') = false := beq_false_of_ne (ne_of_isNameChar h rfl)
  rw [onward, spotsFrom_indentation, List.dropWhile_append_of_pos hspaces, Nat.zero_add,
    spotsFrom_inline (isInline_of_isNameChar h), List.dropWhile_cons_of_neg (by simp [hspace])]

theorem leads_onward (h : Dedented column rest) (line : Nat) :
    Leads column (spotsFrom line 0 rest) (onward line rest) := by
  rcases h with rfl | ⟨count, c, more, hcount, hc, rfl⟩
  · exact ⟨⟨[], rfl, by simp⟩, .inl rfl⟩
  · rw [onward_indentation hc, spotsFrom_indentation, Nat.zero_add]
    refine ⟨⟨_, rfl, fun s hs => ?_⟩, .inr ⟨_, _, spotsFrom_inline (isInline_of_isNameChar hc) more,
      hcount, hc⟩⟩
    obtain ⟨hchar, hlt⟩ := mem_spotsFrom_indentation hs
    exact ⟨hchar, by omega⟩

theorem length_onward_le (line : Nat) (rest : List Char) :
    (onward line rest).length ≤ spotCount rest := by
  rw [onward, ← length_spotsFrom_eq line 0]
  exact (List.dropWhile_sublist _).length_le

end LedgerClient.Yaml
