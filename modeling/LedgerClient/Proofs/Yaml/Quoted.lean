import LedgerClient.Proofs.Yaml.Plain
import Mathlib.Algebra.Group.Nat.Defs

/-!
# Quoted scalars are read back

Between double quotes each character is written as itself or as an escape, and the reader undoes
the escapes one by one. A text between single quotes is made of stretches that are apart by spaces
only or by line breaks only (`Stretches`); its lines are indented, which the reader passes over.
-/

namespace LedgerClient.Yaml

variable {c : Char} {xs ys word more rest : List Char} {line column col fuel : Nat}
  {margin : Nat} {spots : List Spot}

/-! ## Escapes -/

theorem escapes_of_shortEscapes : ∀ p ∈ shortEscapes, IsInline p.2 ∧ p.2 ≠ 'x' ∧ p.2 ≠ 'u' ∧
    p.2 ≠ 'U' ∧ escapes.lookup p.2 = some p.1 := by decide

theorem isSome_lookup_shortEscapes (hp : isPrintable c = true)
    (hc : isLineBreak c = true ∨ c = '"' ∨ c = '\\') : (shortEscapes.lookup c).isSome = true := by
  rcases hc with hc | rfl | rfl
  · by_cases hn : c = '\n'
    · subst hn
      rfl
    · have hsep := isSeparator_of_isLineBreak hp hc hn
      simp only [isSeparator, Bool.or_eq_true, beq_iff_eq] at hsep
      rcases hsep with hsep | hsep
      · have hchar : c = '\u2028' := by rw [← Char.ofNat_toNat c, hsep]
        subst hchar
        rfl
      · have hchar : c = '\u2029' := by rw [← Char.ofNat_toNat c, hsep]
        subst hchar
        rfl
  · rfl
  · rfl

theorem hexDigit_spec : ∀ d < 16, IsInline (Nat.digitChar d).toUpper ∧
    hexValue? (Nat.digitChar d).toUpper = some d := by decide

theorem isInline_of_mem_hexText {count n : Nat} (h : c ∈ hexText count n) : IsInline c := by
  induction count generalizing n with
  | zero => simp [hexText] at h
  | succ count ih =>
    rw [hexText, List.mem_append, List.mem_singleton] at h
    rcases h with h | rfl
    · exact ih h
    · exact (hexDigit_spec (n % 16) (Nat.mod_lt n (by decide))).1

theorem length_hexText (count n : Nat) : (hexText count n).length = count := by
  induction count generalizing n with
  | zero => rfl
  | succ count ih => rw [hexText, List.length_append, ih, List.length_singleton]

theorem hexNumber?_hexText (line column count further value n : Nat) (more : List Char) :
    hexNumber? (further + count) value (spotsFrom line column (hexText count n ++ more)) =
      hexNumber? further (16 ^ count * value + n % 16 ^ count)
        (spotsFrom line (column + count) more) := by
  induction count generalizing further n more with
  | zero => simp [hexText, Nat.mod_one]
  | succ count ih =>
    obtain ⟨hinline, hvalue⟩ := hexDigit_spec (n % 16) (Nat.mod_lt n (by decide))
    have hnumber : 16 * (16 ^ count * value + n / 16 % 16 ^ count) + n % 16 =
        16 ^ (count + 1) * value + n % 16 ^ (count + 1) := by
      rw [Nat.pow_succ', Nat.mod_mul, Nat.mul_add, Nat.mul_assoc]
      omega
    rw [hexText, List.append_assoc, ← Nat.succ_add_eq_add_succ, ih, List.singleton_append,
      spotsFrom_inline hinline, hexNumber?, hvalue]
    simp only [hnumber, Nat.add_assoc]

theorem escapedBy?_hexText {letter : Char} {count : Nat}
    (hletter : (letter = 'x' ∧ count = 2) ∨ (letter = 'u' ∧ count = 4) ∨ (letter = 'U' ∧ count = 8))
    (hlt : c.toNat < 16 ^ count) (more : List Char) :
    escapedBy? letter (spotsFrom line column (hexText count c.toNat ++ more)) =
      some (c, spotsFrom line (column + count) more) := by
  have hnumber := hexNumber?_hexText line column count 0 0 c.toNat more
  rw [Nat.zero_add, Nat.mul_zero, Nat.zero_add, Nat.mod_eq_of_lt hlt] at hnumber
  have hvalid : c.toNat.isValidChar := c.valid
  rcases hletter with ⟨rfl, rfl⟩ | ⟨rfl, rfl⟩ | ⟨rfl, rfl⟩ <;>
    simp [escapedBy?, hnumber, hexNumber?, hvalid, Char.ofNat_toNat]

theorem escaped_cases (c : Char) :
    (∃ letter, escaped c = ['\\', letter] ∧ (c, letter) ∈ shortEscapes) ∨
    (escaped c = [c] ∧ IsInline c ∧ c ≠ '"' ∧ c ≠ '\\') ∨
    ∃ letter count, escaped c = '\\' :: letter :: hexText count c.toNat ∧ c.toNat < 16 ^ count ∧
      ((letter = 'x' ∧ count = 2) ∨ (letter = 'u' ∧ count = 4) ∨ (letter = 'U' ∧ count = 8)) := by
  rw [escaped]
  cases hletter : shortEscapes.lookup c with
  | some letter =>
    obtain ⟨front, back, hpairs, -⟩ := List.lookup_eq_some_iff.mp hletter
    exact .inl ⟨letter, rfl, by rw [hpairs]; simp⟩
  | none =>
    right
    by_cases hprintable : isPrintable c = true
    · have hplain : ¬ (isLineBreak c = true ∨ c = '"' ∨ c = '\\') := by
        intro hc
        have hsome := isSome_lookup_shortEscapes hprintable hc
        rw [hletter] at hsome
        cases hsome
      simp only [not_or, Bool.not_eq_true] at hplain
      exact .inl ⟨by simp [hprintable], ⟨hprintable, hplain.1⟩, hplain.2⟩
    · right
      simp only [hprintable, Bool.false_eq_true, if_false]
      have hmax : c.toNat < 0x110000 := by
        rcases c.valid with h | h
        · exact Nat.lt_trans h (by decide)
        · exact h.2
      by_cases hbyte : c.toNat ≤ 0xFF
      · exact ⟨'x', 2, by rw [if_pos hbyte], by omega, by simp⟩
      · by_cases hword : c.toNat ≤ 0xFFFF
        · exact ⟨'u', 4, by rw [if_neg hbyte, if_pos hword], by omega, by simp⟩
        · exact ⟨'U', 8, by rw [if_neg hbyte, if_neg hword], by omega, by simp⟩

theorem escaped_space : escaped ' ' = [' '] := rfl

theorem isInline_of_mem_escaped {d : Char} (h : d ∈ escaped c) : IsInline d := by
  have hbackslash : IsInline '\\' := by decide
  rcases escaped_cases c with ⟨letter, heq, hmem⟩ | ⟨heq, hinline, -⟩ | ⟨letter, count, heq, -, hl⟩
  · rw [heq] at h
    simp only [List.mem_cons, List.not_mem_nil, or_false] at h
    rcases h with rfl | rfl
    · exact hbackslash
    · exact (escapes_of_shortEscapes _ hmem).1
  · rw [heq, List.mem_singleton] at h
    rw [h]
    exact hinline
  · rw [heq, List.mem_cons, List.mem_cons] at h
    rcases h with rfl | rfl | h
    · exact hbackslash
    · rcases hl with ⟨rfl, -⟩ | ⟨rfl, -⟩ | ⟨rfl, -⟩ <;> decide
    · exact isInline_of_mem_hexText h

theorem exists_escaped_cons (h : c ≠ ' ') :
    ∃ d ds, escaped c = d :: ds ∧ d ≠ ' ' ∧ IsInline d := by
  have hbackslash : '\\' ≠ ' ' ∧ IsInline '\\' := by decide
  rcases escaped_cases c with ⟨letter, heq, -⟩ | ⟨heq, hinline, -⟩ | ⟨letter, count, heq, -⟩
  · exact ⟨_, _, heq, hbackslash⟩
  · exact ⟨_, _, heq, h, hinline⟩
  · exact ⟨_, _, heq, hbackslash⟩

/-! ## Double-quoted stretches -/

theorem quotedRun?_escaped (h : c ≠ ' ') (more : List Char) :
    quotedRun? true (fuel + 1) (spotsFrom line column (escaped c ++ more)) =
      (quotedRun? true fuel (spotsFrom line (column + (escaped c).length) more)).map
        fun (cs, broken, rest) => (c :: cs, broken, rest) := by
  have hbackslash : IsInline '\\' := by decide
  have hblank : (⟨'\\', line, column⟩ : Spot).isBlank = false := rfl
  rcases escaped_cases c with ⟨letter, heq, hmem⟩ | ⟨heq, hinline, hquote, hslash⟩ |
    ⟨letter, count, heq, hlt, hletter⟩
  · obtain ⟨hinline, hx, hu, hU, hlookup⟩ := escapes_of_shortEscapes _ hmem
    have hby (spots : List Spot) : escapedBy? letter spots = some (c, spots) := by
      rw [escapedBy?, hlookup]
      · rfl
      · exact hx
      · exact hu
      · exact hU
    rw [heq, List.cons_append, List.singleton_append, spotsFrom_inline hbackslash,
      spotsFrom_inline hinline, quotedRun?, hblank]
    simp [Spot.isLineBreak, hinline.2, hby]
  · rw [heq, List.singleton_append, spotsFrom_inline hinline, quotedRun?.eq_def]
    simp [not_isBlank_of_isInline hinline h, hquote, hslash]
  · have hinline : IsInline letter := by
      rcases hletter with ⟨rfl, -⟩ | ⟨rfl, -⟩ | ⟨rfl, -⟩ <;> decide
    have hplace : column + (escaped c).length = column + 1 + 1 + count := by
      rw [heq, List.length_cons, List.length_cons, length_hexText]
      omega
    rw [hplace, heq, List.cons_append, List.cons_append, spotsFrom_inline hbackslash,
      spotsFrom_inline hinline, quotedRun?, hblank]
    simp [Spot.isLineBreak, hinline.2, escapedBy?_hexText hletter hlt]

theorem quotedRun?_nil {double : Bool} {spots : List Spot} (h : ∀ s ∈ spots.head?,
    s.isBlank = true ∨ (double = true ∧ s.char = '"')) :
    quotedRun? double fuel spots = some ([], false, spots) := by
  cases fuel with
  | zero => rfl
  | succ fuel =>
    cases spots with
    | nil => rfl
    | cons s spots =>
      rw [quotedRun?.eq_def]
      rcases h s rfl with hblank | ⟨rfl, hquote⟩
      · simp [hblank]
      · simp [hquote]

theorem quotedRun?_double (line column : Nat) (h : ∀ c ∈ word, c ≠ ' ')
    (hfuel : word.length ≤ fuel)
    (hmore : more.head? = some ' ' ∨ more.head? = some '"') :
    quotedRun? true fuel (spotsFrom line column (word.flatMap escaped ++ more)) =
      some (word, false, spotsFrom line (column + (word.flatMap escaped).length) more) := by
  induction word generalizing column fuel with
  | nil =>
    apply quotedRun?_nil
    rcases hmore with hmore | hmore
    · obtain ⟨more, rfl⟩ := List.head?_eq_some_iff.mp hmore
      rw [List.flatMap_nil, List.nil_append, spotsFrom_inline isInline_space]
      rintro s ⟨⟩
      exact .inl rfl
    · obtain ⟨more, rfl⟩ := List.head?_eq_some_iff.mp hmore
      rw [List.flatMap_nil, List.nil_append, spotsFrom_inline (by decide)]
      rintro s ⟨⟩
      exact .inr ⟨rfl, rfl⟩
  | cons c word ih =>
    obtain ⟨hc, hword⟩ := List.forall_mem_cons.mp h
    obtain ⟨fuel, rfl⟩ := Nat.exists_eq_add_of_lt (Nat.lt_of_lt_of_le (Nat.succ_pos _) hfuel)
    rw [Nat.zero_add, List.flatMap_cons, List.append_assoc, quotedRun?_escaped hc, ih _ hword]
    · simp [Nat.add_assoc]
    · rw [List.length_cons] at hfuel
      omega

theorem flatMap_escaped_indentation (count : Nat) :
    (indentation count).flatMap escaped = indentation count := by
  rw [indentation, List.flatMap_replicate, escaped_space, List.flatten_replicate_singleton]

/-! ## Stretches and gaps -/

theorem quotedRest?_close {double : Bool} {run : List Char} {rest : List Spot} (hne : spots ≠ [])
    (hmarker : Token.marker? spots = none)
    (hrun : quotedRun? double spots.length spots = some (run, false, rest))
    (hquote : startsWith (if double then '"' else '\'') rest = true) :
    quotedRest? double (fuel + 1) spots = some (run, rest.drop 1) := by
  have hnil : spots.isEmpty = false := by simpa using hne
  rw [quotedRest?, hnil, hmarker]
  simp [hrun, hquote]

theorem quotedRest?_gap {double : Bool} {run : List Char} {rest rest' : List Spot} {gap : Gap}
    (hne : spots ≠ []) (hmarker : Token.marker? spots = none)
    (hrun : quotedRun? double spots.length spots = some (run, false, rest))
    (hquote : startsWith (if double then '"' else '\'') rest = false)
    (hgap : Gap.read? 0 false rest = some (gap, rest')) :
    quotedRest? double (fuel + 1) spots = (quotedRest? double fuel rest').map
      fun (more, rest) => (run ++ gap.folded ++ more, rest) := by
  have hnil : spots.isEmpty = false := by simpa using hne
  rw [quotedRest?, hnil, hmarker]
  simp only [Option.isSome_none, Bool.or_self, Bool.false_eq_true, if_false, hrun, hquote, hgap,
    Option.bind_eq_bind, Option.bind_some]
  cases quotedRest? double fuel rest' <;> rfl

/-! ## Double quotes -/

theorem isInline_of_mem_flatMap_escaped (h : c ∈ xs.flatMap escaped) : IsInline c := by
  obtain ⟨d, -, hd⟩ := List.mem_flatMap.mp h
  exact isInline_of_mem_escaped hd

theorem length_le_flatMap_escaped (xs : List Char) : xs.length ≤ (xs.flatMap escaped).length := by
  induction xs with
  | nil => exact Nat.zero_le _
  | cons c xs ih =>
    have hc : 0 < (escaped c).length := by
      rcases escaped_cases c with ⟨letter, heq, -⟩ | ⟨heq, -⟩ | ⟨letter, count, heq, -⟩ <;>
        simp [heq]
    rw [List.flatMap_cons, List.length_append, List.length_cons]
    omega

theorem exists_cons_of_escaped (h : xs.head? ≠ some ' ') (rest : List Char) :
    ∃ d ds, xs.flatMap escaped ++ '"' :: rest = d :: ds ∧ d ≠ ' ' ∧ IsInline d := by
  cases xs with
  | nil => exact ⟨'"', rest, rfl, by decide, by decide⟩
  | cons c xs =>
    have hc : c ≠ ' ' := by simpa using h
    obtain ⟨d, ds, hd, hspace, hinline⟩ := exists_escaped_cons hc
    exact ⟨d, _, by rw [List.flatMap_cons, hd, List.append_assoc, List.cons_append], hspace, hinline⟩

theorem quotedRest?_double (hcolumn : 0 < column) (hfuel : xs.length < fuel) :
    quotedRest? true fuel (spotsFrom line column (xs.flatMap escaped ++ '"' :: rest)) =
      some (xs, spotsFrom line (column + (xs.flatMap escaped).length + 1) rest) := by
  induction fuel generalizing xs column with
  | zero => omega
  | succ fuel ih =>
    obtain ⟨word, count, tail, rfl, hword, htail, hcount⟩ := exists_word xs
    have htext : (word ++ (indentation count ++ tail)).flatMap escaped ++ '"' :: rest =
        word.flatMap escaped ++ (indentation count ++ (tail.flatMap escaped ++ '"' :: rest)) := by
      simp [List.flatMap_append, flatMap_escaped_indentation]
    have hmore : (indentation count ++ (tail.flatMap escaped ++ '"' :: rest)).head? = some ' ' ∨
        (indentation count ++ (tail.flatMap escaped ++ '"' :: rest)).head? = some '"' := by
      cases count with
      | zero => exact .inr (by rw [hcount rfl]; rfl)
      | succ count => exact .inl rfl
    have hlong : word.length + 1 ≤ (spotsFrom line column (word.flatMap escaped ++
        (indentation count ++ (tail.flatMap escaped ++ '"' :: rest)))).length := by
      obtain ⟨d, ds, hd⟩ : ∃ d ds,
          indentation count ++ (tail.flatMap escaped ++ '"' :: rest) = d :: ds :=
        List.exists_cons_of_ne_nil (by simp)
      have hword := length_le_flatMap_escaped word
      have hpositive := spotCount_pos d ds
      rw [length_spotsFrom_eq, spotCount_append fun c hc => (isInline_of_mem_flatMap_escaped hc).1, hd]
      omega
    have hne := List.ne_nil_of_length_pos (Nat.lt_of_lt_of_le (Nat.succ_pos _) hlong)
    have hrun := quotedRun?_double line column hword (Nat.le_of_succ_le hlong) hmore
    rw [htext]
    cases count with
    | zero =>
      obtain rfl := hcount rfl
      simp only [indentation, List.replicate_zero, List.nil_append, List.flatMap_nil] at hne hrun ⊢
      rw [quotedRest?_close hne (marker?_spotsFrom hcolumn _) hrun, spotsFrom_inline (by decide)]
      · simp
      · rw [spotsFrom_inline (by decide)]
        rfl
    | succ count =>
      obtain ⟨d, ds, hd, hspace, hinline⟩ := exists_cons_of_escaped htail rest
      have hgap := Gap.read?_inline 0 line (column + (word.flatMap escaped).length) (count + 1)
        hinline hspace ds
      rw [← hd] at hgap
      have hplace : column + ((word ++ (indentation (count + 1) ++ tail)).flatMap escaped).length =
          column + (word.flatMap escaped).length + (count + 1) + (tail.flatMap escaped).length := by
        rw [List.flatMap_append, List.flatMap_append, flatMap_escaped_indentation,
          List.length_append, List.length_append, indentation, List.length_replicate]
        omega
      rw [quotedRest?_gap hne (marker?_spotsFrom hcolumn _) hrun _ hgap, ih, hplace]
      · simp [Gap.folded]
      · omega
      · simp only [List.length_append, indentation, List.length_replicate] at hfuel
        omega
      · rw [indentation, List.replicate_succ, List.cons_append, spotsFrom_inline isInline_space]
        rfl

/-- A text in double quotes is read back, whatever it holds. -/
theorem quoted?_double (line : Nat) (hcolumn : 0 < column) (xs rest : List Char) :
    quoted? true (spotsFrom line column (xs.flatMap escaped ++ '"' :: rest)) =
      some (.scalar (String.ofList xs) .doubleQuoted,
        spotsFrom line (column + (xs.flatMap escaped).length + 1) rest) := by
  have hfuel : xs.length ≤
      (spotsFrom line column (xs.flatMap escaped ++ '"' :: rest)).length := by
    rw [length_spotsFrom_eq, spotCount_append fun c hc => (isInline_of_mem_flatMap_escaped hc).1]
    exact Nat.le_trans (length_le_flatMap_escaped xs) (Nat.le_add_right _ _)
  rw [quoted?, quotedRest?_double hcolumn (Nat.lt_succ_of_le hfuel)]
  rfl

/-! ## Lines -/

theorem indentedLines_inline (col : Nat) (atStart : Bool) (h : ∀ c ∈ xs, isLineBreak c = false)
    (hne : xs ≠ []) (ys : List Char) : indentedLines col atStart (xs ++ ys) =
      (if atStart then indentation col else []) ++ (xs ++ indentedLines col false ys) := by
  induction xs generalizing atStart with
  | nil => exact absurd rfl hne
  | cons c xs ih =>
    obtain ⟨hc, hxs⟩ := List.forall_mem_cons.mp h
    rw [List.cons_append, indentedLines, if_neg (by simp [hc])]
    cases xs with
    | nil => rfl
    | cons d xs => rw [ih _ hxs (by simp)]; rfl

theorem indentedLines_breaks (col : Nat) (atStart : Bool) (h : ∀ c ∈ xs, isLineBreak c = true)
    (hne : xs ≠ []) (ys : List Char) :
    indentedLines col atStart (xs ++ ys) = xs ++ indentedLines col true ys := by
  induction xs generalizing atStart with
  | nil => exact absurd rfl hne
  | cons c xs ih =>
    obtain ⟨hc, hxs⟩ := List.forall_mem_cons.mp h
    rw [List.cons_append, indentedLines, if_pos hc]
    cases xs with
    | nil => rfl
    | cons d xs => rw [ih _ hxs (by simp)]; rfl

theorem mem_indentedLines {atStart : Bool} (h : c ∈ indentedLines col atStart xs) :
    c = ' ' ∨ c ∈ xs := by
  fun_induction indentedLines col atStart xs with
  | case1 => cases h
  | case2 _ d xs _ ih =>
    rcases List.mem_cons.mp h with rfl | h
    · exact .inr List.mem_cons_self
    · exact (ih h).imp_right (List.mem_cons_of_mem d)
  | case3 atStart d xs _ ih =>
    rcases List.mem_append.mp h with h | h
    · have hspace : c ∈ indentation col := by
        split at h
        · exact h
        · cases h
      exact .inl (List.eq_of_mem_replicate hspace)
    · rcases List.mem_cons.mp h with rfl | h
      · exact .inr List.mem_cons_self
      · exact (ih h).imp_right (List.mem_cons_of_mem d)

theorem isPrintable_indentedLines (h : ∀ c ∈ xs, isPrintable c = true) (col : Nat) (atStart : Bool) :
    ∀ c ∈ indentedLines col atStart xs, isPrintable c = true := by
  intro c hc
  rcases mem_indentedLines hc with rfl | hc
  · rfl
  · exact h c hc

theorem length_le_indentedLines (col : Nat) (atStart : Bool) (xs : List Char) :
    xs.length ≤ (indentedLines col atStart xs).length := by
  fun_induction indentedLines col atStart xs with
  | case1 => exact Nat.le_refl 0
  | case2 _ c xs _ ih => exact Nat.succ_le_succ ih
  | case3 atStart c xs _ ih =>
    rw [List.length_append, List.length_cons, List.length_cons]
    omega

/-! ## Stretches between blanks -/

/-- A text without blanks. -/
def IsWord (xs : List Char) : Prop := ∀ c ∈ xs, IsInline c ∧ c ≠ ' '

theorem isWord_nil : IsWord [] := List.forall_mem_nil _

/-- Blanks that are read back between single quotes: spaces only or separators only. -/
def IsGap (xs : List Char) : Prop :=
  xs ≠ [] ∧ ((∀ c ∈ xs, c = ' ') ∨ ∀ c ∈ xs, isSeparator c = true)

/-- A text of words with gaps between them. -/
inductive Stretches : List Char → Prop
  | last {word : List Char} (hword : IsWord word) : Stretches word
  | gap {word blanks tail : List Char} (hword : IsWord word) (hblanks : IsGap blanks)
    (hhead : ∀ c ∈ tail.head?, IsInline c ∧ c ≠ ' ') (htail : Stretches tail) :
    Stretches (word ++ (blanks ++ tail))

theorem isLineBreak_of_isSeparator (h : isSeparator c = true) : isLineBreak c = true := by
  simp [isLineBreak, h]

theorem blank_cases (h : isPrintable c = true) (hn : c ≠ '\n') :
    (IsInline c ∧ c ≠ ' ') ∨ c = ' ' ∨ isSeparator c = true := by
  by_cases hspace : c = ' '
  · exact .inr (.inl hspace)
  · by_cases hbreak : isLineBreak c = true
    · exact .inr (.inr (isSeparator_of_isLineBreak h hbreak hn))
    · exact .inl ⟨⟨h, by simpa using hbreak⟩, hspace⟩

theorem IsGap.singleton (h : c = ' ' ∨ isSeparator c = true) : IsGap [c] :=
  ⟨by simp, by simpa using h⟩

theorem IsGap.cons {d : Char} {blanks : List Char} (h : IsGap (d :: blanks))
    (hc : c = ' ' ∧ isSeparator d = false ∨ isSeparator c = true ∧ d ≠ ' ') :
    IsGap (c :: d :: blanks) := by
  refine ⟨by simp, ?_⟩
  rcases h.2 with hall | hall
  · rcases hc with ⟨rfl, -⟩ | ⟨-, hd⟩
    · exact .inl (List.forall_mem_cons.mpr ⟨rfl, hall⟩)
    · exact absurd (hall d List.mem_cons_self) hd
  · rcases hc with ⟨-, hd⟩ | ⟨hc, -⟩
    · simp [hall d List.mem_cons_self] at hd
    · exact .inr (List.forall_mem_cons.mpr ⟨hc, hall⟩)

theorem Stretches.cons (h : Stretches xs) (hprintable : isPrintable c = true) (hn : c ≠ '\n')
    (hbefore : c = ' ' → ∀ d ∈ xs.head?, isLineBreak d = false)
    (hbehind : isLineBreak c = true → xs.head? ≠ some ' ') : Stretches (c :: xs) := by
  rcases blank_cases hprintable hn with hc | hc
  · cases h with
    | last hword => exact .last (List.forall_mem_cons.mpr ⟨hc, hword⟩)
    | gap hword hblanks hhead htail =>
      exact .gap (List.forall_mem_cons.mpr ⟨hc, hword⟩) hblanks hhead htail
  · by_cases hhead : ∀ d ∈ xs.head?, IsInline d ∧ d ≠ ' '
    · exact .gap isWord_nil (.singleton hc) hhead h
    · -- the blank belongs to the gap that the text begins with
      cases h with
      | last hword =>
        cases xs with
        | nil => simp at hhead
        | cons d xs => exact absurd (by simpa using hword d List.mem_cons_self) hhead
      | @gap word blanks tail hword hblanks hstart htail =>
        cases word with
        | cons d word => exact absurd (by simpa using hword d List.mem_cons_self) hhead
        | nil =>
          obtain ⟨d, blanks, rfl⟩ := List.exists_cons_of_ne_nil hblanks.1
          refine .gap isWord_nil (hblanks.cons ?_) hstart htail
          rcases hc with hc | hc
          · have hd := hbefore hc d rfl
            refine .inl ⟨hc, ?_⟩
            by_contra hsep
            rw [isLineBreak_of_isSeparator (by simpa using hsep)] at hd
            cases hd
          · exact .inr ⟨hc, fun hd => hbehind (isLineBreak_of_isSeparator hc) (by simp [hd])⟩

theorem stretches_of_neighbours (h : ∀ c ∈ xs, isPrintable c = true ∧ c ≠ '\n')
    (hbefore : anyNeighbours (fun a b => a == ' ' && isLineBreak b) xs = false)
    (hbehind : anyNeighbours (fun a b => isLineBreak a && b == ' ') xs = false) :
    Stretches xs := by
  induction xs with
  | nil => exact .last (by simp [IsWord])
  | cons c xs ih =>
    obtain ⟨⟨hprintable, hn⟩, hxs⟩ := List.forall_mem_cons.mp h
    cases xs with
    | nil => exact (Stretches.last (by simp [IsWord])).cons hprintable hn (by simp) (by simp)
    | cons d xs =>
      simp only [anyNeighbours, Bool.or_eq_false_iff] at hbefore hbehind
      refine (ih hxs hbefore.2 hbehind.2).cons hprintable hn ?_ ?_
      · rintro rfl
        simpa using hbefore.1
      · intro hbreak
        simpa [hbreak] using hbehind.1

/-! ## Single quotes -/

/-- What stands between single quotes: every quote is written twice. -/
def doubled (xs : List Char) : List Char := xs.flatMap fun c => if c = '\'' then [c, c] else [c]

/-- What is written behind the opening quote. -/
def quotedBody (column : Nat) (xs rest : List Char) : List Char :=
  indentedLines column false (doubled xs) ++
    ((if xs.getLast?.any isLineBreak then indentation column else []) ++ '\'' :: rest)

theorem singleQuotes_append (column : Nat) (xs rest : List Char) :
    singleQuotes column xs ++ rest = '\'' :: quotedBody column xs rest := by
  simp [singleQuotes, quotedBody, doubled]

theorem mem_doubled : c ∈ doubled xs ↔ c ∈ xs := by
  simp only [doubled, List.mem_flatMap]
  constructor
  · rintro ⟨d, hd, hc⟩
    split at hc <;> simp_all
  · intro hc
    exact ⟨c, hc, by split <;> simp⟩

theorem doubled_append (xs ys : List Char) : doubled (xs ++ ys) = doubled xs ++ doubled ys :=
  List.flatMap_append

theorem doubled_of_forall (h : ∀ c ∈ xs, c ≠ '\'') : doubled xs = xs := by
  rw [doubled, List.flatMap_congr (g := fun c => [c]), List.flatMap_singleton']
  intro c hc
  rw [if_neg (h c hc)]

theorem IsWord.indentedLines (h : IsWord word) (col : Nat) (ys : List Char) :
    indentedLines col false (doubled word ++ ys) = doubled word ++ indentedLines col false ys := by
  by_cases hne : doubled word = []
  · rw [hne]
    rfl
  · rw [indentedLines_inline col false (fun c hc => (h c (mem_doubled.mp hc)).1.2) hne]
    rfl

theorem quotedBody_word (h : IsWord word) :
    quotedBody col word rest = doubled word ++ '\'' :: rest := by
  have hlast : word.getLast?.any isLineBreak = false := by
    cases hlast : word.getLast? with
    | none => rfl
    | some c => exact (h c (List.mem_of_getLast? hlast)).1.2
  have hlines := h.indentedLines col []
  rw [List.append_nil] at hlines
  rw [quotedBody, hlines, hlast]
  simp [Yaml.indentedLines]

theorem exists_getLast? (h : xs ≠ []) : ∃ c, xs.getLast? = some c :=
  ⟨_, List.getLast?_eq_some_getLast h⟩

theorem ne_quote_of_isSeparator (h : isSeparator c = true) : c ≠ '\'' := by
  rintro rfl
  cases h

theorem quotedBody_spaces {blanks tail : List Char} (hword : IsWord word)
    (hne : blanks ≠ []) (h : ∀ c ∈ blanks, c = ' ') :
    quotedBody col (word ++ (blanks ++ tail)) rest =
      doubled word ++ (blanks ++ quotedBody col tail rest) := by
  have hquotes : doubled blanks = blanks := doubled_of_forall fun c hc => by rw [h c hc]; decide
  have hbreaks : ∀ c ∈ blanks, isLineBreak c = false := fun c hc => by rw [h c hc]; rfl
  have hlast : (word ++ (blanks ++ tail)).getLast?.any isLineBreak =
      tail.getLast?.any isLineBreak := by
    cases htail : tail.getLast? with
    | some c => simp [List.getLast?_append, htail]
    | none =>
      obtain ⟨c, hc⟩ := exists_getLast? hne
      simp [List.getLast?_append, htail, hc, hbreaks c (List.mem_of_getLast? hc)]
  rw [quotedBody, hlast, doubled_append, doubled_append, hquotes, hword.indentedLines,
    indentedLines_inline col false hbreaks hne, quotedBody]
  simp

theorem quotedBody_breaks {blanks tail : List Char} (hword : IsWord word)
    (hne : blanks ≠ []) (h : ∀ c ∈ blanks, isSeparator c = true)
    (htail : ∀ c ∈ tail.head?, IsInline c ∧ c ≠ ' ') :
    quotedBody col (word ++ (blanks ++ tail)) rest =
      doubled word ++ (blanks ++ (indentation col ++ quotedBody col tail rest)) := by
  have hquotes : doubled blanks = blanks :=
    doubled_of_forall fun c hc => ne_quote_of_isSeparator (h c hc)
  have hbreaks : ∀ c ∈ blanks, isLineBreak c = true :=
    fun c hc => isLineBreak_of_isSeparator (h c hc)
  rw [quotedBody, doubled_append, doubled_append, hquotes, hword.indentedLines,
    indentedLines_breaks col false hbreaks hne, quotedBody]
  cases tail with
  | nil =>
    -- the closing quote has a line of its own
    obtain ⟨c, hc⟩ := exists_getLast? hne
    simp [List.getLast?_append, hc, hbreaks c (List.mem_of_getLast? hc), doubled, indentedLines]
  | cons c tail =>
    have hc : isLineBreak c = false := (htail c rfl).1.2
    have hlast : (word ++ (blanks ++ c :: tail)).getLast? = (c :: tail).getLast? := by
      rw [← List.append_assoc, List.getLast?_append_of_ne_nil _ (List.cons_ne_nil c tail)]
    have hlines (atStart : Bool) : indentedLines col atStart (doubled (c :: tail)) =
        (if atStart then indentation col else []) ++ indentedLines col false (doubled (c :: tail)) := by
      by_cases hquote : c = '\'' <;>
        simp [doubled, hquote, indentedLines, hc, show isLineBreak '\'' = false from rfl]
    rw [hlast, hlines true]
    simp

/-! ## Reading between single quotes -/

theorem quotedRun?_single (line column : Nat) (h : IsWord word) (hfuel : word.length ≤ fuel)
    (hmore : ∀ fuel line column, quotedRun? false fuel (spotsFrom line column more) =
      some ([], false, spotsFrom line column more)) :
    quotedRun? false fuel (spotsFrom line column (doubled word ++ more)) =
      some (word, false, spotsFrom line (column + (doubled word).length) more) := by
  induction word generalizing column fuel with
  | nil => exact hmore fuel line column
  | cons c word ih =>
    obtain ⟨⟨hc, hspace⟩, hword⟩ := List.forall_mem_cons.mp h
    cases fuel with
    | zero => cases hfuel
    | succ fuel =>
      have hrest (column : Nat) := ih column hword (Nat.le_of_succ_le_succ hfuel)
      by_cases hquote : c = '\''
      · subst hquote
        have htext : doubled ('\'' :: word) = '\'' :: '\'' :: doubled word := rfl
        have hblank : (⟨'\'', line, column⟩ : Spot).isBlank = false := rfl
        rw [htext, List.cons_append, List.cons_append, spotsFrom_inline hc, spotsFrom_inline hc,
          quotedRun?.eq_def]
        simp [startsWith, hblank, hrest, Nat.add_assoc, Nat.add_comm 2]
      · have htext : doubled (c :: word) = c :: doubled word := by simp [doubled, hquote]
        rw [htext, List.cons_append, spotsFrom_inline hc, quotedRun?.eq_def]
        simp [not_isBlank_of_isInline hc hspace, hquote, hrest,
          Nat.add_assoc, Nat.add_comm 1]

theorem Gap.read?_breaks {blanks : List Char} {count : Nat}
    (h : ∀ c ∈ blanks, isSeparator c = true ∧ isPrintable c = true)
    (hmore : ∀ s ∈ (spotsFrom (line + blanks.length) count more).head?, s.isBlank = false) :
    Gap.read? margin true (spotsFrom line 0 (blanks ++ (indentation count ++ more))) =
      some (⟨[], blanks⟩, spotsFrom (line + blanks.length) count more) := by
  induction blanks generalizing line with
  | nil =>
    rw [List.nil_append, spotsFrom_indentation, Nat.zero_add, Gap.read?_indentation]
    · exact Gap.read?_of_not_isBlank hmore
    · exact fun s hs => (mem_spotsFrom_indentation hs).1
  | cons c blanks ih =>
    obtain ⟨⟨hc, hprintable⟩, hblanks⟩ := List.forall_mem_cons.mp h
    have hbreak : (⟨c, line, 0⟩ : Spot).isLineBreak = true := isLineBreak_of_isSeparator hc
    rw [List.length_cons, Nat.add_comm blanks.length, ← Nat.add_assoc] at hmore ⊢
    rw [List.cons_append, spotsFrom_break hprintable (isLineBreak_of_isSeparator hc), Gap.read?,
      if_pos hbreak, ih hblanks hmore]
    rfl

theorem quotedRun?_closing (rest : List Char) (fuel line column : Nat) :
    quotedRun? false fuel (spotsFrom line column ('\'' :: '\n' :: rest)) =
      some ([], false, spotsFrom line column ('\'' :: '\n' :: rest)) := by
  cases fuel with
  | zero => rfl
  | succ fuel =>
    have hblank : (⟨'\'', line, column⟩ : Spot).isBlank = false := rfl
    rw [spotsFrom_inline (by decide), spotsFrom_newline, quotedRun?.eq_def]
    simp [hblank, startsWith]

theorem length_le_doubled (xs : List Char) : xs.length ≤ (doubled xs).length := by
  induction xs with
  | nil => exact Nat.zero_le _
  | cons c xs ih =>
    rw [doubled, List.flatMap_cons, ← doubled, List.length_append, List.length_cons]
    split <;> simp only [List.length_cons, List.length_nil] <;> omega

theorem IsWord.length_lt (h : IsWord word) (line column : Nat) (hne : more ≠ []) :
    word.length < (spotsFrom line column (doubled word ++ more)).length := by
  obtain ⟨c, more, rfl⟩ := List.exists_cons_of_ne_nil hne
  have hlong := length_le_doubled word
  have hpos := spotCount_pos c more
  rw [length_spotsFrom_eq, spotCount_append fun c hc => (h c (mem_doubled.mp hc)).1.1]
  omega

theorem exists_cons_of_quotedBody {tail : List Char} (h : ∀ c ∈ tail.head?, IsInline c ∧ c ≠ ' ')
    (col : Nat) (rest : List Char) :
    ∃ d ds, quotedBody col tail rest = d :: ds ∧ IsInline d ∧ d ≠ ' ' := by
  cases tail with
  | nil => exact ⟨'\'', rest, rfl, by decide, by decide⟩
  | cons c tail =>
    obtain ⟨hc, hspace⟩ := h c rfl
    have hlines : ∃ ds, indentedLines col false (doubled (c :: tail)) = c :: ds := by
      by_cases hquote : c = '\'' <;>
        simp [doubled, hquote, indentedLines, hc.2, show isLineBreak '\'' = false from rfl]
    obtain ⟨ds, hds⟩ := hlines
    exact ⟨c, _, by rw [quotedBody, hds, List.cons_append], hc, hspace⟩

theorem IsGap.isBlank {blanks : List Char} (h : IsGap blanks)
    (hprintable : ∀ c ∈ blanks, isPrintable c = true) (more : List Char) (line column : Nat) :
    ∀ s ∈ (spotsFrom line column (blanks ++ more)).head?, s.isBlank = true ∧ s.char ≠ '\'' := by
  obtain ⟨c, blanks, rfl⟩ := List.exists_cons_of_ne_nil h.1
  rcases h.2 with hall | hall
  · rw [hall c List.mem_cons_self, List.cons_append, spotsFrom_inline isInline_space]
    rintro s ⟨⟩
    exact ⟨rfl, show ' ' ≠ '\'' by decide⟩
  · have hc := hall c List.mem_cons_self
    rw [List.cons_append, spotsFrom_break (hprintable c List.mem_cons_self)
      (isLineBreak_of_isSeparator hc)]
    rintro s ⟨⟩
    refine ⟨?_, ne_quote_of_isSeparator hc⟩
    simp [Spot.isBlank, Spot.isLineBreak, isLineBreak_of_isSeparator hc]

theorem IsGap.read? {blanks tail : List Char} (h : IsGap blanks) (hword : IsWord word)
    (hprintable : ∀ c ∈ blanks, isPrintable c = true)
    (htail : ∀ c ∈ tail.head?, IsInline c ∧ c ≠ ' ') (hcol : 0 < col) (rest : List Char) :
    ∃ more, quotedBody col (word ++ (blanks ++ tail)) rest = doubled word ++ (blanks ++ more) ∧
      ∀ line column, ∃ gap line' column', Gap.folded gap = blanks ∧ 0 < column' ∧
        Gap.read? 0 false (spotsFrom line column (blanks ++ more)) =
          some (gap, spotsFrom line' column' (quotedBody col tail rest)) := by
  obtain ⟨d, ds, hbody, hinline, hspace⟩ := exists_cons_of_quotedBody htail col rest
  have hstart (line column : Nat) :
      ∀ s ∈ (spotsFrom line column (quotedBody col tail rest)).head?, s.isBlank = false := by
    rw [hbody, spotsFrom_inline hinline]
    rintro s ⟨⟩
    exact not_isBlank_of_isInline hinline hspace
  rcases h.2 with hall | hall
  · refine ⟨_, quotedBody_spaces hword h.1 hall, fun line column => ?_⟩
    have hpos := List.length_pos_iff.mpr h.1
    have hspaces : blanks = indentation blanks.length := List.eq_replicate_of_mem hall
    refine ⟨⟨blanks, []⟩, line, column + blanks.length, rfl, by omega, ?_⟩
    rw [hspaces, spotsFrom_indentation, indentation, List.length_replicate]
    exact Gap.read?_spaces _ (hstart _ _)
  · refine ⟨_, quotedBody_breaks hword h.1 hall htail, fun line column => ?_⟩
    obtain ⟨c, blanks, rfl⟩ := List.exists_cons_of_ne_nil h.1
    obtain ⟨hc, hblanks⟩ := List.forall_mem_cons.mp hall
    obtain ⟨hcprintable, hblanksPrintable⟩ := List.forall_mem_cons.mp hprintable
    have hbreak : (⟨c, line, column⟩ : Spot).isLineBreak = true := isLineBreak_of_isSeparator hc
    have hfolded : Gap.folded ⟨[], c :: blanks⟩ = c :: blanks := by
      unfold Gap.folded
      split
      · rename_i heq
        cases heq
      · rename_i heq
        cases heq
        cases hc
      · rename_i heq
        cases heq
        cases hc
      · rfl
    refine ⟨⟨[], c :: blanks⟩, line + 1 + blanks.length, col, hfolded, hcol, ?_⟩
    rw [List.cons_append, spotsFrom_break hcprintable (isLineBreak_of_isSeparator hc), Gap.read?,
      if_pos hbreak,
      Gap.read?_breaks (fun c hc => ⟨hblanks c hc, hblanksPrintable c hc⟩) (hstart _ _)]
    rfl

theorem quotedRest?_single (h : Stretches xs) (hprintable : ∀ c ∈ xs, isPrintable c = true)
    (hcol : 0 < col) (hcolumn : 0 < column) (hfuel : xs.length < fuel) : ∃ line' column',
    quotedRest? false fuel (spotsFrom line column (quotedBody col xs ('\n' :: rest))) =
      some (xs, spotsFrom line' column' ('\n' :: rest)) := by
  induction h generalizing line column fuel with
  | @last word hword =>
    obtain ⟨fuel, rfl⟩ := Nat.exists_eq_add_of_lt (Nat.zero_lt_of_lt hfuel)
    have hlong := hword.length_lt line column (List.cons_ne_nil '\'' ('\n' :: rest))
    have hrun := quotedRun?_single line column hword (Nat.le_of_lt hlong)
      (quotedRun?_closing rest)
    refine ⟨line, column + (doubled word).length + 1, ?_⟩
    rw [quotedBody_word hword, quotedRest?_close (List.ne_nil_of_length_pos (Nat.zero_lt_of_lt hlong))
      (marker?_spotsFrom hcolumn _) hrun, spotsFrom_inline (by decide)]
    · rfl
    · rw [spotsFrom_inline (by decide)]
      rfl
  | @gap word blanks tail hword hblanks hhead htail ih =>
    obtain ⟨fuel, rfl⟩ := Nat.exists_eq_add_of_lt (Nat.zero_lt_of_lt hfuel)
    have hfuel' : tail.length < 0 + fuel := by
      have hpos := List.length_pos_iff.mpr hblanks.1
      simp only [List.length_append] at hfuel
      omega
    obtain ⟨hwordPrintable, hrest⟩ := List.forall_mem_append.mp hprintable
    obtain ⟨hblanksPrintable, htailPrintable⟩ := List.forall_mem_append.mp hrest
    obtain ⟨more, hbody, hread⟩ := hblanks.read? hword hblanksPrintable hhead hcol ('\n' :: rest)
    obtain ⟨gap, line₁, column₁, hfolded, hcolumn₁, hgap⟩ :=
      hread line (column + (doubled word).length)
    obtain ⟨line₂, column₂, htailRest⟩ := ih htailPrintable hcolumn₁ hfuel'
    have hblank := hblanks.isBlank hblanksPrintable more
    have hlong := hword.length_lt line column (List.append_ne_nil_of_left_ne_nil hblanks.1 more)
    have hrun := quotedRun?_single line column hword (Nat.le_of_lt hlong)
      fun fuel line column => quotedRun?_nil fun s hs => .inl (hblank line column s hs).1
    have hopen : startsWith '\'' (spotsFrom line (column + (doubled word).length) (blanks ++ more)) =
        false := by
      cases hspots : spotsFrom line (column + (doubled word).length) (blanks ++ more) with
      | nil => rfl
      | cons s spots => exact beq_false_of_ne (hblank _ _ s (by rw [hspots]; rfl)).2
    refine ⟨line₂, column₂, ?_⟩
    rw [hbody, quotedRest?_gap (List.ne_nil_of_length_pos (Nat.zero_lt_of_lt hlong))
      (marker?_spotsFrom hcolumn _) hrun hopen hgap, htailRest, hfolded]
    simp

/-- A text that may stand between single quotes is read back as it is. -/
theorem quoted?_single (line : Nat) (rest : List Char) (h : Stretches xs)
    (hprintable : ∀ c ∈ xs, isPrintable c = true) (hcol : 0 < col) (hcolumn : 0 < column) :
    ∃ line' column', quoted? false (spotsFrom line column (quotedBody col xs ('\n' :: rest))) =
      some (.scalar (String.ofList xs) .singleQuoted, spotsFrom line' column' ('\n' :: rest)) := by
  have hfuel : xs.length ≤
      (spotsFrom line column (quotedBody col xs ('\n' :: rest))).length := by
    have hdoubled : ∀ c ∈ doubled xs, isPrintable c = true :=
      fun c hc => hprintable c (mem_doubled.mp hc)
    rw [length_spotsFrom_eq, quotedBody,
      spotCount_append (isPrintable_indentedLines hdoubled col false)]
    calc xs.length ≤ (doubled xs).length := length_le_doubled xs
      _ ≤ (indentedLines col false (doubled xs)).length := length_le_indentedLines ..
      _ ≤ _ := Nat.le_add_right _ _
  obtain ⟨line', column', hread⟩ :=
    quotedRest?_single h hprintable hcol hcolumn (Nat.lt_succ_of_le hfuel)
  refine ⟨line', column', ?_⟩
  rw [quoted?, hread]
  rfl

end LedgerClient.Yaml
