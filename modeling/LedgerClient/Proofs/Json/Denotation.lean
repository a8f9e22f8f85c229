import LedgerClient.Proofs.Json.Completeness

/-!
# What strings stand for

`Denotes cs s rest` says which string the rest of a quoted one stands for, apart from how it is read:
a backslash and a letter, or four hex digits, stand for one character, and two surrogates for one
together. Not every string of the grammar stands for one, because surrogates may stand alone in it.
`readText` reads just the strings that do (`readText_eq_ok_iff`).
-/

namespace LedgerClient.Json

/-- The number written in four hex digits. -/
def hexNumber? (a b c d : Char) : Option Nat :=
  match hexValue? a, hexValue? b, hexValue? c, hexValue? d with
  | some w, some x, some y, some z => some (((w * 16 + x) * 16 + y) * 16 + z)
  | _, _, _, _ => none

def IsHighSurrogate (n : Nat) : Prop := 0xD800 ≤ n ∧ n ≤ 0xDBFF

def IsLowSurrogate (n : Nat) : Prop := 0xDC00 ≤ n ∧ n ≤ 0xDFFF

/-- The string that a quoted one stands for, from behind its opening quote on. -/
inductive Denotes : List Char → List Char → List Char → Prop
  | close {rest : List Char} : Denotes ('"' :: rest) [] rest
  | plain {c : Char} {cs s rest : List Char} :
      c ≠ '"' → c ≠ '\\' → 0x20 ≤ c.toNat → Denotes cs s rest → Denotes (c :: cs) (c :: s) rest
  | letter {c e : Char} {cs s rest : List Char} :
      escaped? c = some e → Denotes cs s rest → Denotes ('\\' :: c :: cs) (e :: s) rest
  | unit {a b c d : Char} {n : Nat} {cs s rest : List Char} :
      hexNumber? a b c d = some n → ¬ IsHighSurrogate n → ¬ IsLowSurrogate n →
      Denotes cs s rest → Denotes ('\\' :: 'u' :: a :: b :: c :: d :: cs) (Char.ofNat n :: s) rest
  | pair {a b c d a' b' c' d' : Char} {n m : Nat} {cs s rest : List Char} :
      hexNumber? a b c d = some n → IsHighSurrogate n →
      hexNumber? a' b' c' d' = some m → IsLowSurrogate m → Denotes cs s rest →
      Denotes ('\\' :: 'u' :: a :: b :: c :: d :: '\\' :: 'u' :: a' :: b' :: c' :: d' :: cs)
        (Char.ofNat (0x10000 + (n - 0xD800) * 0x400 + (m - 0xDC00)) :: s) rest

variable {cs s rest : List Char}

theorem Denotes.cut (h : Denotes cs s rest) :
    ∃ used, cs = used ++ rest ∧ ∀ rest', Denotes (used ++ rest') s rest' := by
  induction h with
  | close => exact ⟨['"'], rfl, fun _ => .close⟩
  | @plain c _ _ _ hquote hslash hcontrol _ ih =>
    obtain ⟨used, rfl, hused⟩ := ih
    exact ⟨c :: used, rfl, fun rest' => .plain hquote hslash hcontrol (hused rest')⟩
  | @letter c _ _ _ _ he _ ih =>
    obtain ⟨used, rfl, hused⟩ := ih
    exact ⟨'\\' :: c :: used, rfl, fun rest' => .letter he (hused rest')⟩
  | @unit a b c d _ _ _ _ hn hhigh hlow _ ih =>
    obtain ⟨used, rfl, hused⟩ := ih
    exact ⟨'\\' :: 'u' :: a :: b :: c :: d :: used, rfl, fun rest' =>
      .unit hn hhigh hlow (hused rest')⟩
  | @pair a b c d a' b' c' d' _ _ _ _ _ hn hhigh hm hlow _ ih =>
    obtain ⟨used, rfl, hused⟩ := ih
    exact ⟨'\\' :: 'u' :: a :: b :: c :: d :: '\\' :: 'u' :: a' :: b' :: c' :: d' :: used, rfl,
      fun rest' => .pair hn hhigh hm hlow (hused rest')⟩

/-! ## Escapes -/

theorem digits_of_hexNumber? {a b c d : Char} {n : Nat} (h : hexNumber? a b c d = some n) :
    ∃ w x y z, hexValue? a = some w ∧ hexValue? b = some x ∧ hexValue? c = some y ∧
      hexValue? d = some z ∧ n = ((w * 16 + x) * 16 + y) * 16 + z := by
  unfold hexNumber? at h
  split at h
  · rename_i w x y z ha hb hc hd
    exact ⟨w, x, y, z, ha, hb, hc, hd, (Option.some.inj h).symm⟩
  · simp at h

theorem hexEscape_eq_ok_iff {n : Nat} :
    hexEscape cs = .ok (n, rest) ↔
      ∃ a b c d, cs = a :: b :: c :: d :: rest ∧ hexNumber? a b c d = some n := by
  constructor
  · intro h
    unfold hexEscape at h
    split at h
    · simp [fail] at h
    · split at h
      · rename_i a b c d more hlen
        split at h
        · rename_i ha hb hc hd
          obtain ⟨rfl, rfl⟩ := Prod.mk.inj (Except.ok.inj h)
          exact ⟨a, b, c, d, rfl, by simp only [hexNumber?, ha, hb, hc, hd]⟩
        · simp at h
      · simp at h
  · rintro ⟨a, b, c, d, rfl, hn⟩
    have hlen : ¬ Text.byteLength (a :: b :: c :: d :: rest) < 4 := by
      have := length_le_byteLength (a :: b :: c :: d :: rest)
      simp only [List.length_cons] at this
      omega
    rw [hexEscape, if_neg hlen]
    obtain ⟨w, x, y, z, ha, hb, hc, hd, rfl⟩ := digits_of_hexNumber? hn
    simp only [ha, hb, hc, hd]

theorem denotes_of_unicodeEscape {e : Char} {behind : List Char}
    (h : unicodeEscape cs = .ok (e, behind)) (hd : Denotes behind s rest) :
    Denotes ('\\' :: 'u' :: cs) (e :: s) rest := by
  unfold unicodeEscape at h
  split at h
  · simp at h
  · rename_i n after hn
    obtain ⟨a, b, c, d, rfl, hhex⟩ := hexEscape_eq_ok_iff.mp hn
    split at h
    · simp [fail] at h
    · rename_i hlone
      split at h
      · rename_i hplain
        obtain ⟨rfl, rfl⟩ := Prod.mk.inj (Except.ok.inj h)
        refine .unit hhex ?_ hlone hd
        unfold IsHighSurrogate
        omega
      · rename_i hhigh
        split at h
        · simp [fail] at h
        · simp [fail] at h
        · split at h
          · simp at h
          · rename_i m low hm
            obtain ⟨a', b', c', d', rfl, hhex'⟩ := hexEscape_eq_ok_iff.mp hm
            split at h
            · simp [fail] at h
            · rename_i hlow
              obtain ⟨rfl, rfl⟩ := Prod.mk.inj (Except.ok.inj h)
              refine .pair hhex ?_ hhex' ?_ hd
              · unfold IsHighSurrogate
                omega
              · unfold IsLowSurrogate
                omega
        · simp [failNext] at h
        · simp [failNext] at h

theorem denotes_of_escape {e : Char} {behind : List Char} (h : escape cs = .ok (e, behind))
    (hd : Denotes behind s rest) : Denotes ('\\' :: cs) (e :: s) rest := by
  unfold escape at h
  split at h
  · simp [fail] at h
  · exact denotes_of_unicodeEscape h hd
  · split at h
    · rename_i he
      obtain ⟨rfl, rfl⟩ := Prod.mk.inj (Except.ok.inj h)
      exact .letter he hd
    · simp [failNext] at h

theorem unicodeEscape_of_unit {a b c d : Char} {n : Nat} (hn : hexNumber? a b c d = some n)
    (hhigh : ¬ IsHighSurrogate n) (hlow : ¬ IsLowSurrogate n) :
    unicodeEscape (a :: b :: c :: d :: cs) = .ok (Char.ofNat n, cs) := by
  have hlone : ¬ (0xDC00 ≤ n ∧ n ≤ 0xDFFF) := hlow
  have hplain : n < 0xD800 ∨ 0xDFFF < n := by
    unfold IsHighSurrogate at hhigh
    omega
  rw [unicodeEscape, hexEscape_eq_ok_iff.mpr ⟨a, b, c, d, rfl, hn⟩]
  simp only [if_neg hlone, if_pos hplain]

theorem unicodeEscape_of_pair {a b c d a' b' c' d' : Char} {n m : Nat}
    (hn : hexNumber? a b c d = some n) (hhigh : IsHighSurrogate n)
    (hm : hexNumber? a' b' c' d' = some m) (hlow : IsLowSurrogate m) :
    unicodeEscape (a :: b :: c :: d :: '\\' :: 'u' :: a' :: b' :: c' :: d' :: cs) =
      .ok (Char.ofNat (0x10000 + (n - 0xD800) * 0x400 + (m - 0xDC00)), cs) := by
  unfold IsHighSurrogate at hhigh
  unfold IsLowSurrogate at hlow
  have hlone : ¬ (0xDC00 ≤ n ∧ n ≤ 0xDFFF) := by omega
  have hplain : ¬ (n < 0xD800 ∨ 0xDFFF < n) := by omega
  have hrange : ¬ (m < 0xDC00 ∨ 0xDFFF < m) := by omega
  rw [unicodeEscape, hexEscape_eq_ok_iff.mpr ⟨a, b, c, d, rfl, hn⟩]
  simp only [if_neg hlone, if_neg hplain, hexEscape_eq_ok_iff.mpr ⟨a', b', c', d', rfl, hm⟩,
    if_neg hrange]

/-! ## Whole strings -/

theorem denotes_of_readTextAfter {bound taken : List Char}
    (h : readTextAfter bound taken cs = .ok (s, rest)) :
    ∃ t, s = taken.reverse ++ t ∧ Denotes cs t rest := by
  induction bound generalizing taken cs with
  | nil => cases cs <;> simp [readTextAfter, fail] at h
  | cons b bound ih =>
    cases cs with
    | nil => simp [readTextAfter, fail] at h
    | cons c cs =>
      rw [readTextAfter] at h
      split at h
      · rename_i hc
        obtain ⟨rfl, rfl⟩ := Prod.mk.inj (Except.ok.inj h)
        exact ⟨[], by simp, hc ▸ .close⟩
      · rename_i hquote
        split at h
        · rename_i hc
          split at h
          · simp at h
          · rename_i e behind he
            obtain ⟨t, rfl, ht⟩ := ih h
            exact ⟨e :: t, by simp, hc ▸ denotes_of_escape he ht⟩
        · rename_i hslash
          split at h
          · simp [failNext] at h
          · rename_i hcontrol
            obtain ⟨t, rfl, ht⟩ := ih h
            exact ⟨c :: t, by simp, .plain hquote hslash (Nat.le_of_not_lt hcontrol) ht⟩

theorem readTextAfter_of_escape {e : Char} {more : List Char} (he : escape more = .ok (e, cs))
    (hlen : cs.length ≤ more.length)
    (h : ∀ {bound : List Char} (taken : List Char), cs.length ≤ bound.length →
      readTextAfter bound taken cs = .ok (taken.reverse ++ s, rest))
    {bound : List Char} (taken : List Char) (hb : ('\\' :: more).length ≤ bound.length) :
    readTextAfter bound taken ('\\' :: more) = .ok (taken.reverse ++ e :: s, rest) := by
  obtain ⟨b, bound, rfl⟩ := List.exists_cons_of_length_pos (Nat.zero_lt_of_lt hb)
  have hbound : cs.length ≤ bound.length := by
    simp only [List.length_cons] at hb
    omega
  rw [readTextAfter, if_neg (by decide), if_pos rfl, he]
  simp only [h _ hbound, List.reverse_cons, List.append_assoc, List.singleton_append]

theorem readTextAfter_of_denotes {bound : List Char} (h : Denotes cs s rest) (taken : List Char)
    (hb : cs.length ≤ bound.length) :
    readTextAfter bound taken cs = .ok (taken.reverse ++ s, rest) := by
  induction h generalizing bound taken with
  | close =>
    obtain ⟨b, bound, rfl⟩ := List.exists_cons_of_length_pos (Nat.zero_lt_of_lt hb)
    simp [readTextAfter]
  | plain hquote hslash hcontrol _ ih =>
    obtain ⟨b, bound, rfl⟩ := List.exists_cons_of_length_pos (Nat.zero_lt_of_lt hb)
    rw [readTextAfter, if_neg hquote, if_neg hslash, if_neg (Nat.not_lt.mpr hcontrol),
      ih _ (Nat.le_of_succ_le_succ hb)]
    simp
  | @letter c e cs _ _ he _ ih =>
    have hu : c ≠ 'u' := by
      rintro rfl
      simp [escaped?] at he
    exact readTextAfter_of_escape (escape_of_letter hu he cs) (Nat.le_succ _)
      (fun taken hb => ih taken hb) taken hb
  | @unit a b c d n cs _ _ hn hhigh hlow _ ih =>
    have hescape : escape ('u' :: a :: b :: c :: d :: cs) = .ok (Char.ofNat n, cs) :=
      unicodeEscape_of_unit hn hhigh hlow
    exact readTextAfter_of_escape hescape (by simp only [List.length_cons]; omega)
      (fun taken hb => ih taken hb) taken hb
  | @pair a b c d a' b' c' d' n m cs _ _ hn hhigh hm hlow _ ih =>
    have hescape : escape ('u' :: a :: b :: c :: d :: '\\' :: 'u' :: a' :: b' :: c' :: d' :: cs) =
        .ok (Char.ofNat (0x10000 + (n - 0xD800) * 0x400 + (m - 0xDC00)), cs) :=
      unicodeEscape_of_pair hn hhigh hm hlow
    exact readTextAfter_of_escape hescape (by simp only [List.length_cons]; omega)
      (fun taken hb => ih taken hb) taken hb

/-- Just the strings that stand for one are read, and as what they stand for. -/
theorem readText_eq_ok_iff : readText cs = .ok (s, rest) ↔ Denotes cs s rest := by
  constructor
  · intro h
    obtain ⟨t, rfl, ht⟩ := denotes_of_readTextAfter h
    exact ht
  · intro h
    exact readTextAfter_of_denotes h [] (Nat.le_refl _)

-- A key may be written with escapes.
example : Denotes "\\u0069d\":1".toList "id".toList ":1".toList := readText_eq_ok_iff.mp rfl

end LedgerClient.Json
