import LedgerClient.Proofs.Json.Written
import LedgerClient.Yaml.Word

/-!
# Numbers are read back

The digits of a number announce no other base and have no leading zero, so the reader of plain
numbers takes them for that number (`natural?_toString`).
-/

namespace LedgerClient.Yaml

/-! ## Digits -/

theorem digitIn?_of_isDigit {c : Char} (h : c.isDigit = true) :
    digitIn? 10 c = some (c.toNat - '0'.toNat) := by
  have hrange : 48 ≤ c.toNat ∧ c.toNat ≤ 57 := by
    simpa [Char.isDigit, UInt32.le_iff_toNat_le] using h
  have hzero : '0'.toNat = 48 := rfl
  simp only [digitIn?, hrange, and_self, if_true, hzero]
  exact Option.filter_some_pos (decide_eq_true (by omega))

theorem foldlM_digits {cs : List Char} (h : ∀ c ∈ cs, c.isDigit = true) (init : Nat) :
    cs.foldlM (fun n c => (digitIn? 10 c).map (10 * n + ·)) init =
      some (Nat.ofDigitChars 10 cs init) := by
  induction cs generalizing init with
  | nil => rfl
  | cons c cs ih =>
    obtain ⟨hc, hcs⟩ := List.forall_mem_cons.mp h
    rw [List.foldlM_cons, digitIn?_of_isDigit hc, Nat.ofDigitChars_cons]
    exact ih hcs _

/-! ## Decimal texts -/

variable {n : Nat}

theorem isDigit_of_mem_toDigits {c : Char} (h : c ∈ Nat.toDigits 10 n) : c.isDigit = true :=
  Nat.isDigit_of_mem_toDigits (by decide) (by decide) h

theorem toDigits_cases (n : Nat) : (n = 0 ∧ Nat.toDigits 10 n = ['0']) ∨
    ∃ c more, Nat.toDigits 10 n = c :: more ∧ c ≠ '0' := by
  obtain ⟨c, more, hdigits, hzero⟩ := Json.exists_natChars n
  by_cases hc : c = '0'
  · obtain rfl := hzero hc
    exact .inl ⟨rfl, Nat.toDigits_zero 10⟩
  · exact .inr ⟨c, more, hdigits, hc⟩

theorem magnitude?_toDigits (n : Nat) : magnitude? (Nat.toDigits 10 n) = some n := by
  have hdigits : digits? 10 (Nat.toDigits 10 n) = some n := by
    have hne : (Nat.toDigits 10 n).isEmpty = false := by simp
    rw [digits?, hne, foldlM_digits fun c hc => isDigit_of_mem_toDigits hc,
      Nat.ofDigitChars_toDigits (by decide) (by decide)]
    rfl
  rcases toDigits_cases n with ⟨rfl, hzero⟩ | ⟨c, more, hcons, hc⟩
  · rfl
  · have hc' : ('0' = c) = False := eq_false (Ne.symm hc)
    have hsign : c ≠ '+' ∧ c ≠ '-' := by
      have hdigit := isDigit_of_mem_toDigits (n := n) (c := c) (by simp [hcons])
      constructor <;> rintro rfl <;> exact absurd hdigit (by decide)
    have hunsigned : unsigned (c :: more) = c :: more := by
      simp [unsigned, hsign]
    have hled : isZeroLed (c :: more) = false := by
      rw [isZeroLed, hunsigned]
      split
      · rename_i heq
        exact absurd (List.cons.inj heq).1 hc
      · rfl
    rw [hcons] at hdigits ⊢
    -- no other base is announced
    simp [magnitude?, bases, behind?, hc', hled, hdigits]

theorem natural?_toString {limit : Nat} (h : n ≤ limit) : natural? limit (toString n) = some n := by
  have htext : (toString n).toList = Nat.toDigits 10 n := Nat.toList_repr
  have hplus (cs : List Char) (heq : Nat.toDigits 10 n = '+' :: cs) : False :=
    absurd (isDigit_of_mem_toDigits (n := n) (c := '+') (by simp [heq])) (by decide)
  rw [natural?, htext]
  split
  · rename_i cs heq
    exact (hplus cs heq).elim
  · rw [magnitude?_toDigits]
    exact Option.filter_some_pos (by simpa using h)

end LedgerClient.Yaml
