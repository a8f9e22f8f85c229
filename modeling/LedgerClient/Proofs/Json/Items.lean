import LedgerClient.Proofs.Json.Soundness

/-!
# Records that are read off lists

The items of a list are the values of the fields in the order of their declaration; the fields for
which there is no item are lacking. Two records that read the same list go along the same items, so
that what the one has read tells what the other can read: a string is no number, and two readers of
numbers read the same one.
-/

namespace LedgerClient.Json

variable {cs rest : List Char} {βs : List Type} {room : Nat}

/-! ## The end of a list -/

/-- The values of fields that are all lacking, if they may be. -/
def Fields.lackingRow? : {βs : List Type} → Fields βs → Option (Row βs)
  | _, .nil => some ()
  | _, .cons field rest =>
    match field.lacking, rest.lackingRow? with
    | some b, some row => some (b, row)
    | _, _ => none

theorem Fields.lackingRow?_of_closed {fields : Fields βs} {expected : String} {index : Nat}
    {row : Row βs} {behind : List Char} (hc : dropSpace cs = ']' :: rest)
    (h : fields.readItems room expected index cs = .ok (row, behind)) :
    fields.lackingRow? = some row := by
  induction fields generalizing index cs with
  | nil => rfl
  | cons field fields ih =>
    rcases Fields.readItems_cases h with ⟨item, after, hn, -⟩ | ⟨after, hcs, hl, hrest⟩
    · rw [nextItem_of_closed hc] at hn
      cases hn
    · obtain rfl := List.tail_eq_of_cons_eq (hc.symm.trans hcs)
      simp only [Fields.lackingRow?, hl, ih (dropSpace_cons hc) hrest]
      rfl

/-! ## Items that several records read -/

theorem integer_ne_ok_of_text {room' : Nat} {expected : String} {low high i : Int} {s : String}
    {behind : List Char} (h : Reader.text room cs = .ok (s, behind)) :
    Reader.integer expected low high room' cs ≠ .ok (i, rest) := by
  intro hi
  obtain ⟨c, more, hcs, hc, -⟩ := number_of_integer hi
  rw [Reader.text, atValue, hcs] at h
  simp only at h
  split at h
  · rename_i hquote
    subst hquote
    rcases hc with hc | hc <;> exact absurd hc (by decide)
  · exact unexpected_ne_ok h

theorem option_of_integer {room' bits : Nat} {expected expected' : String} {low high i : Int}
    {n : Option Nat} {behind : List Char}
    (hi : Reader.integer expected low high room cs = .ok (i, rest))
    (hn : (Codec.natural expected' bits).read.option room' cs = .ok (n, behind)) :
    n = some i.toNat ∧ behind = rest := by
  obtain ⟨c, more, hcs, hc, hread, -⟩ := number_of_integer hi
  unfold Reader.option at hn
  split at hn
  · rename_i hnull
    rw [hcs] at hnull
    obtain rfl := (List.cons.inj hnull).1
    rcases hc with hc | hc <;> exact absurd hc (by decide)
  · split at hn
    · cases hn
    · rename_i m after hm
      obtain ⟨rfl, rfl⟩ := Prod.mk.inj (Except.ok.inj hn)
      obtain ⟨j, hj, rfl⟩ := integer_of_natural hm
      obtain ⟨d, digits, hds, -, hread', -⟩ := number_of_integer hj
      rw [dropSpace_dropSpace, hcs] at hds
      obtain ⟨rfl, rfl⟩ := List.cons.inj hds
      rw [hread, Except.ok.injEq, Prod.mk.injEq, Number.int.injEq] at hread'
      exact ⟨by rw [hread'.1], hread'.2.symm⟩

/-- A reader that reads nothing but numbers. -/
def Numeric {β : Type} (read : Reader β) : Prop :=
  ∀ ⦃room : Nat⦄ ⦃cs : List Char⦄ ⦃b : β⦄ ⦃rest : List Char⦄, read room cs = .ok (b, rest) →
    ∃ expected low high i, Reader.integer expected low high room cs = .ok (i, rest)

theorem numeric_int32 : Numeric Codec.int32.read := fun _ _ i _ h => ⟨_, _, _, i, h⟩

theorem numeric_natural (expected : String) (bits : Nat) :
    Numeric (Codec.natural expected bits).read := by
  intro room cs n rest h
  obtain ⟨i, hi, -⟩ := integer_of_natural h
  exact ⟨_, _, _, i, hi⟩

namespace Record

variable {α β : Type} {r : Record α (β :: βs)} {field : Field β} {fields : Fields βs}

theorem not_decode_of_first {text : String} {contents item : List Char} {a : α}
    (hr : r.fields = .cons field fields) (hl : dropSpace text.toList = '[' :: contents)
    (hn : nextItem true contents = .ok (.part item))
    (hf : ∀ {room b behind}, field.read room item ≠ .ok (b, behind)) :
    r.codec.decode text ≠ .ok a := by
  intro h
  obtain ⟨room, row, behind, rest, hi, -, -⟩ := items_of_decode h hl
  rw [hr] at hi
  rcases Fields.readItems_cases hi with ⟨item', after, hn', hread, -⟩ | ⟨after, hclosed, -⟩
  · obtain rfl := Next.part.inj (Except.ok.inj (hn.symm.trans hn'))
    exact hf hread
  · rw [nextItem_of_closed hclosed] at hn
    cases hn

end Record

end LedgerClient.Json
