import LedgerClient.Proofs.Json.Completeness
import LedgerClient.Proofs.Json.Readers

/-!
# Records that are read off one object

Two records that are read off the same object go along the same members, and what the one builds of
a value the other may pass over. `readMembers_alongside` carries a relation between what the two have
come to from member to member: behind a member stands a comma or the closing brace, so the value in
front of it has ended and can be passed over.
-/

namespace LedgerClient.Json

variable {cs rest : List Char}

/-! ## The two loops -/

section

variable {σ τ : Type} {member : String → σ → List Char → Step σ}
  {member' : String → τ → List Char → Step τ} {R : σ → τ → Prop}

theorem readMembers_alongside {bound : List Char} {first : Bool} {s s' : σ} {t : τ}
    {behind : List Char} (h : readMembers member bound first s cs = .ok (s', behind))
    (hc : dropSpace behind = '\x7d' :: rest)
    (ha : ∀ {key s cs s' rest}, member key s cs = .ok (s', rest) → Assigned cs rest)
    (hm : ∀ {key s cs s' rest t}, member key s cs = .ok (s', rest) → Ended rest → R s t →
      ∃ t', member' key t cs = .ok (t', rest) ∧ R s' t')
    (hR : R s t) :
    ∃ t', readMembers member' bound first t cs = .ok (t', behind) ∧ R s' t' := by
  refine readMembers_induction (motive := fun bound first s cs => ∀ t, R s t →
    ∃ t', readMembers member' bound first t cs = .ok (t', behind) ∧ R s' t') ?_ ?_ h t hR
  · intro bound _ _ hn t hR
    exact ⟨t, by unfold readMembers; rw [hn], hR⟩
  · intro _ _ _ _ _ _ _ _ _ _ hn hkey hmember hbehind ih t hR
    have hended := (contents_of_readMembers ha hbehind hc).ended
    obtain ⟨t', ht, hR'⟩ := hm hmember hended hR
    obtain ⟨t'', hrest, hR''⟩ := ih t' hR'
    refine ⟨t'', ?_, hR''⟩
    rw [readMembers, hn]
    simp only [hkey, ht, hrest]

theorem objectBody_of_ok {β : Type} {finish : τ → Except Cause β} {start state : τ} {b : β}
    {behind : List Char} (hr : readMembers member' cs true start cs = .ok (state, behind))
    (hf : finish state = .ok b) (hc : dropSpace behind = '\x7d' :: rest) :
    objectBody start member' finish cs = .ok (b, rest) := by
  unfold objectBody
  rw [hr]
  simp only [hf, enclose, closeObject, hc, if_pos]

end

/-! ## Whole texts that are objects -/

theorem Record.decode_object_iff {α : Type} {βs : List Type} {r : Record α βs} {text : String}
    {contents : List Char} {a : α} (ho : dropSpace text.toList = '\x7b' :: contents) :
    r.codec.decode text = .ok a ↔
      ∃ rest, r.readObject (nestingLimit - 1) contents = .ok (a, rest) ∧ dropSpace rest = [] := by
  have hread : r.read nestingLimit text.toList = r.readObject (nestingLimit - 1) contents := by
    rw [Record.read, atValue, ho]
    rfl
  rw [← hread]
  exact Reader.parse_eq_ok_iff

/-! ## Members that are passed over -/

theorem skip_of_assigned (ha : Assigned cs rest) (hr : Ended rest) :
    ∃ value, colon cs = .ok value ∧ skip value = .ok rest := by
  obtain ⟨value, hcolon, hv⟩ := ha
  refine ⟨value, ?_, skip_of_stands hv hr⟩
  rw [colon, hcolon]
  exact if_pos rfl

variable {α : Type} {βs : List Type} {room : Nat} {key : String}

theorem Record.member_of_undeclared {r : Record α βs} {slots : Slots βs}
    (hk : r.fields.declares key = false) (ha : Assigned cs rest) (hr : Ended rest) :
    r.member room key slots cs = .ok (slots, rest) := by
  obtain ⟨value, hcolon, hskip⟩ := skip_of_assigned ha hr
  rw [Record.member, hk]
  simp only [Bool.false_eq_true, if_false, hcolon, hskip]

theorem Record.member_of_declared {r : Record α βs} {slots : Slots βs}
    (hk : r.fields.declares key = true) :
    r.member room key slots cs = r.fields.readMember room key slots cs := by
  rw [Record.member, if_pos hk]

theorem Record.slots_of_undeclared {r : Record α βs} {slots slots' : Slots βs}
    (hk : r.fields.declares key = false)
    (h : r.member room key slots cs = .ok (slots', rest)) : slots' = slots := by
  rw [Record.member, hk] at h
  simp only [Bool.false_eq_true, if_false] at h
  split at h
  · simp at h
  · split at h
    · simp at h
    · exact (Prod.mk.inj (Except.ok.inj h)).1.symm

/-! ## The slots of a record -/

namespace Fields

variable {β : Type} {fields : Fields βs} {slot : Option β} {slots : Slots βs}
  {slots' : Slots (β :: βs)}

theorem slots_of_named (field : Field β) (hk : field.name = key)
    (h : (cons field fields).readMember room key (slot, slots) cs = .ok (slots', rest)) :
    slot = none ∧ ∃ b, slots' = (some b, slots) ∧
      afterColon (field.read room) cs = .ok (b, rest) := by
  simp only [readMember, if_pos hk] at h
  cases slot with
  | some b => simp at h
  | none =>
    refine ⟨rfl, ?_⟩
    simp only at h
    split at h
    · simp at h
    · rename_i b behind hread
      obtain ⟨rfl, rfl⟩ := Prod.mk.inj (Except.ok.inj h)
      exact ⟨b, rfl, hread⟩

theorem slots_of_other {field : Field β} (hk : field.name ≠ key)
    (h : (cons field fields).readMember room key (slot, slots) cs = .ok (slots', rest)) :
    slots'.1 = slot ∧ fields.readMember room key slots cs = .ok (slots'.2, rest) := by
  simp only [readMember, if_neg hk] at h
  split at h
  · simp at h
  · rename_i hread
    obtain ⟨rfl, rfl⟩ := Prod.mk.inj (Except.ok.inj h)
    exact ⟨rfl, hread⟩

theorem readMember_named (field : Field β) {b : β} (hk : field.name = key)
    (h : afterColon (field.read room) cs = .ok (b, rest)) :
    (cons field fields).readMember room key (none, slots) cs = .ok ((some b, slots), rest) := by
  simp only [readMember, if_pos hk, h]

theorem readMember_other {field : Field β} {slots' : Slots βs} (hk : field.name ≠ key)
    (h : fields.readMember room key slots cs = .ok (slots', rest)) :
    (cons field fields).readMember room key (slot, slots) cs = .ok ((slot, slots'), rest) := by
  simp only [readMember, if_neg hk, h]

theorem complete_cases {field : Field β} {row : Row (β :: βs)}
    (h : (cons field fields).complete (slot, slots) = .ok row) :
    (slot <|> field.absent) = some row.1 ∧ fields.complete slots = .ok row.2 := by
  simp only [complete] at h
  split at h
  · simp at h
  · rename_i b hb
    split at h
    · simp at h
    · rename_i hrest
      obtain rfl := Except.ok.inj h
      exact ⟨hb, hrest⟩

theorem complete_cons (field : Field β) {b : β} {row : Row βs}
    (hb : (slot <|> field.absent) = some b) (hrow : fields.complete slots = .ok row) :
    (cons field fields).complete (slot, slots) = .ok (b, row) := by
  simp only [complete, hb, hrow]

end Fields

theorem afterColon_alongside {β : Type} {value : List Char → Step α} {value' : List Char → Step β}
    {a : α} {b : β} (hv : ∀ {cs}, value cs = .ok (a, rest) → value' cs = .ok (b, rest))
    (h : afterColon value cs = .ok (a, rest)) : afterColon value' cs = .ok (b, rest) := by
  rw [afterColon] at h ⊢
  split at h
  · simp at h
  · rename_i behind hcolon
    exact hv h

theorem option_of_natural {expected : String} {bits n : Nat}
    (h : (Codec.natural expected bits).read room cs = .ok (n, rest)) :
    (Codec.natural expected bits).read.option room cs = .ok (some n, rest) := by
  obtain ⟨i, hi, rfl⟩ := integer_of_natural h
  obtain ⟨c, more, hcs, hc, -⟩ := number_of_integer hi
  have hread : (Codec.natural expected bits).read room (dropSpace cs) = .ok (i.toNat, rest) := by
    rw [← h]
    simp only [Codec.natural, Reader.integer, atValue, dropSpace_dropSpace]
  have hnull : c ≠ 'n' := ne_of_digit hc (by decide)
  rw [option_of_first hcs, if_neg hnull, ← hcs, hread]

end LedgerClient.Json
