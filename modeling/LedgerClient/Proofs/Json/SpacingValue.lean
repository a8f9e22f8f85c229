import LedgerClient.Proofs.Json.Alongside
import LedgerClient.Proofs.Json.IntegralValue
import LedgerClient.Proofs.Json.Spacing
import Mathlib.Tactic.SplitIfs

/-!
# Values in respaced texts

The items of a list and the members of an object stand between characters that are no blanks, so they
are found in two texts that have the same parts alike. By induction on the room for containers the
texts are read as the same value (`copies_value`), and if one of them is a value and nothing else,
so is the other (`decode_of_sameParts`).
-/

namespace LedgerClient.Json

variable {cs cs' rest : List Char}

/-! ## Separators -/

theorem colon_of_sameParts (h : SameParts cs cs') (hc : colon cs = .ok rest) :
    ∃ rest', colon cs' = .ok rest' ∧ SameParts rest rest' := by
  obtain ⟨rest', hcs', hrest⟩ := h.behind (eq_of_colon hc) (by decide)
  refine ⟨rest', ?_, hrest.sameParts⟩
  rw [colon, hcs']
  exact if_pos rfl

theorem separated_of_sameParts {first : Bool} {lead : List Char} (h : SameParts cs cs')
    (hs : Separated first cs lead) : ∃ lead', Separated first cs' lead' ∧ SameParts lead lead' := by
  cases first with
  | true =>
    obtain rfl : lead = cs := hs
    exact ⟨cs', rfl, h⟩
  | false =>
    obtain ⟨lead', hcs', hlead⟩ := h.behind hs (by decide)
    exact ⟨lead', hcs', hlead.sameParts⟩

theorem length_of_separated {first : Bool} {lead : List Char} (h : Separated first cs lead) :
    lead.length ≤ cs.length := by
  cases first with
  | true => exact Nat.le_of_eq (congrArg List.length (show lead = cs from h))
  | false => exact Nat.le_of_lt (length_of_dropSpace h)

theorem length_of_stands (h : Stands cs rest) : rest.length < cs.length := by
  obtain ⟨used, rfl, hused⟩ := cut_of_stands h
  cases used with
  | nil =>
    obtain ⟨c, more, hnil, -⟩ := (hused []).solid
    cases hnil
  | cons c used =>
    simp only [List.length_append, List.length_cons]
    omega

theorem nextKey_of_separated {first : Bool} {lead key : List Char} (hs : Separated first cs lead)
    (hlead : dropSpace lead = '"' :: key) : nextKey first cs = .ok (.part key) := by
  cases first with
  | true =>
    obtain rfl : lead = cs := hs
    exact nextKey_of_quote hlead
  | false => exact nextKey_of_comma hs hlead

theorem nextItem_of_sameParts {first : Bool} {part : List Char} (h : SameParts cs cs')
    (hn : nextItem first cs = .ok (.part part)) :
    ∃ part', nextItem first cs' = .ok (.part part') ∧ SameParts part part' ∧
      part'.length ≤ cs'.length := by
  obtain ⟨lead, hs, rfl, c, more, hpart, hc⟩ := separated_of_nextItem hn
  obtain ⟨lead', hs', hlead⟩ := separated_of_sameParts h hs
  obtain ⟨more', hpart', -⟩ := hlead.next hpart
  refine ⟨c :: more', nextItem_of_separated hs' hpart' hc, hpart' ▸ hlead.dropSpace, ?_⟩
  rw [← hpart']
  exact Nat.le_trans (length_dropSpace lead') (length_of_separated hs')

theorem nextKey_of_sameParts {first : Bool} {key : List Char} (h : SameParts cs cs')
    (hn : nextKey first cs = .ok (.part key)) :
    ∃ key', nextKey first cs' = .ok (.part key') ∧ Respaced .inside key key' ∧
      key'.length < cs'.length := by
  obtain ⟨lead, hs, hkey⟩ := separated_of_nextKey hn
  obtain ⟨lead', hs', hlead⟩ := separated_of_sameParts h hs
  obtain ⟨key', hkey', hinside⟩ := hlead.next hkey
  exact ⟨key', nextKey_of_separated hs' hkey', hinside,
    Nat.lt_of_lt_of_le (length_of_dropSpace hkey') (length_of_separated hs')⟩

/-! ## Containers -/

section

variable {α σ : Type} {item : List Char → Step α} {member : String → σ → List Char → Step σ}

theorem items_of_sameParts {bound bound' : List Char} {first : Bool} {taken as : List α}
    (hread : items item bound first taken cs = .ok (as, rest))
    (hs : ∀ {cs a rest}, item cs = .ok (a, rest) → Stands (dropSpace cs) rest)
    (hi : ∀ {cs cs'}, SameParts cs cs' → Copies (item cs) (item cs'))
    (h : SameParts cs cs') (hb : cs'.length ≤ bound'.length) :
    ∃ rest', items item bound' first taken cs' = .ok (as, rest') ∧ SameParts rest rest' := by
  refine items_induction (motive := fun _ first taken cs => ∀ cs' bound', SameParts cs cs' →
    cs'.length ≤ bound'.length → ∃ rest', items item bound' first taken cs' = .ok (as, rest') ∧
      SameParts rest rest') ?_ ?_ hread cs' bound' h hb
  · intro _ first taken cs hn has cs' bound' h _
    obtain ⟨hrest, behind, hclose⟩ := separated_of_nextItem hn
    obtain ⟨behind', hcs', hbehind⟩ := h.next (hrest.symm.trans hclose)
    refine ⟨']' :: behind', ?_, ?_⟩
    · unfold items
      rw [nextItem_of_closed hcs', has]
    · rw [hrest, ← hcs']
      exact h.dropSpace
  · intro _ _ first taken cs part a behind hn hitem _ ih cs' bound' h hb
    obtain ⟨part', hn', hpart, hlen⟩ := nextItem_of_sameParts h hn
    obtain ⟨behind', hitem', hbehind⟩ := hi hpart hitem
    have hshort := length_of_stands (hs hitem')
    have hdrop := length_dropSpace part'
    obtain ⟨b', bound', rfl⟩ := List.exists_cons_of_length_pos (l := bound') (by omega)
    rw [List.length_cons] at hb
    obtain ⟨rest', hrest', hrest⟩ := ih behind' bound' hbehind (by omega)
    refine ⟨rest', ?_, hrest⟩
    rw [items, hn']
    simp only [hitem', hrest']

theorem members_of_sameParts {bound bound' : List Char} {first : Bool} {s s' : σ}
    (hread : readMembers member bound first s cs = .ok (s', rest))
    (ha : ∀ {key s cs s' rest}, member key s cs = .ok (s', rest) → Assigned cs rest)
    (hm : ∀ {key s cs cs'}, SameParts cs cs' → Copies (member key s cs) (member key s cs'))
    (h : SameParts cs cs') (hb : cs'.length ≤ bound'.length) :
    ∃ rest', readMembers member bound' first s cs' = .ok (s', rest') ∧ SameParts rest rest' := by
  refine readMembers_induction (motive := fun _ first s cs => ∀ cs' bound', SameParts cs cs' →
    cs'.length ≤ bound'.length → ∃ rest', readMembers member bound' first s cs' = .ok (s', rest') ∧
      SameParts rest rest') ?_ ?_ hread cs' bound' h hb
  · intro _ first cs hn cs' bound' h _
    obtain ⟨hrest, behind, hclose⟩ := separated_of_nextKey hn
    obtain ⟨behind', hcs', hbehind⟩ := h.next (hrest.symm.trans hclose)
    refine ⟨'\x7d' :: behind', ?_, ?_⟩
    · unfold readMembers
      rw [nextKey_of_closed hcs']
    · rw [hrest, ← hcs']
      exact h.dropSpace
  · intro _ _ first s cs part key after s₁ behind hn hkey hmember _ ih cs' bound' h hb
    obtain ⟨part', hn', hpart, hlen⟩ := nextKey_of_sameParts h hn
    obtain ⟨after', hkey', hafter⟩ := readText_respaced hkey hpart
    obtain ⟨behind', hmember', hbehind⟩ := hm hafter.sameParts hmember
    obtain ⟨value, hcolon, hv⟩ := ha hmember'
    have hname := length_of_quoted (quoted_of_readText hkey')
    have hbefore := length_of_dropSpace hcolon
    have hvalue := length_of_stands hv
    have hdrop := length_dropSpace value
    obtain ⟨b', bound', rfl⟩ := List.exists_cons_of_length_pos (l := bound') (by omega)
    rw [List.length_cons] at hb
    obtain ⟨rest', hrest', hrest⟩ := ih behind' bound' hbehind (by omega)
    refine ⟨rest', ?_, hrest⟩
    rw [readMembers, hn']
    simp only [hkey', hmember', hrest']

theorem copies_listBody
    (hs : ∀ {cs a rest}, item cs = .ok (a, rest) → Stands (dropSpace cs) rest)
    (hi : ∀ {cs cs'}, SameParts cs cs' → Copies (item cs) (item cs')) (h : SameParts cs cs') :
    Copies (listBody item cs) (listBody item cs') := by
  intro as rest hread
  obtain ⟨behind, hitems, hclose⟩ := ok_of_enclose hread
  obtain ⟨behind', hitems', hbehind⟩ := items_of_sameParts hitems hs hi h (Nat.le_refl _)
  obtain ⟨rest', hend, hrest⟩ := hbehind.behind (eq_of_closeList hclose) (by decide)
  refine ⟨rest', ?_, hrest.sameParts⟩
  rw [listBody, hitems']
  simp only [enclose, closeList, hend, if_pos]

theorem copies_objectBody {start : σ} {finish : σ → Except Cause α}
    (ha : ∀ {key s cs s' rest}, member key s cs = .ok (s', rest) → Assigned cs rest)
    (hm : ∀ {key s cs cs'}, SameParts cs cs' → Copies (member key s cs) (member key s cs'))
    (h : SameParts cs cs') :
    Copies (objectBody start member finish cs) (objectBody start member finish cs') := by
  intro a rest hread
  obtain ⟨s, behind, hmembers, hfinish, hclose⟩ := ok_of_objectBody hread
  obtain ⟨behind', hmembers', hbehind⟩ := members_of_sameParts hmembers ha hm h (Nat.le_refl _)
  obtain ⟨rest', hend, hrest⟩ := hbehind.behind hclose (by decide)
  exact ⟨rest', objectBody_of_ok hmembers' hfinish hend, hrest.sameParts⟩

end

theorem copies_keepMember {value : List Char → Step Value} {key : String} {kept : Members}
    (hv : ∀ {cs cs'}, SameParts cs cs' → Copies (value cs) (value cs')) (h : SameParts cs cs') :
    Copies (keepMember value key kept cs) (keepMember value key kept cs') := by
  intro kept' rest hread
  obtain ⟨v, hcolon, rfl⟩ := ok_of_keepMember hread
  obtain ⟨item, hc, hvalue⟩ := ok_of_afterColon hcolon
  obtain ⟨item', hc', hitem⟩ := colon_of_sameParts h hc
  obtain ⟨rest', hvalue', hrest⟩ := hv hitem hvalue
  refine ⟨rest', ?_, hrest⟩
  simp only [keepMember, afterColon, hc', hvalue']

/-! ## Values of any type -/

theorem copies_wordValue {letters : List Char} {c : Char} (v : Value) (hw : c :: letters ∈ words)
    (h : Respaced .outside cs cs') :
    Copies (wordValue letters v cs) (wordValue letters v cs') := by
  intro w rest hread
  obtain ⟨hword, rfl⟩ := ok_of_wordValue hread
  have hl : ∀ c ∈ letters, isSpace c = false ∧ c ≠ '"' := by
    simp only [words, List.mem_cons, List.not_mem_nil, or_false, List.cons.injEq] at hw
    rcases hw with ⟨-, rfl⟩ | ⟨-, rfl⟩ | ⟨-, rfl⟩ <;> simp [isSpace]
  obtain ⟨rest', hword', hrest⟩ := word_respaced h hl hword
  exact ⟨rest', by rw [wordValue, hword'], hrest.sameParts⟩

theorem copies_readAny {list object : List Char → Step Value}
    (hl : ∀ {cs cs'}, SameParts cs cs' → Copies (list cs) (list cs'))
    (ho : ∀ {cs cs'}, SameParts cs cs' → Copies (object cs) (object cs')) (h : SameParts cs cs') :
    Copies (readAny list object cs) (readAny list object cs') := by
  cases hcs : dropSpace cs with
  | nil =>
    rw [readAny, hcs]
    exact .error _ _
  | cons c more =>
    obtain ⟨more', hcs', hmore⟩ := h.next hcs
    have hplain (hq : c ≠ '"') : Respaced .outside more more' := by
      rwa [Side.behind, if_neg hq] at hmore
    have hall : Respaced .outside (c :: more) (c :: more') := hcs ▸ hcs' ▸ h
    rw [readAny, readAny, hcs, hcs']
    simp only
    split_ifs with hnull htrue hfalse hquote hnumber hlist hobject
    · subst hnull
      exact copies_wordValue (c := 'n') .null (by decide) (hplain (by decide))
    · subst htrue
      exact copies_wordValue (c := 't') (.bool true) (by decide) (hplain (by decide))
    · subst hfalse
      exact copies_wordValue (c := 'f') (.bool false) (by decide) (hplain (by decide))
    · subst hquote
      intro v rest hread
      split at hread
      · cases hread
      · rename_i s behind htext
        obtain ⟨rfl, rfl⟩ := Prod.mk.inj (Except.ok.inj hread)
        obtain ⟨rest', htext', hrest⟩ := readText_respaced htext hmore
        exact ⟨rest', by rw [htext'], hrest.sameParts⟩
    · intro v rest hread
      split at hread
      · cases hread
      · rename_i n behind hn
        obtain ⟨rfl, rfl⟩ := Prod.mk.inj (Except.ok.inj hread)
        obtain ⟨rest', hn', hrest⟩ := copies_readNumber hall hnumber hn
        exact ⟨rest', by rw [hn'], hrest⟩
    · exact hl (hplain hquote).sameParts
    · exact ho (hplain hquote).sameParts
    · exact .error _ _

/-- Two texts with the same parts are read as the same value. -/
theorem copies_value (room : Nat) (h : SameParts cs cs') :
    Copies (Reader.value room cs) (Reader.value room cs') := by
  induction room generalizing cs cs' with
  | zero => exact copies_readAny (fun _ => .error _ _) (fun _ => .error _ _) h
  | succ room ih =>
    have hs {cs : List Char} {v : Value} {rest : List Char}
        (hv : Reader.value room cs = .ok (v, rest)) : Stands (dropSpace cs) rest := sound_value hv
    have hmember {key : String} {kept : Members} {cs cs' : List Char} (h : SameParts cs cs') :
        Copies (keepMember (Reader.value room) key kept cs)
          (keepMember (Reader.value room) key kept cs') := copies_keepMember ih h
    have hassigned {key : String} {kept kept' : Members} {cs rest : List Char}
        (hk : keepMember (Reader.value room) key kept cs = .ok (kept', rest)) :
        Assigned cs rest := assigned_of_keepMember hs hk
    refine copies_readAny ?_ ?_ h
    · intro cs cs' h v rest hl
      split at hl
      · cases hl
      · rename_i hb
        obtain ⟨rfl, rfl⟩ := Prod.mk.inj (Except.ok.inj hl)
        obtain ⟨rest', hb', hrest⟩ := copies_listBody hs ih h hb
        exact ⟨rest', by rw [hb'], hrest⟩
    · intro cs cs' h v rest ho
      have hobject : Copies (objectBody [] (keepMember (Reader.value room)) .ok cs)
          (objectBody [] (keepMember (Reader.value room)) .ok cs') :=
        copies_objectBody hassigned hmember h
      split at ho
      · cases ho
      · rename_i hb
        obtain ⟨rfl, rfl⟩ := Prod.mk.inj (Except.ok.inj ho)
        obtain ⟨rest', hb', hrest⟩ := hobject hb
        exact ⟨rest', by rw [hb'], hrest⟩

theorem run_of_sameParts {v : Value} (h : SameParts cs cs') (hv : Reader.value.run cs = .ok v) :
    Reader.value.run cs' = .ok v := by
  rw [Reader.run] at hv ⊢
  split at hv
  · cases hv
  · rename_i w behind hread
    obtain ⟨behind', hread', hbehind⟩ := copies_value nestingLimit h hread
    split at hv
    · rename_i hend
      rw [hread']
      simp only [hbehind.ended hend, hv]
    · cases hv

/-- One of two texts with the same parts is a value just if the other is the same value. -/
theorem decode_of_sameParts {text text' : String} (h : SameParts text.toList text'.toList) :
    (Codec.value.decode text).toOption = (Codec.value.decode text').toOption := by
  show ((Reader.value.run text.toList).mapError (Fault.of text.toList)).toOption =
    ((Reader.value.run text'.toList).mapError (Fault.of text'.toList)).toOption
  cases hread : Reader.value.run text.toList with
  | ok v =>
    rw [run_of_sameParts h hread]
    rfl
  | error stop =>
    cases hread' : Reader.value.run text'.toList with
    | ok v => cases hread.symm.trans (run_of_sameParts h.symm hread')
    | error stop' => rfl

end LedgerClient.Json
