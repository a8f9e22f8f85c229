import LedgerClient.Proofs.Json.Soundness

/-!
# Every reader reads values

The readers that the fields of records are declared with are sound, those of containers by way of
their items or members. So a record is sound if its fields are, whether it passes over the other
members of its object or keeps them.
-/

namespace LedgerClient.Json

variable {cs rest : List Char}

/-! ## Words and strings -/

theorem ok_of_wordValue {α : Type} {letters : List Char} {a b : α}
    (h : wordValue letters a cs = .ok (b, rest)) : word letters cs = .ok rest ∧ b = a := by
  rw [wordValue] at h
  split at h
  · simp at h
  · rename_i hw
    obtain ⟨rfl, rfl⟩ := Prod.mk.inj (Except.ok.inj h)
    exact ⟨hw, rfl⟩

theorem stands_of_wordValue {α : Type} {c : Char} {letters : List Char} {a b : α}
    (hw : c :: letters ∈ words) (h : wordValue letters a cs = .ok (b, rest)) :
    Stands (c :: cs) rest :=
  stands_of_word hw (ok_of_wordValue h).1

theorem sound_bool : Sound Reader.bool := by
  intro room cs b rest h
  rw [Reader.bool, atValue] at h
  split at h
  · cases h
  · rename_i c more hcs
    rw [hcs]
    split at h
    · rename_i hc
      exact hc ▸ stands_of_wordValue (by decide) h
    · split at h
      · rename_i hc
        exact hc ▸ stands_of_wordValue (by decide) h
      · exact absurd h unexpected_ne_ok

theorem sound_unit : Sound Reader.unit := by
  intro room cs u rest h
  rw [Reader.unit, atValue] at h
  split at h
  · cases h
  · rename_i c more hcs
    rw [hcs]
    split at h
    · rename_i hc
      exact hc ▸ stands_of_wordValue (by decide) h
    · exact absurd h unexpected_ne_ok

theorem sound_refined {α : Type} (parse : String → Except String α) :
    Sound (Reader.refined parse) := by
  intro room cs a rest h
  rw [Reader.refined] at h
  split at h
  · cases h
  · rename_i hs
    split at h
    · obtain ⟨-, rfl⟩ := Prod.mk.inj (Except.ok.inj h)
      exact sound_text hs
    · cases h

theorem option_of_first {α : Type} {read : Reader α} {room : Nat} {c : Char} {more : List Char}
    (hcs : dropSpace cs = c :: more) :
    read.option room cs =
      if c = 'n' then wordValue ['u', 'l', 'l'] none more
      else match read room (c :: more) with
        | .error stop => .error stop
        | .ok (a, rest) => .ok (some a, rest) := by
  unfold Reader.option
  rw [hcs]
  split
  · rename_i heq
    obtain ⟨rfl, rfl⟩ := List.cons.inj heq
    rw [if_pos rfl]
  · rename_i hn
    have hc : c ≠ 'n' := by
      rintro rfl
      exact hn more rfl
    exact (if_neg hc).symm

/-! ## Named alternatives -/

theorem rest_of_pick {α : Type} {known : List (String × α)} {name behind : List Char} {a : α}
    (h : pick known name behind = .ok (a, rest)) : rest = behind := by
  rw [pick] at h
  split at h
  · exact (Prod.mk.inj (Except.ok.inj h)).2.symm
  · cases h

theorem quoted_of_variantName {α : Type} {known : List (String × α)} {a : α}
    (h : variantName known cs = .ok (a, rest)) :
    ∃ name, dropSpace cs = '"' :: name ∧ Quoted name rest := by
  rw [variantName, atValue] at h
  split at h
  · cases h
  · rename_i c name hcs
    split at h
    · rename_i hc
      split at h
      · cases h
      · rename_i hq
        obtain rfl := rest_of_pick h
        exact ⟨name, hc ▸ hcs, quoted_of_readText hq⟩
    · exact absurd h unexpected_ne_ok

theorem sound_choice {α : Type} (known : List (String × α)) : Sound (Reader.choice known) := by
  intro room cs a rest h
  rw [Reader.choice, atValue] at h
  split at h
  · cases h
  · rename_i c more hcs
    split at h
    · obtain ⟨name, hname, hq⟩ := quoted_of_variantName h
      rw [dropSpace_cons hcs] at hname
      rw [hcs, hname]
      exact .text hq
    · split at h
      · rename_i hc
        rw [hcs, hc]
        cases room with
        | zero => cases h
        | succ room =>
          simp only at h
          -- an object with the name as its only key
          split at h
          · cases h
          · rename_i hn
            split at h
            · cases h
            · rename_i hu
              split at h
              · cases h
              · rename_i d behind hd
                split at h
                · rename_i hclose
                  obtain ⟨-, rfl⟩ := Prod.mk.inj (Except.ok.inj h)
                  obtain ⟨name, hname, hq⟩ := quoted_of_variantName hn
                  obtain ⟨value, hcolon, hv⟩ := assigned_of_afterColon (fun hv => sound_unit hv) hu
                  subst hclose
                  exact .container .object
                    (.value rfl ⟨name, _, hname, hq, hcolon⟩ hv (.close hd))
                · cases h
      · cases h

/-! ## Containers -/

theorem items_induction {α : Type} {item : List Char → Step α} {as : List α}
    {rest : List Char} {motive : List Char → Bool → List α → List Char → Prop}
    (closing : ∀ {bound first taken cs}, nextItem first cs = .ok (.closing rest) →
      as = taken.reverse → motive bound first taken cs)
    (item_first : ∀ {b bound first taken cs part a behind},
      nextItem first cs = .ok (.part part) → item part = .ok (a, behind) →
      items item bound false (a :: taken) behind = .ok (as, rest) →
      motive bound false (a :: taken) behind → motive (b :: bound) first taken cs)
    {bound : List Char} {first : Bool} {taken : List α}
    (h : items item bound first taken cs = .ok (as, rest)) : motive bound first taken cs := by
  induction bound generalizing first taken cs with
  | nil =>
    rw [items] at h
    split at h
    · cases h
    · rename_i hn
      obtain ⟨rfl, rfl⟩ := Prod.mk.inj (Except.ok.inj h)
      exact closing hn rfl
    · cases h
  | cons b bound ih =>
    rw [items] at h
    split at h
    · cases h
    · rename_i hn
      obtain ⟨rfl, rfl⟩ := Prod.mk.inj (Except.ok.inj h)
      exact closing hn rfl
    · rename_i hn
      simp only at h
      split at h
      · cases h
      · rename_i hitem
        exact item_first hn hitem h (ih h)

theorem contents_of_items {α : Type} {item : List Char → Step α}
    (hi : ∀ {cs a rest}, item cs = .ok (a, rest) → Stands (dropSpace cs) rest)
    {bound : List Char} {first : Bool} {taken as : List α} {behind : List Char}
    (h : items item bound first taken cs = .ok (as, behind))
    (hc : dropSpace behind = ']' :: rest) : Contents .list first cs rest := by
  refine items_induction (motive := fun _ first _ cs => Contents .list first cs rest) ?_ ?_ h
  · intro _ _ _ _ hn _
    rw [(separated_of_nextItem hn).1, dropSpace_dropSpace] at hc
    exact .close hc
  · intro _ _ _ _ _ _ _ _ hn hitem _ ih
    obtain ⟨lead, hs, rfl, -⟩ := separated_of_nextItem hn
    have hv := hi hitem
    rw [dropSpace_dropSpace] at hv
    exact .value hs rfl hv ih
theorem contents_of_listBody {α : Type} {item : List Char → Step α}
    (hi : ∀ {cs a rest}, item cs = .ok (a, rest) → Stands (dropSpace cs) rest) {as : List α}
    (h : listBody item cs = .ok (as, rest)) : Contents .list true cs rest := by
  obtain ⟨behind, hr, hc⟩ := ok_of_enclose h
  exact contents_of_items hi hr (eq_of_closeList hc)

theorem contents_of_objectBody {σ α : Type} {start : σ}
    {member : String → σ → List Char → Step σ} {finish : σ → Except Cause α}
    (hm : ∀ {key state cs state' rest}, member key state cs = .ok (state', rest) → Assigned cs rest)
    {a : α} (h : objectBody start member finish cs = .ok (a, rest)) :
    Contents .object true cs rest := by
  obtain ⟨state, behind, hr, -, hc⟩ := ok_of_objectBody h
  exact contents_of_readMembers hm hr hc

theorem ok_of_keepMember {value : List Char → Step Value} {key : String} {kept kept' : Members}
    (h : keepMember value key kept cs = .ok (kept', rest)) :
    ∃ v, afterColon value cs = .ok (v, rest) ∧ kept' = Members.insert key v kept := by
  rw [keepMember] at h
  split at h
  · simp at h
  · rename_i v _ hread
    obtain ⟨rfl, rfl⟩ := Prod.mk.inj (Except.ok.inj h)
    exact ⟨v, hread, rfl⟩

theorem assigned_of_keepMember {value : List Char → Step Value} {key : String} {kept kept' : Members}
    (hv : ∀ {cs v rest}, value cs = .ok (v, rest) → Stands (dropSpace cs) rest)
    (h : keepMember value key kept cs = .ok (kept', rest)) : Assigned cs rest := by
  obtain ⟨v, hread, -⟩ := ok_of_keepMember h
  exact assigned_of_afterColon hv hread

theorem readAny_cases {list object : List Char → Step Value} {v : Value}
    (h : readAny list object cs = .ok (v, rest)) :
    ∃ c more, dropSpace cs = c :: more ∧
      ((∃ letters, c :: letters ∈ words ∧ word letters more = .ok rest ∧
          (c = 'n' ∧ v = .null ∨ ∃ b, v = .bool b)) ∨
        (c = '"' ∧ ∃ s, readText more = .ok (s, rest) ∧ v = .text (String.ofList s)) ∨
        ((c = '-' ∨ isDigit c = true) ∧
          ∃ n, readNumber (c :: more) = .ok (n, rest) ∧ v = .number n) ∨
        (c = '[' ∧ list more = .ok (v, rest)) ∨
        (c = '\x7b' ∧ object more = .ok (v, rest))) := by
  rw [readAny] at h
  split at h
  · simp [fail] at h
  · rename_i c more hcs
    refine ⟨c, more, hcs, ?_⟩
    split at h
    · rename_i hc
      obtain ⟨hw, hv⟩ := ok_of_wordValue h
      exact .inl ⟨['u', 'l', 'l'], by rw [hc]; decide, hw, .inl ⟨hc, hv⟩⟩
    · split at h
      · rename_i hc
        obtain ⟨hw, hv⟩ := ok_of_wordValue h
        exact .inl ⟨['r', 'u', 'e'], by rw [hc]; decide, hw, .inr ⟨true, hv⟩⟩
      · split at h
        · rename_i hc
          obtain ⟨hw, hv⟩ := ok_of_wordValue h
          exact .inl ⟨['a', 'l', 's', 'e'], by rw [hc]; decide, hw, .inr ⟨false, hv⟩⟩
        · split at h
          · rename_i hc
            split at h
            · simp at h
            · rename_i s _ hq
              obtain ⟨rfl, rfl⟩ := Prod.mk.inj (Except.ok.inj h)
              exact .inr (.inl ⟨hc, s, hq, rfl⟩)
          · split at h
            · rename_i hc
              split at h
              · simp at h
              · rename_i n _ hn
                obtain ⟨rfl, rfl⟩ := Prod.mk.inj (Except.ok.inj h)
                exact .inr (.inr (.inl ⟨hc, n, hn, rfl⟩))
            · split at h
              · rename_i hc
                exact .inr (.inr (.inr (.inl ⟨hc, h⟩)))
              · split at h
                · rename_i hc
                  exact .inr (.inr (.inr (.inr ⟨hc, h⟩)))
                · simp [failNext] at h

theorem stands_of_readAny {list object : List Char → Step Value} {v : Value}
    (hl : ∀ {cs v rest}, list cs = .ok (v, rest) → Contents .list true cs rest)
    (ho : ∀ {cs v rest}, object cs = .ok (v, rest) → Contents .object true cs rest)
    (h : readAny list object cs = .ok (v, rest)) : Stands (dropSpace cs) rest := by
  obtain ⟨c, more, hcs, ⟨letters, hw, hword, -⟩ | ⟨rfl, s, hq, -⟩ | ⟨-, n, hn, -⟩ | ⟨rfl, hlist⟩ |
    ⟨rfl, hobject⟩⟩ := readAny_cases h
  · exact hcs ▸ stands_of_word hw hword
  · exact hcs ▸ .text (quoted_of_readText hq)
  · exact hcs ▸ .number (numeral_of_readNumber hn)
  · exact hcs ▸ .container .list (hl hlist)
  · exact hcs ▸ .container .object (ho hobject)

theorem sound_value : Sound Reader.value := by
  intro room
  induction room with
  | zero =>
    intro cs v rest h
    refine stands_of_readAny ?_ ?_ h <;> (intro cs v rest hdeep; cases hdeep)
  | succ room ih =>
    intro cs v rest h
    refine stands_of_readAny ?_ ?_ h
    · intro cs v rest hl
      split at hl
      · cases hl
      · rename_i hb
        obtain ⟨-, rfl⟩ := Prod.mk.inj (Except.ok.inj hl)
        exact contents_of_listBody (fun hi => ih hi) hb
    · intro cs v rest ho
      split at ho
      · cases ho
      · rename_i hb
        obtain ⟨-, rfl⟩ := Prod.mk.inj (Except.ok.inj ho)
        exact contents_of_objectBody (assigned_of_keepMember fun hv => ih hv) hb

theorem sound_members : Sound Reader.members := by
  intro room cs ms rest h
  obtain ⟨room, contents, rfl, hcs, ho⟩ := ok_of_object h
  have ha {key : String} {kept kept' : Members} {cs rest : List Char}
      (hm : keepMember (Reader.value room) key kept cs = .ok (kept', rest)) : Assigned cs rest :=
    assigned_of_keepMember (fun hv => sound_value hv) hm
  exact hcs ▸ .container .object (contents_of_objectBody ha ho)

/-! ## Records -/

variable {βs : List Type} {α : Type}

theorem Record.sound_read {r : Record α βs} (hf : r.fields.Sound) : Sound r.read := by
  intro room cs a rest h
  obtain ⟨room, contents, -, ⟨hcs, ho⟩ | ⟨hcs, hl⟩⟩ := Record.read_cases h
  · exact hcs ▸ .container .object (Record.contents_of_readObject hf ho)
  · obtain ⟨row, behind, hi, hc, -⟩ := Record.items_of_readList hl
    exact hcs ▸ .container .list (contents_of_readItems hf hi hc)

theorem OpenRecord.assigned_of_member {r : OpenRecord α βs} (hf : r.fields.Sound) {room : Nat}
    {key : String} {state state' : Slots βs × Members}
    (h : r.member room key state cs = .ok (state', rest)) : Assigned cs rest := by
  rw [OpenRecord.member] at h
  split at h
  · rename_i hk
    split at h
    · cases h
    · rename_i hm
      obtain ⟨-, rfl⟩ := Prod.mk.inj (Except.ok.inj h)
      exact assigned_of_readMember hf hk hm
  · split at h
    · cases h
    · rename_i hm
      obtain ⟨-, rfl⟩ := Prod.mk.inj (Except.ok.inj h)
      exact assigned_of_keepMember (fun hv => sound_value hv) hm

theorem OpenRecord.sound_read {r : OpenRecord α βs} (hf : r.fields.Sound) : Sound r.read := by
  intro room cs a rest h
  obtain ⟨room, contents, rfl, hcs, ho⟩ := ok_of_object h
  exact hcs ▸ .container .object (contents_of_objectBody (OpenRecord.assigned_of_member hf) ho)

end LedgerClient.Json
