import LedgerClient.Json.Record
import LedgerClient.Proofs.Json.Literal

/-!
# What readers pass over is JSON

A reader is `Sound` if nothing but a value stands in front of what it leaves of a text. Passing over
a value is sound: `Within` says what the open containers still ask for, and each round of
`skipWithin` meets a part of it. A record is sound if the readers of its fields are, so a record
that was read off a whole text is an object or a list (`holds_of_decode`).
-/

namespace LedgerClient.Json

variable {cs rest : List Char}

/-! ## Parts of containers -/

theorem ok_of_map {ε α β : Type} {f : α → β} {read : Except ε α} {b : β} (h : read.map f = .ok b) :
    ∃ a, read = .ok a ∧ f a = b := by
  cases read with
  | error stop => cases h
  | ok a => exact ⟨a, rfl, Except.ok.inj h⟩

theorem eq_of_colon (h : colon cs = .ok rest) : dropSpace cs = ':' :: rest := by
  rw [colon] at h
  split at h
  · cases h
  · rename_i hcs
    split at h
    · rename_i hc
      rw [hcs, hc, Except.ok.inj h]
    · cases h

theorem eq_of_closeObject (h : closeObject cs = .ok rest) : dropSpace cs = '\x7d' :: rest := by
  rw [closeObject] at h
  split at h
  · cases h
  · rename_i hcs
    split at h
    · rename_i hc
      rw [hcs, hc, Except.ok.inj h]
    · cases h

theorem eq_of_closeList (h : closeList cs = .ok rest) : dropSpace cs = ']' :: rest := by
  rw [closeList] at h
  split at h
  · cases h
  · rename_i hcs
    split at h
    · rename_i hc
      rw [hcs, hc, Except.ok.inj h]
    · split at h
      · split at h <;> cases h
      · cases h

theorem separated_of_nextKey {first : Bool} {next : Next} (h : nextKey first cs = .ok next) :
    match next with
    | .closing rest => rest = dropSpace cs ∧ ∃ behind, rest = '\x7d' :: behind
    | .part rest => ∃ lead, Separated first cs lead ∧ dropSpace lead = '"' :: rest := by
  rw [nextKey] at h
  split at h
  · cases h
  · rename_i c more hcs
    split at h
    · rename_i hc
      exact Except.ok.inj h ▸ ⟨hcs.symm, more, hc ▸ rfl⟩
    · split at h
      · rename_i hfirst
        split at h
        · rename_i hc
          exact Except.ok.inj h ▸ ⟨cs, by rw [hfirst, Separated], hc ▸ hcs⟩
        · cases h
      · rename_i hfirst
        split at h
        · rename_i hc
          split at h
          · cases h
          · rename_i d behind hmore
            split at h
            · rename_i hd
              obtain rfl := Except.ok.inj h
              exact ⟨more, by rw [Bool.eq_false_iff.mpr hfirst, Separated, hcs, hc], hd ▸ hmore⟩
            · split at h <;> cases h
        · cases h

theorem nextKey_of_closed {first : Bool} (h : dropSpace cs = '\x7d' :: rest) :
    nextKey first cs = .ok (.closing ('\x7d' :: rest)) := by
  rw [nextKey, h]
  rfl

theorem nextKey_of_quote {after : List Char} (h : dropSpace cs = '"' :: after) :
    nextKey true cs = .ok (.part after) := by
  rw [nextKey, h]
  rfl

theorem nextKey_of_comma {lead after : List Char} (h : dropSpace cs = ',' :: lead)
    (hq : dropSpace lead = '"' :: after) : nextKey false cs = .ok (.part after) := by
  simp [nextKey, h, hq]

theorem separated_of_nextItem {first : Bool} {next : Next} (h : nextItem first cs = .ok next) :
    match next with
    | .closing rest => rest = dropSpace cs ∧ ∃ behind, rest = ']' :: behind
    | .part rest => ∃ lead, Separated first cs lead ∧ dropSpace lead = rest ∧
        ∃ c more, rest = c :: more ∧ c ≠ ']' := by
  rw [nextItem] at h
  split at h
  · cases h
  · rename_i c more hcs
    split at h
    · rename_i hc
      exact Except.ok.inj h ▸ ⟨hcs.symm, more, hc ▸ rfl⟩
    · rename_i hclose
      split at h
      · rename_i hfirst
        exact Except.ok.inj h ▸ ⟨cs, by rw [hfirst, Separated], hcs, c, more, rfl, hclose⟩
      · rename_i hfirst
        split at h
        · rename_i hc
          split at h
          · cases h
          · rename_i d behind hmore
            split at h
            · cases h
            · rename_i hclose
              obtain rfl := Except.ok.inj h
              exact ⟨more, by rw [Bool.eq_false_iff.mpr hfirst, Separated, hcs, hc], hmore, d,
                behind, rfl, hclose⟩
        · cases h

theorem nextItem_of_closed {first : Bool} (h : dropSpace cs = ']' :: rest) :
    nextItem first cs = .ok (.closing (']' :: rest)) := by
  rw [nextItem, h]
  rfl

theorem nextItem_of_separated {first : Bool} {lead : List Char} {c : Char}
    (hs : Separated first cs lead) (hlead : dropSpace lead = c :: rest) (hc : c ≠ ']') :
    nextItem first cs = .ok (.part (c :: rest)) := by
  cases first with
  | true =>
    obtain rfl : lead = cs := hs
    simp [nextItem, hlead, hc]
  | false =>
    have hcomma : dropSpace cs = ',' :: lead := hs
    simp [nextItem, hcomma, hlead, hc]

theorem led_of_skipToValue {kind : Container} (h : skipToValue kind cs = .ok rest) :
    Led kind cs rest := by
  cases kind with
  | list => exact (Except.ok.inj h).symm
  | object =>
    rw [skipToValue] at h
    split at h
    · cases h
    · rename_i c key hcs
      split at h
      · rename_i hc
        split at h
        · cases h
        · rename_i behind hkey
          exact ⟨key, behind, hc ▸ hcs, quoted_of_skipText hkey, eq_of_colon h⟩
      · cases h

theorem led_dropSpace {kind : Container} {item : List Char} (h : Led kind (dropSpace cs) item) :
    ∃ item', Led kind cs item' ∧ dropSpace item = dropSpace item' := by
  cases kind with
  | list =>
    obtain rfl : item = dropSpace cs := h
    exact ⟨cs, rfl, dropSpace_dropSpace cs⟩
  | object =>
    obtain ⟨key, colon, hkey, hq, hcolon⟩ := h
    rw [dropSpace_dropSpace] at hkey
    exact ⟨item, ⟨key, colon, hkey, hq, hcolon⟩, rfl⟩

/-! ## Passing over a value -/

theorem stands_of_skipOpening {opening : Opening} (h : skipOpening cs = .ok opening) :
    match opening with
    | .scalar rest => Stands (dropSpace cs) rest
    | .container kind rest => dropSpace cs = kind.bracket :: rest := by
  rw [skipOpening] at h
  split at h
  · cases h
  · rename_i c more hcs
    rw [hcs]
    split at h
    · rename_i hc
      obtain ⟨rest, hw, rfl⟩ := ok_of_map h
      exact hc ▸ stands_of_word (by decide) hw
    · split at h
      · rename_i hc
        obtain ⟨rest, hw, rfl⟩ := ok_of_map h
        exact hc ▸ stands_of_word (by decide) hw
      · split at h
        · rename_i hc
          obtain ⟨rest, hw, rfl⟩ := ok_of_map h
          exact hc ▸ stands_of_word (by decide) hw
        · split at h
          · rename_i hc
            obtain ⟨rest, hq, rfl⟩ := ok_of_map h
            exact hc ▸ .text (quoted_of_skipText hq)
          · split at h
            · obtain ⟨rest, hn, rfl⟩ := ok_of_map h
              exact .number (numeral_of_skipNumber hn)
            · split at h
              · rename_i hc
                exact Except.ok.inj h ▸ hc ▸ rfl
              · split at h
                · rename_i hc
                  exact Except.ok.inj h ▸ hc ▸ rfl
                · cases h

/-- What is still to come while containers are open: the innermost one is gone through first. -/
def Within : List Container → List Char → List Char → Prop
  | [], cs, rest => rest = cs
  | kind :: opened, cs, rest => ∃ behind, Contents kind false cs behind ∧ Within opened behind rest

theorem within_of_skipWithin {bound : List Char} {opened : List Container} {behind : Bool}
    (h : skipWithin bound opened behind cs = .ok rest) :
    match behind with
    | true => Within opened cs rest
    | false => ∃ after, Stands (dropSpace cs) after ∧ Within opened after rest := by
  induction bound generalizing opened behind cs with
  | nil =>
    cases behind with
    | false => cases opened <;> cases h
    | true =>
      cases opened with
      | nil => exact (Except.ok.inj h).symm
      | cons kind opened => cases h
  | cons _ bound ih =>
    cases behind with
    | true =>
      cases opened with
      | nil => exact (Except.ok.inj h).symm
      | cons kind opened =>
        rw [skipWithin] at h
        split at h
        · cases h
        · rename_i c more hcs
          split at h
          · rename_i hc
            split at h
            · cases h
            · rename_i hl
              obtain ⟨after, hs, behind, hk, hw⟩ := ih h
              have hcomma : Separated false cs more := by rw [Separated, hcs, hc]
              exact ⟨behind, .value hcomma (led_of_skipToValue hl) hs hk, hw⟩
          · split at h
            · rename_i hc
              exact ⟨more, .close (hc ▸ hcs), ih h⟩
            · cases h
    | false =>
      rw [skipWithin] at h
      split at h
      · cases h
      · rename_i ho
        exact ⟨_, stands_of_skipOpening ho, ih h⟩
      · rename_i kind rest ho
        have hcs : dropSpace cs = kind.bracket :: rest := stands_of_skipOpening ho
        rw [hcs]
        split at h
        · cases h
        · rename_i c more hrest
          split at h
          · rename_i hc
            exact ⟨more, .container kind (.close (hc ▸ hrest)), ih h⟩
          · split at h
            · cases h
            · rename_i hl
              obtain ⟨after, hs, behind, hk, hw⟩ := ih h
              obtain ⟨item, hitem, he⟩ := led_dropSpace (hrest ▸ led_of_skipToValue hl)
              exact ⟨behind, .container kind (.value rfl hitem (he ▸ hs) hk), hw⟩

theorem stands_of_skip (h : skip cs = .ok rest) : Stands (dropSpace cs) rest := by
  obtain ⟨after, hs, hw⟩ := within_of_skipWithin h
  exact hw ▸ hs

/-! ## Readers -/

/-- A reader leaves what stands behind a value. -/
def Sound {α : Type} (read : Reader α) : Prop :=
  ∀ ⦃room : Nat⦄ ⦃cs : List Char⦄ ⦃a : α⦄ ⦃rest : List Char⦄,
    read room cs = .ok (a, rest) → Stands (dropSpace cs) rest

theorem unexpected_ne_ok {α : Type} {expected : String} {a : α} :
    unexpected expected cs ≠ .ok (a, rest) := by
  intro h
  simp only [unexpected] at h
  repeat' split at h
  all_goals cases h

theorem sound_text : Sound Reader.text := by
  intro room cs a rest h
  rw [Reader.text, atValue] at h
  split at h
  · cases h
  · rename_i c more hcs
    rw [hcs]
    split at h
    · rename_i hc
      split at h
      · cases h
      · rename_i hq
        obtain ⟨-, rfl⟩ := Prod.mk.inj (Except.ok.inj h)
        exact hc ▸ .text (quoted_of_readText hq)
    · exact absurd h unexpected_ne_ok

theorem number_of_integer {expected : String} {low high : Int} {room : Nat} {i : Int}
    (h : Reader.integer expected low high room cs = .ok (i, rest)) :
    ∃ c more, dropSpace cs = c :: more ∧ (c = '-' ∨ isDigit c = true) ∧
      readNumber (c :: more) = .ok (.int i, rest) ∧ low ≤ i ∧ i ≤ high := by
  rw [Reader.integer, atValue] at h
  split at h
  · cases h
  · rename_i c more hcs
    split at h
    · rename_i hc
      split at h
      · cases h
      · rename_i hn
        split at h
        · rename_i hrange
          obtain ⟨rfl, rfl⟩ := Prod.mk.inj (Except.ok.inj h)
          exact ⟨c, more, hcs, hc, hn, hrange⟩
        · cases h
      · cases h
    · exact absurd h unexpected_ne_ok

theorem sound_integer (expected : String) (low high : Int) :
    Sound (Reader.integer expected low high) := by
  intro room cs i rest h
  obtain ⟨c, more, hcs, -, hn, -⟩ := number_of_integer h
  exact hcs ▸ .number (numeral_of_readNumber hn)

theorem integer_of_natural {expected : String} {bits room n : Nat}
    (h : (Codec.natural expected bits).read room cs = .ok (n, rest)) :
    ∃ i : Int, Reader.integer expected 0 ((1 <<< bits : Nat) - 1) room cs = .ok (i, rest) ∧
      n = i.toNat := by
  simp only [Codec.natural] at h
  split at h
  · cases h
  · rename_i i _ hi
    obtain ⟨rfl, rfl⟩ := Prod.mk.inj (Except.ok.inj h)
    exact ⟨i, hi, rfl⟩

theorem sound_natural (expected : String) (bits : Nat) :
    Sound (Codec.natural expected bits).read := by
  intro room cs n rest h
  obtain ⟨i, hi, -⟩ := integer_of_natural h
  exact sound_integer _ _ _ hi

theorem sound_option {α : Type} {read : Reader α} (h : Sound read) : Sound read.option := by
  intro room cs a rest ho
  unfold Reader.option at ho
  split at ho
  · rename_i more hcs
    rw [hcs]
    simp only [wordValue] at ho
    split at ho
    · cases ho
    · rename_i hw
      obtain ⟨-, rfl⟩ := Prod.mk.inj (Except.ok.inj ho)
      exact stands_of_word (by decide) hw
  · split at ho
    · cases ho
    · rename_i hr
      obtain ⟨-, rfl⟩ := Prod.mk.inj (Except.ok.inj ho)
      rw [← dropSpace_dropSpace]
      exact h hr

/-! ## Records -/

/-- The rest of a member of an object behind its key: a colon and a value. -/
def Assigned (cs rest : List Char) : Prop :=
  ∃ value, dropSpace cs = ':' :: value ∧ Stands (dropSpace value) rest

theorem assigned_of_afterColon {α : Type} {value : List Char → Step α} {a : α}
    (hv : ∀ {cs a rest}, value cs = .ok (a, rest) → Stands (dropSpace cs) rest)
    (h : afterColon value cs = .ok (a, rest)) : Assigned cs rest := by
  rw [afterColon] at h
  split at h
  · cases h
  · rename_i behind hc
    exact ⟨behind, eq_of_colon hc, hv h⟩

def Fields.Sound : {βs : List Type} → Fields βs → Prop
  | _, .nil => True
  | _, .cons field rest => Json.Sound field.read ∧ rest.Sound

variable {βs : List Type} {room : Nat}

theorem assigned_of_readMember {fields : Fields βs} {key : String} {slots slots' : Slots βs}
    (hf : fields.Sound) (hk : fields.declares key = true)
    (h : fields.readMember room key slots cs = .ok (slots', rest)) : Assigned cs rest := by
  induction fields with
  | nil => cases hk
  | cons field fields ih =>
    obtain ⟨slot, slots⟩ := slots
    simp only [Fields.readMember] at h
    split at h
    · cases slot with
      | some b => cases h
      | none =>
        simp only at h
        split at h
        · cases h
        · rename_i hr
          obtain ⟨-, rfl⟩ := Prod.mk.inj (Except.ok.inj h)
          exact assigned_of_afterColon (fun hv => hf.1 hv) hr
    · rename_i hname
      split at h
      · cases h
      · rename_i hm
        obtain ⟨-, rfl⟩ := Prod.mk.inj (Except.ok.inj h)
        refine ih hf.2 ?_ hm
        simpa [Fields.declares, hname] using hk

namespace Record

variable {α : Type} {r : Record α βs}

theorem assigned_of_member {key : String} {slots slots' : Slots βs} (hf : r.fields.Sound)
    (h : r.member room key slots cs = .ok (slots', rest)) : Assigned cs rest := by
  rw [member] at h
  split at h
  · rename_i hk
    exact assigned_of_readMember hf hk h
  · split at h
    · cases h
    · rename_i value hc
      split at h
      · cases h
      · rename_i hs
        obtain ⟨-, rfl⟩ := Prod.mk.inj (Except.ok.inj h)
        exact ⟨value, eq_of_colon hc, stands_of_skip hs⟩

end Record

theorem ok_of_enclose {α : Type} {close : List Char → Except Stop (List Char)}
    {settle : List Char → List Char} {read : Step α} {a : α}
    (h : enclose close settle read = .ok (a, rest)) :
    ∃ behind, read = .ok (a, behind) ∧ close behind = .ok rest := by
  unfold enclose at h
  split at h
  · rename_i b behind
    split at h
    · rename_i hc
      obtain ⟨rfl, rfl⟩ := Prod.mk.inj (Except.ok.inj h)
      exact ⟨behind, rfl, hc⟩
    · cases h
  · cases h
  · cases h

theorem readMembers_induction {σ : Type} {member : String → σ → List Char → Step σ} {s' : σ}
    {rest : List Char} {motive : List Char → Bool → σ → List Char → Prop}
    (closing : ∀ {bound first cs}, nextKey first cs = .ok (.closing rest) →
      motive bound first s' cs)
    (member_first : ∀ {b bound first s cs part key after s₁ behind},
      nextKey first cs = .ok (.part part) → readText part = .ok (key, after) →
      member (String.ofList key) s after = .ok (s₁, behind) →
      readMembers member bound false s₁ behind = .ok (s', rest) →
      motive bound false s₁ behind → motive (b :: bound) first s cs)
    {bound : List Char} {first : Bool} {s : σ}
    (h : readMembers member bound first s cs = .ok (s', rest)) : motive bound first s cs := by
  induction bound generalizing first s cs with
  | nil =>
    rw [readMembers] at h
    split at h
    · cases h
    · rename_i hn
      obtain ⟨rfl, rfl⟩ := Prod.mk.inj (Except.ok.inj h)
      exact closing hn
    · cases h
  | cons b bound ih =>
    rw [readMembers] at h
    split at h
    · cases h
    · rename_i hn
      obtain ⟨rfl, rfl⟩ := Prod.mk.inj (Except.ok.inj h)
      exact closing hn
    · rename_i hn
      simp only at h
      split at h
      · cases h
      · rename_i hkey
        split at h
        · cases h
        · rename_i hmember
          exact member_first hn hkey hmember h (ih h)

theorem contents_of_readMembers {σ : Type} {member : String → σ → List Char → Step σ}
    (hm : ∀ {key state cs state' rest}, member key state cs = .ok (state', rest) → Assigned cs rest)
    {bound : List Char} {first : Bool} {state state' : σ} {behind : List Char}
    (h : readMembers member bound first state cs = .ok (state', behind))
    (hc : dropSpace behind = '\x7d' :: rest) : Contents .object first cs rest := by
  refine readMembers_induction (motive := fun _ first _ cs => Contents .object first cs rest)
    ?_ ?_ h
  · intro _ first cs hn
    rw [(separated_of_nextKey hn).1, dropSpace_dropSpace] at hc
    exact .close hc
  · intro _ _ _ _ _ _ _ _ _ _ hn hkey hmember _ ih
    obtain ⟨lead, hs, hquote⟩ := separated_of_nextKey hn
    obtain ⟨value, hcolon, hv⟩ := hm hmember
    exact .value hs ⟨_, _, hquote, quoted_of_readText hkey, hcolon⟩ hv ih

theorem ok_of_objectBody {σ α : Type} {start : σ} {member : String → σ → List Char → Step σ}
    {finish : σ → Except Cause α} {a : α}
    (h : objectBody start member finish cs = .ok (a, rest)) :
    ∃ state behind, readMembers member cs true start cs = .ok (state, behind) ∧
      finish state = .ok a ∧ dropSpace behind = '\x7d' :: rest := by
  obtain ⟨behind, hr, hc⟩ := ok_of_enclose h
  split at hr
  · cases hr
  · rename_i state _ hm
    split at hr
    · rename_i hf
      obtain ⟨rfl, rfl⟩ := Prod.mk.inj (Except.ok.inj hr)
      exact ⟨state, _, hm, hf, eq_of_closeObject hc⟩
    · cases hr

theorem ok_of_object {α : Type} {body : Nat → List Char → Step α} {expected : String} {room : Nat}
    {a : α}
    (h : atValue (fun c rest =>
      if c = '\x7b' then
        match room with
        | 0 => tooDeep rest
        | room + 1 => body room rest
      else unexpected expected (c :: rest)) cs = .ok (a, rest)) :
    ∃ inner contents, room = inner + 1 ∧ dropSpace cs = '\x7b' :: contents ∧
      body inner contents = .ok (a, rest) := by
  rw [atValue] at h
  split at h
  · cases h
  · rename_i c contents hcs
    split at h
    · rename_i hc
      cases room with
      | zero => cases h
      | succ room => exact ⟨room, contents, rfl, hc ▸ hcs, h⟩
    · exact absurd h unexpected_ne_ok

theorem Reader.parse_eq_ok_iff {α : Type} {read : Reader α} {text : String} {a : α} :
    read.parse text = .ok a ↔
      ∃ rest, read nestingLimit text.toList = .ok (a, rest) ∧ dropSpace rest = [] := by
  constructor
  · intro h
    simp only [Reader.parse, Reader.run] at h
    split at h
    · cases h
    · rename_i b rest hr
      split at h
      · rename_i hd
        exact ⟨rest, Except.ok.inj h ▸ hr, hd⟩
      · cases h
  · rintro ⟨rest, hr, hd⟩
    simp only [Reader.parse, Reader.run, hr, hd]
    rfl

theorem Fields.readItems_cases {β : Type} {field : Field β} {fields : Fields βs} {expected : String}
    {index : Nat} {row : Row (β :: βs)}
    (h : (Fields.cons field fields).readItems room expected index cs = .ok (row, rest)) :
    (∃ item behind, nextItem (index == 0) cs = .ok (.part item) ∧
        field.read room item = .ok (row.1, behind) ∧
        fields.readItems room expected (index + 1) behind = .ok (row.2, rest)) ∨
      ∃ behind, dropSpace cs = ']' :: behind ∧ field.lacking = some row.1 ∧
        fields.readItems room expected (index + 1) (']' :: behind) = .ok (row.2, rest) := by
  unfold Fields.readItems at h
  split at h
  · cases h
  · rename_i item hn
    split at h
    · cases h
    · rename_i hr
      split at h
      · cases h
      · rename_i hrest
        obtain ⟨rfl, rfl⟩ := Prod.mk.inj (Except.ok.inj h)
        exact .inl ⟨item, _, hn, hr, hrest⟩
  · rename_i hn
    obtain ⟨hcs, behind, rfl⟩ := separated_of_nextItem hn
    split at h
    · cases h
    · rename_i hl
      split at h
      · cases h
      · rename_i hrest
        obtain ⟨rfl, rfl⟩ := Prod.mk.inj (Except.ok.inj h)
        exact .inr ⟨behind, hcs.symm, hl, hrest⟩

theorem contents_of_readItems {fields : Fields βs} {expected : String} {index : Nat} {row : Row βs}
    {behind : List Char} (hf : fields.Sound)
    (h : fields.readItems room expected index cs = .ok (row, behind))
    (hc : dropSpace behind = ']' :: rest) : Contents .list (index == 0) cs rest := by
  induction fields generalizing index cs with
  | nil =>
    obtain ⟨-, rfl⟩ := Prod.mk.inj (Except.ok.inj h)
    exact .close hc
  | cons field fields ih =>
    rcases Fields.readItems_cases h with ⟨item, after, hn, hr, hrest⟩ | ⟨after, hcs, -, hrest⟩
    · obtain ⟨lead, hs, rfl, -⟩ := separated_of_nextItem hn
      have hv := hf.1 hr
      rw [dropSpace_dropSpace] at hv
      exact .value hs rfl hv (ih hf.2 hrest)
    · -- the other fields find the end of the list again
      have hend := dropSpace_cons hcs
      cases ih hf.2 hrest with
      | close he => exact .close (hcs.trans (hend.symm.trans he))
      | value hs =>
        have hs : dropSpace (']' :: after) = ',' :: _ := hs
        rw [hend] at hs
        cases hs

namespace Record

variable {α : Type} {r : Record α βs} {a : α}

theorem contents_of_readObject (hf : r.fields.Sound) (h : r.readObject room cs = .ok (a, rest)) :
    Contents .object true cs rest := by
  obtain ⟨state, behind, hm, -, hc⟩ := ok_of_objectBody h
  exact contents_of_readMembers (assigned_of_member hf) hm hc

theorem items_of_readList (h : r.readList room cs = .ok (a, rest)) :
    ∃ row behind, r.fields.readItems room r.expectation 0 cs = .ok (row, behind) ∧
      dropSpace behind = ']' :: rest ∧ a = r.make row := by
  obtain ⟨behind, hr, hc⟩ := ok_of_enclose h
  split at hr
  · cases hr
  · rename_i row _ hi
    obtain ⟨rfl, rfl⟩ := Prod.mk.inj (Except.ok.inj hr)
    exact ⟨row, _, hi, eq_of_closeList hc, rfl⟩

theorem read_cases (h : r.read room cs = .ok (a, rest)) :
    ∃ inner contents, room = inner + 1 ∧
      ((dropSpace cs = '\x7b' :: contents ∧ r.readObject inner contents = .ok (a, rest)) ∨
        (dropSpace cs = '[' :: contents ∧ r.readList inner contents = .ok (a, rest))) := by
  rw [read, atValue] at h
  split at h
  · cases h
  · rename_i c contents hcs
    split at h
    · rename_i hc
      cases room with
      | zero => cases h
      | succ room => exact ⟨room, contents, rfl, .inr ⟨hc ▸ hcs, h⟩⟩
    · split at h
      · rename_i hc
        cases room with
        | zero => cases h
        | succ room => exact ⟨room, contents, rfl, .inl ⟨hc ▸ hcs, h⟩⟩
      · exact absurd h unexpected_ne_ok

/-! ### Whole texts -/

variable {text : String}

theorem read_of_decode (h : r.codec.decode text = .ok a) :
    ∃ rest, r.read nestingLimit text.toList = .ok (a, rest) ∧ dropSpace rest = [] :=
  Reader.parse_eq_ok_iff.mp h

theorem holds_of_decode (hf : r.fields.Sound) (h : r.codec.decode text = .ok a) :
    Holds .object text.toList ∨ Holds .list text.toList := by
  obtain ⟨rest, hr, hrest⟩ := read_of_decode h
  obtain ⟨room, contents, -, ⟨hcs, ho⟩ | ⟨hcs, hl⟩⟩ := read_cases hr
  · exact .inl ⟨contents, rest, hcs, contents_of_readObject hf ho, hrest⟩
  · obtain ⟨row, behind, hi, hc, -⟩ := items_of_readList hl
    exact .inr ⟨contents, rest, hcs, contents_of_readItems hf hi hc, hrest⟩

theorem items_of_decode {contents : List Char} (h : r.codec.decode text = .ok a)
    (hl : dropSpace text.toList = '[' :: contents) :
    ∃ room row behind rest, r.fields.readItems room r.expectation 0 contents = .ok (row, behind) ∧
      dropSpace behind = ']' :: rest ∧ a = r.make row := by
  obtain ⟨rest, hr, -⟩ := read_of_decode h
  obtain ⟨room, other, -, ⟨hcs, -⟩ | ⟨hcs, hr⟩⟩ := read_cases hr
  · rw [hl] at hcs
    cases hcs
  · obtain rfl := List.tail_eq_of_cons_eq (hl.symm.trans hcs)
    obtain ⟨row, behind, hi, hc, ha⟩ := items_of_readList hr
    exact ⟨room, row, behind, rest, hi, hc, ha⟩

end Record

end LedgerClient.Json
