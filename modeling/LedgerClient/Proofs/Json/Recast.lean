import LedgerClient.Proofs.Json.FaithfulRecord

/-!
# Members that go through a record

Whatever a codec reads a reader of any value could have read as well, and what the codec writes is
that value again, but for a change that its type makes (`Codec.Recasts`). A field may leave a member
out or add one. `Fields.Seen` relates the slots that are filled so far to the values that they were
filled with; `Reader.entries` reads these along with the record. So a record that keeps its other
members gives back all members of its object, each as its field recasts it.
-/

namespace LedgerClient.Json

variable {cs rest : List Char}

/-! ## Codecs -/

/-- What a codec reads is a value of any type, and is written as that value after a change. -/
structure Codec.Recasts {α : Type} (c : Codec α) (change : Value → Value) : Prop where
  read : ∀ {room : Nat} {cs rest : List Char} {a : α}, c.read room cs = .ok (a, rest) →
    ∃ v, Reader.value room cs = .ok (v, rest) ∧ c.write a = (change v).chars
  plain : ∀ {room : Nat} {v : Value}, v.Plain room → (change v).Plain room

/-- Changes a text. -/
def Value.mapText (f : String → String) : Value → Value
  | .text s => .text (f s)
  | v => v

theorem value_of_text {room : Nat} {s : String} (h : Reader.text room cs = .ok (s, rest)) :
    Reader.value room cs = .ok (.text s, rest) := by
  obtain ⟨list, object, hvalue⟩ := exists_readAny room
  rw [Reader.text, atValue] at h
  split at h
  · cases h
  · rename_i c more hcs
    split at h
    · rename_i hc
      subst hc
      split at h
      · cases h
      · rename_i hs
        obtain ⟨rfl, rfl⟩ := Prod.mk.inj (Except.ok.inj h)
        rw [hvalue, readAny, hcs]
        simp [hs]
    · exact absurd h unexpected_ne_ok

theorem value_of_bool {room : Nat} {b : Bool} (h : Reader.bool room cs = .ok (b, rest)) :
    Reader.value room cs = .ok (.bool b, rest) := by
  obtain ⟨list, object, hvalue⟩ := exists_readAny room
  rw [Reader.bool, atValue] at h
  split at h
  · cases h
  · rename_i c more hcs
    split at h
    · rename_i hc
      subst hc
      obtain ⟨hw, rfl⟩ := ok_of_wordValue h
      rw [hvalue, readAny, hcs]
      simp [wordValue, hw]
    · split at h
      · rename_i hc
        subst hc
        obtain ⟨hw, rfl⟩ := ok_of_wordValue h
        rw [hvalue, readAny, hcs]
        simp [wordValue, hw]
      · exact absurd h unexpected_ne_ok

theorem value_of_integer {expected : String} {low high : Int} {room : Nat} {i : Int}
    (h : Reader.integer expected low high room cs = .ok (i, rest)) :
    Reader.value room cs = .ok (.number (.int i), rest) := by
  obtain ⟨list, object, hvalue⟩ := exists_readAny room
  obtain ⟨c, more, hcs, hc, hn, -⟩ := number_of_integer h
  have hnull : c ≠ 'n' := ne_of_digit hc (by decide)
  have htrue : c ≠ 't' := ne_of_digit hc (by decide)
  have hfalse : c ≠ 'f' := ne_of_digit hc (by decide)
  have hquote : c ≠ '"' := ne_of_digit hc (by decide)
  rw [hvalue, readAny, hcs]
  simp only [if_neg hnull, if_neg htrue, if_neg hfalse, if_neg hquote, if_pos hc, hn]

theorem value_of_dropSpace {room : Nat} {v : Value}
    (h : Reader.value room (dropSpace cs) = .ok (v, rest)) :
    Reader.value room cs = .ok (v, rest) := by
  obtain ⟨list, object, hvalue⟩ := exists_readAny room
  rw [hvalue, readAny] at h ⊢
  rwa [dropSpace_dropSpace] at h

theorem value_of_missing {α : Type} {read : Reader α} {room : Nat}
    (h : read.option room cs = .ok (none, rest)) :
    Reader.value room cs = .ok (.null, rest) := by
  obtain ⟨list, object, hvalue⟩ := exists_readAny room
  unfold Reader.option at h
  split at h
  · rename_i more hcs
    obtain ⟨hw, -⟩ := ok_of_wordValue h
    rw [hvalue, readAny, hcs]
    simp [wordValue, hw]
  · split at h <;> simp at h

namespace Codec

variable {α : Type} {c : Codec α}

theorem recasts_text : text.Recasts id where
  read h := ⟨_, value_of_text h, rfl⟩
  plain h := h

theorem recasts_bool : bool.Recasts id where
  read h := ⟨_, value_of_bool h, rfl⟩
  plain h := h

theorem recasts_natural (expected : String) (bits : Nat) :
    (natural expected bits).Recasts id where
  read {room cs rest n} h := by
    obtain ⟨i, hi, rfl⟩ := integer_of_natural h
    obtain ⟨-, -, -, -, -, hlow, -⟩ := number_of_integer hi
    obtain ⟨n, rfl⟩ := Int.eq_ofNat_of_zero_le hlow
    exact ⟨_, value_of_integer hi, rfl⟩
  plain h := h

theorem recasts_value : value.Recasts id where
  read h := ⟨_, h, rfl⟩
  plain h := h

theorem recasts_refined {parse : String → Except String α} {text : α → String}
    {change : String → String} (h : ∀ {s a}, parse s = .ok a → text a = change s) :
    (refined parse text).Recasts (Value.mapText change) where
  read {room cs rest a} hr := by
    have hr : Reader.refined parse room cs = .ok (a, rest) := hr
    rw [Reader.refined] at hr
    split at hr
    · cases hr
    · rename_i s _ hs
      split at hr
      · rename_i b hparse
        obtain ⟨rfl, rfl⟩ := Prod.mk.inj (Except.ok.inj hr)
        refine ⟨_, value_of_text hs, ?_⟩
        show textChars (text b) = textChars (change s)
        rw [h hparse]
      · cases hr
  plain h := by
    cases h with
    | text s => exact .text _
    | null => exact .null
    | bool b => exact .bool b
    | integer hlow hhigh => exact .integer hlow hhigh
    | list h => exact .list h
    | object hs h => exact .object hs h

end Codec

/-! ## Fields -/

/-- The value of a member that is left out if it is missing or `null`. -/
def Value.present (change : Value → Value) : Option Value → Option Value
  | none => none
  | some .null => none
  | some v => some (change v)

/-- What a field writes is the value that it was read off, if there was one, after a change. -/
structure Field.Recasts {β : Type} (field : Field β) (recast : Option Value → Option Value) :
    Prop where
  read : ∀ {room : Nat} {cs rest : List Char} {b : β}, field.read room cs = .ok (b, rest) →
    ∃ v, Reader.value room cs = .ok (v, rest) ∧ field.write b = (recast (some v)).map Value.chars
  absent : ∀ b ∈ field.absent, field.write b = (recast none).map Value.chars
  plain : ∀ {room : Nat} {v? : Option Value}, (∀ v ∈ v?, v.Plain room) →
    ∀ v ∈ recast v?, v.Plain room

namespace Field

variable {α : Type} {c : Codec α} {change : Value → Value}

theorem recasts_required (name : String) (hc : c.Recasts change) :
    (required name c).Recasts (Option.map change) where
  read h := by
    obtain ⟨v, hv, hwrite⟩ := hc.read h
    exact ⟨v, hv, congrArg some hwrite⟩
  absent := nofun
  plain h v hv := by
    obtain ⟨w, rfl, rfl⟩ := Option.map_eq_some_iff.mp hv
    exact hc.plain (h w rfl)

theorem recasts_defaulted (name : String) {default : α} {v : Value} (hc : c.Recasts id)
    (hd : c.write default = v.chars) (hp : ∀ room, v.Plain room) :
    (defaulted name c default).Recasts (fun v? => some (v?.getD v)) where
  read h := by
    obtain ⟨w, hw, hwrite⟩ := hc.read h
    exact ⟨w, hw, congrArg some hwrite⟩
  absent b hb := by
    obtain rfl := Option.some.inj hb
    exact congrArg some hd
  plain {room v?} h w hw := by
    obtain rfl := Option.some.inj hw
    cases v? with
    | none => exact hp room
    | some v => exact h v rfl

theorem recasts_optional (name : String) (hc : c.Recasts change) :
    (optional name c).Recasts (Value.present change) where
  read {room cs rest b} h := by
    cases b with
    | none => exact ⟨.null, value_of_missing h, rfl⟩
    | some a =>
      obtain ⟨hread, hn⟩ := value_of_option h
      obtain ⟨v, hv, hwrite⟩ := hc.read hread
      rw [← dropSpace_dropSpace] at hn
      have hnull := ne_null_of_value hv hn
      refine ⟨v, value_of_dropSpace hv, ?_⟩
      show some (c.write a) = (Value.present change (some v)).map Value.chars
      rw [hwrite]
      cases v <;> first | exact absurd rfl hnull | rfl
  absent b hb := by
    obtain rfl := Option.some.inj hb
    rfl
  plain {room v?} h w hw := by
    unfold Value.present at hw
    split at hw
    · cases hw
    · cases hw
    · obtain rfl := Option.some.inj hw
      exact hc.plain (h _ rfl)

end Field

/-! ## Records -/

variable {βs : List Type} {recast : String → Option Value → Option Value} {o : Members}

namespace Fields

/-- Each field recasts its member as is said for its name. -/
def Recasts (recast : String → Option Value → Option Value) : {βs : List Type} → Fields βs → Prop
  | _, .nil => True
  | _, .cons field rest => field.Recasts (recast field.name) ∧ rest.Recasts recast

/-- The slots that are filled are those whose fields have a member, and they hold what was read off
its value. -/
def Seen (recast : String → Option Value → Option Value) (o : Members) :
    {βs : List Type} → Fields βs → Slots βs → Prop
  | _, .nil, () => True
  | _, .cons field rest, (slot, slots) =>
    (match slot with
      | none => o.get? field.name = none
      | some b => ∃ v, o.get? field.name = some v ∧
          field.write b = (recast field.name (some v)).map Value.chars) ∧
    rest.Seen recast o slots

/-- The members that some fields give back of an object. -/
def recastAll (recast : String → Option Value → Option Value) (o : Members) :
    {βs : List Type} → Fields βs → List (String × Value)
  | _, .nil => []
  | _, .cons field rest =>
    match recast field.name (o.get? field.name) with
    | none => rest.recastAll recast o
    | some v => (field.name, v) :: rest.recastAll recast o

variable {fields : Fields βs} {slots slots' : Slots βs} {room : Nat} {key : String}

theorem seen_empty (fields : Fields βs) : fields.Seen recast [] fields.empty := by
  induction fields with
  | nil => exact trivial
  | cons field fields ih => exact ⟨rfl, ih⟩

theorem seen_insert (hk : fields.declares key = false) (v : Value)
    (hs : fields.Seen recast o slots) : fields.Seen recast (Members.insert key v o) slots := by
  induction fields with
  | nil => exact trivial
  | cons field fields ih =>
    obtain ⟨slot, slots⟩ := slots
    simp only [declares, Bool.or_eq_false_iff, beq_eq_false_iff_ne] at hk
    refine ⟨?_, ih hk.2 hs.2⟩
    rw [Members.get?_insert_of_ne hk.1.symm]
    exact hs.1

theorem seen_of_readMember (hr : fields.Recasts recast) (hd : fields.Distinct)
    (hk : fields.declares key = true) (hs : fields.Seen recast o slots)
    (h : fields.readMember room key slots cs = .ok (slots', rest)) :
    ∃ v, afterColon (Reader.value room) cs = .ok (v, rest) ∧
      fields.Seen recast (Members.insert key v o) slots' := by
  induction fields with
  | nil => simp [declares] at hk
  | cons field fields ih =>
    obtain ⟨slot, slots⟩ := slots
    by_cases hname : field.name = key
    · obtain ⟨rfl, b, rfl, hread⟩ := slots_of_named field hname h
      obtain ⟨item, hcolon, hitem⟩ := ok_of_afterColon hread
      obtain ⟨v, hv, hwrite⟩ := hr.1.read hitem
      refine ⟨v, by rw [afterColon, hcolon]; exact hv, ⟨v, ?_, hwrite⟩, ?_⟩
      · rw [hname, Members.get?_insert_self]
      · exact seen_insert (hname ▸ hd.1) v hs.2
    · obtain ⟨hslot, hread⟩ := slots_of_other hname h
      simp only [declares, beq_eq_false_iff_ne.mpr hname, Bool.false_or] at hk
      obtain ⟨v, hv, hseen⟩ := ih hr.2 hd.2 hk hs.2 hread
      refine ⟨v, hv, ?_, hseen⟩
      rw [hslot, Members.get?_insert_of_ne (Ne.symm hname)]
      exact hs.1

theorem texts_of_seen {row : Row βs} (hr : fields.Recasts recast)
    (hs : fields.Seen recast o slots) (h : fields.complete slots = .ok row) :
    fields.texts row = Value.memberTexts (fields.recastAll recast o) := by
  induction fields with
  | nil => rfl
  | cons field fields ih =>
    obtain ⟨slot, slots⟩ := slots
    obtain ⟨b, row⟩ := row
    obtain ⟨hb, hrow⟩ := complete_cases h
    have hrest := ih hr.2 hs.2 hrow
    have hwrite : field.write b = (recast field.name (o.get? field.name)).map Value.chars := by
      cases slot with
      | none =>
        have hnone : o.get? field.name = none := hs.1
        rw [hnone]
        exact hr.1.absent b hb
      | some b' =>
        obtain rfl := Option.some.inj hb
        obtain ⟨v, hv, hwrite⟩ := hs.1
        rw [hv, hwrite]
    simp only [texts, recastAll, hwrite]
    cases recast field.name (o.get? field.name) with
    | none => exact hrest
    | some v => rw [Option.map_some, Value.memberTexts, hrest]

theorem get?_recastAll (fields : Fields βs) (key : String) :
    (Members.ofList (fields.recastAll recast o)).get? key =
      if fields.declares key then recast key (o.get? key) else none := by
  induction fields with
  | nil => rfl
  | cons field fields ih =>
    have hcons (v : Value) :
        (Members.ofList ((field.name, v) :: fields.recastAll recast o)).get? key =
          ((Members.ofList (fields.recastAll recast o)).get? key).or
            (Members.get? key [(field.name, v)]) :=
      Members.get?_ofList_append key [(field.name, v)] _
    by_cases hname : field.name = key
    · subst hname
      cases hv : recast field.name (o.get? field.name) with
      | none => simp [recastAll, hv, ih]
      | some v =>
        simp only [recastAll, hv, hcons, ih]
        cases fields.declares field.name <;> simp [declares, Members.get?]
    · have hdeclares : (cons field fields).declares key = fields.declares key := by
        simp [declares, hname]
      rw [hdeclares, ← ih]
      cases hv : recast field.name (o.get? field.name) with
      | none => simp only [recastAll, hv]
      | some v =>
        have hfirst : Members.get? key [(field.name, v)] = none := by simp [Members.get?, hname]
        simp only [recastAll, hv, hcons, hfirst, Option.or_none]

theorem plain_of_mem_recastAll {m : String × Value} (hr : fields.Recasts recast)
    (ho : ∀ key, ∀ v ∈ o.get? key, v.Plain room) (h : m ∈ fields.recastAll recast o) :
    m.2.Plain room := by
  induction fields with
  | nil => exact absurd h List.not_mem_nil
  | cons field fields ih =>
    simp only [recastAll] at h
    split at h
    · exact ih hr.2 h
    · rename_i v hv
      rcases List.mem_cons.mp h with rfl | h
      · exact hr.1.plain (ho field.name) v hv
      · exact ih hr.2 h

end Fields

/-! ### Entries -/

theorem ok_of_keepEntry {value : List Char → Step Value} {key : String}
    {kept kept' : List (String × Value)} (h : keepEntry value key kept cs = .ok (kept', rest)) :
    ∃ v, afterColon value cs = .ok (v, rest) ∧ kept' = kept ++ [(key, v)] := by
  rw [keepEntry] at h
  split at h
  · simp at h
  · rename_i v _ hread
    obtain ⟨rfl, rfl⟩ := Prod.mk.inj (Except.ok.inj h)
    exact ⟨v, hread, rfl⟩

theorem assigned_of_keepEntry {room : Nat} {key : String} {kept kept' : List (String × Value)}
    (h : keepEntry (Reader.value room) key kept cs = .ok (kept', rest)) : Assigned cs rest := by
  obtain ⟨v, hread, -⟩ := ok_of_keepEntry h
  exact assigned_of_afterColon (fun hv => sound_value hv) hread

theorem plain_of_entries {room : Nat} {entries : List (String × Value)} (hi : Integral .outside cs)
    (h : Reader.entries room cs = .ok (entries, rest)) :
    ∃ inner, room = inner + 1 ∧ ∀ e ∈ entries, e.2.Plain inner := by
  obtain ⟨inner, contents, rfl, hcs, ho⟩ := ok_of_object h
  have hcontents : Integral .outside contents := (hcs ▸ integral_dropSpace hi).behind
  obtain ⟨state, behind, hread, hfinish, -⟩ := ok_of_objectBody ho
  obtain rfl := Except.ok.inj hfinish
  refine ⟨inner, rfl, readMembers_keeps assigned_of_keepEntry
    (P := fun entries => ∀ e ∈ entries, e.2.Plain inner) ?_ hread hcontents nofun⟩
  intro key kept cs kept' rest hi hkept hentry e he
  obtain ⟨v, hv, rfl⟩ := ok_of_keepEntry hentry
  obtain ⟨item, hcolon, hitem⟩ := ok_of_afterColon hv
  rcases List.mem_append.mp he with he | he
  · exact hkept e he
  · exact List.mem_singleton.mp he ▸ plain_of_value (integral_of_colon hcolon hi) hitem

theorem members_of_entries {room : Nat} {entries : List (String × Value)}
    (h : Reader.entries room cs = .ok (entries, rest)) :
    Reader.members room cs = .ok (Members.ofList entries, rest) := by
  obtain ⟨inner, contents, rfl, hcs, ho⟩ := ok_of_object h
  obtain ⟨state, behind, hread, hfinish, hclose⟩ := ok_of_objectBody ho
  obtain rfl := Except.ok.inj hfinish
  obtain ⟨ms, hms, rfl⟩ : ∃ ms, readMembers (keepMember (Reader.value inner)) contents true [] contents
      = .ok (ms, behind) ∧ ms = Members.ofList state := by
    refine readMembers_alongside (R := fun entries ms => ms = Members.ofList entries) hread hclose
      assigned_of_keepEntry ?_ rfl
    rintro key entries cs entries' rest ms hentry - rfl
    obtain ⟨v, hv, rfl⟩ := ok_of_keepEntry hentry
    exact ⟨_, by rw [keepMember, hv], (Members.ofList_append_singleton _ _).symm⟩
  rw [Reader.members, atValue, hcs]
  exact objectBody_of_ok hms rfl hclose

namespace OpenRecord

variable {α : Type} {r : OpenRecord α βs} {room : Nat}

/-- What a record has come to along some entries of its object. -/
def Gathered (r : OpenRecord α βs) (recast : String → Option Value → Option Value)
    (state : Slots βs × Members) (entries : List (String × Value)) : Prop :=
  r.fields.Seen recast (Members.ofList entries) state.1 ∧
    state.2 = Members.ofList (entries.filter fun e => !r.fields.declares e.1)

theorem gathered_of_member {key : String} {state state' : Slots βs × Members}
    {entries : List (String × Value)} (hr : r.fields.Recasts recast) (hd : r.fields.Distinct)
    (hs : r.Gathered recast state entries)
    (h : r.member room key state cs = .ok (state', rest)) :
    ∃ entries', keepEntry (Reader.value room) key entries cs = .ok (entries', rest) ∧
      r.Gathered recast state' entries' := by
  obtain ⟨hseen, hothers⟩ := hs
  rw [member] at h
  split at h
  · rename_i hk
    split at h
    · cases h
    · rename_i hread
      obtain ⟨rfl, rfl⟩ := Prod.mk.inj (Except.ok.inj h)
      obtain ⟨v, hv, hseen'⟩ := Fields.seen_of_readMember hr hd hk hseen hread
      refine ⟨entries ++ [(key, v)], by rw [keepEntry, hv], ?_, ?_⟩
      · rw [Members.ofList_append_singleton]
        exact hseen'
      · rw [List.filter_append, hothers]
        simp [hk]
  · rename_i hk
    split at h
    · cases h
    · rename_i others _ hread
      obtain ⟨rfl, rfl⟩ := Prod.mk.inj (Except.ok.inj h)
      obtain ⟨v, hv, rfl⟩ := ok_of_keepMember hread
      refine ⟨entries ++ [(key, v)], by rw [keepEntry, hv], ?_, ?_⟩
      · rw [Members.ofList_append_singleton]
        exact Fields.seen_insert (Bool.eq_false_iff.mpr hk) v hseen
      · have hlast : [(key, v)].filter (fun e => !r.fields.declares e.1) = [(key, v)] := by
          simp [hk]
        rw [List.filter_append, hlast, Members.ofList_append_singleton, hothers]

theorem entries_of_read {a : α} (hs : r.fields.Sound) (hr : r.fields.Recasts recast)
    (hd : r.fields.Distinct) (h : r.read room cs = .ok (a, rest)) :
    ∃ entries row, Reader.entries room cs = .ok (entries, rest) ∧
      a = r.make row (Members.ofList (entries.filter fun e => !r.fields.declares e.1)) ∧
      r.fields.texts row =
        Value.memberTexts (r.fields.recastAll recast (Members.ofList entries)) := by
  obtain ⟨inner, contents, rfl, hcs, ho⟩ := ok_of_object h
  obtain ⟨state, behind, hread, hfinish, hclose⟩ := ok_of_objectBody ho
  obtain ⟨row, hrow, rfl⟩ := ok_of_map hfinish
  obtain ⟨entries, hentries, hseen, hothers⟩ : ∃ entries,
      readMembers (keepEntry (Reader.value inner)) contents true [] contents
        = .ok (entries, behind) ∧ r.Gathered recast state entries :=
    readMembers_alongside hread hclose (assigned_of_member hs)
      (fun hm _ hR => gathered_of_member hr hd hR hm) ⟨Fields.seen_empty r.fields, rfl⟩
  refine ⟨entries, row, ?_, by rw [hothers], Fields.texts_of_seen hr hseen hrow⟩
  rw [Reader.entries, atValue, hcs]
  exact objectBody_of_ok hentries rfl hclose

/-- What becomes of the entries of an object that is read as a record. -/
structure Flattened (r : OpenRecord α βs) (recast : String → Option Value → Option Value)
    (entries : List (String × Value)) (a : α) : Prop where
  /-- Those that are not declared are kept, of each key the last one. -/
  others : r.others a = Members.ofList (entries.filter fun e => !r.fields.declares e.1)
  /-- All are given back, each recast. -/
  returned : ∃ ms, Codec.members.decode (r.codec.encode a) = .ok ms ∧
    ∀ key, ms.get? key = recast key ((Members.ofList entries).get? key)

/-- A record that keeps its other members loses none of those it is read off. -/
theorem flattened {text : String} {a : α} (hs : r.fields.Sound) (hr : r.fields.Recasts recast)
    (hd : r.fields.Distinct) (hrow : ∀ row others, r.row (r.make row others) = row)
    (hothers : ∀ row others, r.others (r.make row others) = others)
    (hrest : ∀ key, r.fields.declares key = false → ∀ v?, recast key v? = v?)
    (hi : Integral .outside text.toList) (h : r.codec.decode text = .ok a) :
    ∃ entries, Reader.entries.parse text = .ok entries ∧
      Codec.members.decode text = .ok (Members.ofList entries) ∧ r.Flattened recast entries a := by
  obtain ⟨rest, hread, hend⟩ := Reader.parse_eq_ok_iff.mp h
  have hread : r.read nestingLimit text.toList = .ok (a, rest) := hread
  obtain ⟨entries, row, hentries, rfl, htexts⟩ := entries_of_read hs hr hd hread
  obtain ⟨inner, hroom, hplain⟩ := plain_of_entries hi hentries
  obtain rfl : nestingLimit - 1 = inner := Nat.succ.inj hroom
  have hvalues : ∀ key, ∀ v ∈ (Members.ofList entries).get? key, v.Plain (nestingLimit - 1) :=
    fun key v hv => hplain _ (Members.mem_of_mem_ofList (Members.mem_of_get? hv))
  refine ⟨entries, Reader.parse_eq_ok_iff.mpr ⟨rest, hentries, hend⟩,
    Reader.parse_eq_ok_iff.mpr ⟨rest, members_of_entries hentries, hend⟩, hothers _ _, ?_⟩
  let declared := r.fields.recastAll recast (Members.ofList entries)
  let others := Members.ofList (entries.filter fun e => !r.fields.declares e.1)
  have hplain : ∀ m ∈ declared ++ others, m.2.Plain (nestingLimit - 1) := by
    intro m hm
    rcases List.mem_append.mp hm with hm | hm
    · exact Fields.plain_of_mem_recastAll hr hvalues hm
    · exact hplain m (List.mem_of_mem_filter (Members.mem_of_mem_ofList hm))
  have hwritten : r.codec.encode (r.make row others) =
      String.ofList (membersChars (Value.memberTexts (declared ++ others))) := by
    rw [memberTexts_eq_map, List.map_append, ← memberTexts_eq_map, ← memberTexts_eq_map, ← htexts]
    show String.ofList (membersChars (r.fields.texts (r.row (r.make row others)) ++
      Value.memberTexts (r.others (r.make row others)))) = _
    rw [hrow, hothers]
  refine ⟨_, hwritten ▸ parse_of_written (written_unsorted hplain), fun key => ?_⟩
  have hkept : others.get? key =
      if !r.fields.declares key then (Members.ofList entries).get? key else none :=
    Members.get?_ofList_filter key (fun key => !r.fields.declares key) entries
  rw [Members.get?_ofList_append, Members.ofList_of_sorted (Members.sorted_ofList _), hkept,
    Fields.get?_recastAll]
  cases hk : r.fields.declares key with
  | true => simp
  | false => simp [hrest key hk]

end OpenRecord

end LedgerClient.Json
