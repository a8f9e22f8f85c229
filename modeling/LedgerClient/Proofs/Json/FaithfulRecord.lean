import LedgerClient.Proofs.Json.Faithful

/-!
# Records that are read are written to be read again

The values of a record that comes off an integral text are those that its fields yield, whether it
was an object or a list (`Record.yields_of_read`). If the fields are faithful and no two of them
have the same name, the record is faithful; one that keeps its other members is so as well.
-/

namespace LedgerClient.Json

variable {α : Type} {βs : List Type} {room : Nat} {cs rest : List Char}

/-! ## Fields -/

namespace Fields

/-- Each value of a row is one that its field yields. -/
def Yields (room : Nat) : {βs : List Type} → Fields βs → Row βs → Prop
  | _, .nil, () => True
  | _, .cons field rest, (b, row) => field.Yields room b ∧ rest.Yields room row

/-- Each value that was read so far is one that its field yields. -/
def Filled (room : Nat) : {βs : List Type} → Fields βs → Slots βs → Prop
  | _, .nil, () => True
  | _, .cons field rest, (slot, slots) =>
    (∀ b ∈ slot, field.Yields room b) ∧ rest.Filled room slots

def Faithful : {βs : List Type} → Fields βs → Prop
  | _, .nil => True
  | _, .cons field rest => field.Faithful ∧ rest.Faithful

variable {fields : Fields βs}

theorem kept_of_yields {row : Row βs} (hf : fields.Faithful) (h : fields.Yields room row) :
    fields.Kept room row := by
  induction fields with
  | nil => exact trivial
  | cons field fields ih => exact ⟨hf.1 h.1, ih hf.2 h.2⟩

theorem filled_empty (fields : Fields βs) : fields.Filled room fields.empty := by
  induction fields with
  | nil => exact trivial
  | cons field fields ih => exact ⟨nofun, ih⟩

theorem filled_of_readMember {key : String} {slots slots' : Slots βs} (hi : Integral .outside cs)
    (hs : fields.Filled room slots)
    (h : fields.readMember room key slots cs = .ok (slots', rest)) : fields.Filled room slots' := by
  induction fields with
  | nil => exact trivial
  | cons field fields ih =>
    obtain ⟨slot, slots⟩ := slots
    simp only [readMember] at h
    split at h
    · split at h
      · simp at h
      · split at h
        · simp at h
        · rename_i b _ hread
          obtain ⟨rfl, -⟩ := Prod.mk.inj (Except.ok.inj h)
          obtain ⟨item, hcolon, hitem⟩ := ok_of_afterColon hread
          have hyields : field.Yields room b := .inl ⟨item, _, integral_of_colon hcolon hi, hitem⟩
          exact ⟨fun b' hb => Option.some.inj hb ▸ hyields, hs.2⟩
    · split at h
      · simp at h
      · rename_i hread
        obtain ⟨rfl, rfl⟩ := Prod.mk.inj (Except.ok.inj h)
        exact ⟨hs.1, ih hs.2 hread⟩

theorem yields_of_complete {slots : Slots βs} {row : Row βs} (hs : fields.Filled room slots)
    (h : fields.complete slots = .ok row) : fields.Yields room row := by
  induction fields with
  | nil => exact trivial
  | cons field fields ih =>
    obtain ⟨slot, slots⟩ := slots
    obtain ⟨hb, hrow⟩ := complete_cases h
    refine ⟨?_, ih hs.2 hrow⟩
    cases slot with
    | none => exact .inr (.inl hb)
    | some b => exact hs.1 _ hb

theorem yields_of_readItems {expected : String} {index : Nat} {row : Row βs}
    (hs : fields.Sound) (hi : Integral (Zone.inside (index == 0)) cs)
    (h : fields.readItems room expected index cs = .ok (row, rest)) : fields.Yields room row := by
  induction fields generalizing index cs with
  | nil => exact trivial
  | cons field fields ih =>
    have hinside : Zone.inside (index + 1 == 0) = .number := rfl
    rcases readItems_cases h with ⟨item, behind, hn, hread, hrest⟩ | ⟨behind, hcs, hl, hrest⟩
    · have hitem := integral_of_nextItem hn hi
      have hbehind := integral_of_stands (hs.1 hread) (integral_dropSpace hitem)
      exact ⟨.inl ⟨item, behind, hitem, hread⟩, ih hs.2 (hinside ▸ hbehind) hrest⟩
    · -- the list has ended, and the other fields are in front of its end as well
      have hend : Integral .number (']' :: behind) := hcs ▸ hi.inside.number_dropSpace
      exact ⟨.inr (.inr hl), ih hs.2 (hinside ▸ hend) hrest⟩

end Fields

/-! ## Records -/

namespace Record

variable {r : Record α βs}

theorem filled_of_member {key : String} {slots slots' : Slots βs} (hi : Integral .outside cs)
    (hs : r.fields.Filled room slots) (h : r.member room key slots cs = .ok (slots', rest)) :
    r.fields.Filled room slots' := by
  rw [member] at h
  split at h
  · exact Fields.filled_of_readMember hi hs h
  · split at h
    · simp at h
    · split at h
      · simp at h
      · obtain ⟨rfl, -⟩ := Prod.mk.inj (Except.ok.inj h)
        exact hs

theorem yields_of_read {a : α} (hs : r.fields.Sound) (hi : Integral .outside cs)
    (h : r.read room cs = .ok (a, rest)) :
    ∃ inner row, room = inner + 1 ∧ r.fields.Yields inner row ∧ a = r.make row := by
  have hfirst := integral_dropSpace hi
  obtain ⟨inner, contents, rfl, ⟨hcs, ho⟩ | ⟨hcs, hl⟩⟩ := read_cases h
  · rw [hcs] at hfirst
    obtain ⟨slots, behind, hread, hfinish, -⟩ := ok_of_objectBody ho
    obtain ⟨row, hrow, rfl⟩ := ok_of_map hfinish
    have hfilled := readMembers_keeps (assigned_of_member hs) filled_of_member hread hfirst.behind
      (Fields.filled_empty r.fields)
    exact ⟨inner, row, rfl, Fields.yields_of_complete hfilled hrow, rfl⟩
  · rw [hcs] at hfirst
    obtain ⟨row, behind, hitems, -, rfl⟩ := items_of_readList hl
    have hcontents : Integral (Zone.inside (0 == 0)) contents := hfirst.behind
    exact ⟨inner, row, rfl, Fields.yields_of_readItems hs hcontents hitems, rfl⟩

theorem yields_of_decode {text : String} {a : α} (hs : r.fields.Sound)
    (hrow : ∀ row, r.row (r.make row) = row) (hi : Integral .outside text.toList)
    (h : r.codec.decode text = .ok a) : r.fields.Yields (nestingLimit - 1) (r.row a) := by
  obtain ⟨rest, hread, -⟩ := read_of_decode h
  obtain ⟨inner, row, hroom, hyields, rfl⟩ := yields_of_read hs hi hread
  obtain rfl : nestingLimit - 1 = inner := Nat.succ.inj hroom
  rwa [hrow]

/-- A record of faithful fields is faithful. -/
theorem faithful_codec (hs : r.fields.Sound) (hf : r.fields.Faithful) (hd : r.fields.Distinct)
    (hrow : ∀ row, r.row (r.make row) = row) : r.codec.Faithful where
  back hi h := by
    obtain ⟨inner, row, rfl, hyields, rfl⟩ := yields_of_read hs hi h
    have hkept : r.fields.Kept inner (r.row (r.make row)) := by
      rw [hrow]
      exact Fields.kept_of_yields hf hyields
    have hwritten := written_alone hd hkept
    rwa [hrow] at hwritten
  present _ _ _ := head?_membersChars _

end Record

namespace OpenRecord

variable {r : OpenRecord α βs}

/-- The other members that a record keeps: plain ones that it does not declare. -/
def Others (r : OpenRecord α βs) (room : Nat) (others : Members) : Prop :=
  others.Plain room ∧ ∀ m ∈ others, r.fields.declares m.1 = false

theorem filled_of_member {key : String} {state state' : Slots βs × Members}
    (hi : Integral .outside cs) (hs : r.fields.Filled room state.1 ∧ r.Others room state.2)
    (h : r.member room key state cs = .ok (state', rest)) :
    r.fields.Filled room state'.1 ∧ r.Others room state'.2 := by
  obtain ⟨hslots, hplain, hdeclares⟩ := hs
  rw [member] at h
  split at h
  · split at h
    · simp at h
    · rename_i hread
      obtain ⟨rfl, -⟩ := Prod.mk.inj (Except.ok.inj h)
      exact ⟨Fields.filled_of_readMember hi hslots hread, hplain, hdeclares⟩
  · rename_i hkey
    split at h
    · simp at h
    · rename_i others _ hread
      obtain ⟨rfl, -⟩ := Prod.mk.inj (Except.ok.inj h)
      obtain ⟨v, -, rfl⟩ := ok_of_keepMember hread
      refine ⟨hslots, plain_keepMember plain_of_value hi hplain hread, fun m hm => ?_⟩
      rcases Members.eq_or_mem_of_mem_insert hm with rfl | hm
      · exact Bool.eq_false_iff.mpr hkey
      · exact hdeclares m hm

theorem yields_of_read {a : α} (hs : r.fields.Sound) (hi : Integral .outside cs)
    (h : r.read room cs = .ok (a, rest)) :
    ∃ inner row others, room = inner + 1 ∧ r.fields.Yields inner row ∧ r.Others inner others ∧
      a = r.make row others := by
  obtain ⟨inner, contents, rfl, hcs, ho⟩ := ok_of_object h
  have hcontents : Integral .outside contents := (hcs ▸ integral_dropSpace hi).behind
  obtain ⟨state, behind, hread, hfinish, -⟩ := ok_of_objectBody ho
  obtain ⟨row, hrow, rfl⟩ := ok_of_map hfinish
  have hstart : r.fields.Filled inner r.fields.empty ∧ r.Others inner [] :=
    ⟨Fields.filled_empty r.fields, ⟨List.Pairwise.nil, by simp⟩, by simp⟩
  obtain ⟨hfilled, hothers⟩ := readMembers_keeps (assigned_of_member hs)
    (P := fun state => r.fields.Filled inner state.1 ∧ r.Others inner state.2)
    filled_of_member hread hcontents hstart
  exact ⟨inner, row, state.2, rfl, Fields.yields_of_complete hfilled hrow, hothers, rfl⟩

/-- A record that keeps its other members is read back from its fields and these. -/
theorem written_texts {a : α} (hd : r.fields.Distinct) (hk : r.fields.Kept room (r.row a))
    (ho : r.Others room (r.others a)) :
    Written (r.read (room + 1)) (membersChars (r.texts a)) (r.make (r.row a) (r.others a)) := by
  obtain ⟨slots, htaken, hrow⟩ := Fields.taken_texts hd hk.readAs
  have hfields : Taken (r.member room) (r.fields.texts (r.row a)) (r.fields.empty, [])
      (slots, []) := by
    refine htaken.congr (f := fun slots => (slots, [])) fun t ht _ _ _ _ hread => ?_
    rw [member, if_pos (Fields.declares_of_mem_texts ht), hread]
  have hothers : Taken (r.member room) (Value.memberTexts (r.others a)) (slots, [])
      (slots, Members.ofList (r.others a)) := by
    have hkept := taken_keepMember (fun m hm => written_value (ho.1.2 m hm)) []
    refine hkept.congr (f := fun others => (slots, others)) fun t ht _ _ _ _ hread => ?_
    rw [memberTexts_eq_map] at ht
    obtain ⟨m, hm, rfl⟩ := List.mem_map.mp ht
    rw [member, if_neg (Bool.eq_false_iff.mp (ho.2 m hm)), hread]
  rw [Members.ofList_of_sorted ho.1.1] at hothers
  have hfinish : (r.fields.complete slots).map (r.make · (r.others a)) =
      .ok (r.make (r.row a) (r.others a)) := by
    rw [hrow]
    rfl
  exact written_membersChars (fun _ => rfl) (hfields.append hothers) hfinish

/-- A record of faithful fields that keeps its other members is faithful. -/
theorem faithful_codec (hs : r.fields.Sound) (hf : r.fields.Faithful) (hd : r.fields.Distinct)
    (hrow : ∀ row others, r.row (r.make row others) = row)
    (hothers : ∀ row others, r.others (r.make row others) = others) : r.codec.Faithful where
  back hi h := by
    obtain ⟨inner, row, others, rfl, hyields, ho, rfl⟩ := yields_of_read hs hi h
    have hkept : r.fields.Kept inner (r.row (r.make row others)) := by
      rw [hrow]
      exact Fields.kept_of_yields hf hyields
    have ho : r.Others inner (r.others (r.make row others)) := by rwa [hothers]
    have hwritten := written_texts hd hkept ho
    rwa [hrow, hothers] at hwritten
  present _ _ _ := head?_membersChars _

end OpenRecord

end LedgerClient.Json
