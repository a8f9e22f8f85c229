import LedgerClient.Proofs.Json.Alongside
import LedgerClient.Proofs.Json.WrittenValue

/-!
# Records that are written are read back

A record is read back off the members that it is written with: each field that is written is read
back into its slot (`Fields.Kept`), and one that is left out is what stands for a missing member.
Other members may stand in front, because they are passed over. `Reader.entries` reads the members of
an object as they stand there; it shows that a text has certain members and no more.
-/

namespace LedgerClient.Json

/-! ## Whole texts -/

theorem parse_of_written {α : Type} {read : Reader α} {text : List Char} {a : α}
    (h : Written (read nestingLimit) text a) : read.parse (String.ofList text) = .ok a := by
  have hread := h.back [] ended_nil
  rw [List.append_nil] at hread
  simp only [Reader.parse, Reader.run, String.toList_ofList, hread]
  rfl

/-! ## Objects as they stand -/

/-- Reads a member of an object whose members are kept in their order. -/
def keepEntry (value : List Char → Step Value) (key : String) (kept : List (String × Value))
    (cs : List Char) : Step (List (String × Value)) :=
  match afterColon value cs with
  | .error stop => .error stop
  | .ok (v, rest) => .ok (kept ++ [(key, v)], rest)

/-- Reads the members of an object in their order, those with the same key one after the other. -/
def Reader.entries : Reader (List (String × Value)) := fun room => atValue fun c rest =>
  if c = '\x7b' then
    match room with
    | 0 => tooDeep rest
    | room + 1 => objectBody [] (keepEntry (Reader.value room)) .ok rest
  else unexpected "a map" (c :: rest)

theorem taken_keepEntry {value : List Char → Step Value} {entries : List (String × Value)}
    (h : ∀ e ∈ entries, Written value e.2.chars e.2) (kept : List (String × Value)) :
    Taken (keepEntry value) (Value.memberTexts entries) kept (kept ++ entries) := by
  induction entries generalizing kept with
  | nil =>
    rw [List.append_nil]
    exact .nil
  | cons e entries ih =>
    have hrest := ih (fun e he => h e (List.mem_cons_of_mem _ he)) (kept ++ [(e.1, e.2)])
    rw [List.append_assoc, List.singleton_append] at hrest
    refine .cons (fun rest hr => ?_) hrest
    rw [keepEntry, afterColon_of_written (h e List.mem_cons_self) hr]

theorem written_entries {room : Nat} {entries : List (String × Value)}
    (h : ∀ e ∈ entries, e.2.Plain room) :
    Written (Reader.entries (room + 1)) (membersChars (Value.memberTexts entries)) entries :=
  written_membersChars (fun _ => rfl) (taken_keepEntry (fun e he => written_value (h e he)) []) rfl

theorem holds_of_plain {room : Nat} {entries : List (String × Value)}
    (h : ∀ e ∈ entries, e.2.Plain room) :
    Holds .object (membersChars (Value.memberTexts entries)) := by
  have hobject : ∃ body, membersChars (Value.memberTexts entries) = '\x7b' :: body ∧
      ∀ rest, objectBody [] (keepMember (Reader.value room)) .ok (body ++ rest) =
        .ok (Members.ofList entries, rest) :=
    objectBody_membersChars (taken_keepMember (fun e he => written_value (h e he)) []) rfl
  obtain ⟨body, hbody, hread⟩ := hobject
  have hcontents : Contents .object true (body ++ []) [] :=
    contents_of_objectBody (assigned_of_keepMember fun hv => sound_value hv) (hread [])
  rw [List.append_nil] at hcontents
  exact ⟨body, [], by rw [hbody]; exact dropSpace_of_solid (by decide) _, hcontents, rfl⟩

/-! ## Records -/

section

variable {σ : Type} {member : String → σ → List Char → Step σ}

theorem Taken.append {texts texts' : List (String × List Char)} {s s' s'' : σ}
    (h : Taken member texts s s') (h' : Taken member texts' s' s'') :
    Taken member (texts ++ texts') s s'' := by
  induction h with
  | nil => exact h'
  | cons hm _ ih => exact .cons hm (ih h')

theorem Taken.congr {τ : Type} {member' : String → τ → List Char → Step τ} {f : σ → τ}
    {texts : List (String × List Char)} {s s' : σ} (h : Taken member texts s s')
    (hm : ∀ t ∈ texts, ∀ {s s' : σ} {cs rest : List Char}, member t.1 s cs = .ok (s', rest) →
      member' t.1 (f s) cs = .ok (f s', rest)) :
    Taken member' texts (f s) (f s') := by
  induction h with
  | nil => exact .nil
  | cons hfirst _ ih =>
    exact .cons (fun rest hr => hm _ List.mem_cons_self (hfirst rest hr))
      (ih fun t ht => hm t (List.mem_cons_of_mem _ ht))

end

variable {βs : List Type} {room : Nat}

namespace Field

variable {β : Type} {c : Codec β} {b : β}

/-- A value is read back from its text, or stands for a missing member if it is left out. -/
def Kept (room : Nat) (field : Field β) (b : β) : Prop :=
  match field.write b with
  | none => field.absent = some b
  | some text => Written (field.read room) text b

/-- What is written of a value is read as another, or that stands for a missing member. -/
def ReadAs (room : Nat) (field : Field β) (b b' : β) : Prop :=
  match field.write b with
  | none => field.absent = some b'
  | some text => Written (field.read room) text b'

theorem Kept.readAs {field : Field β} (h : field.Kept room b) : field.ReadAs room b b := h

theorem kept_required (name : String) (h : Written (c.read room) (c.write b) b) :
    (Field.required name c).Kept room b := h

theorem kept_omitting (name : String) {default : β} {omits : β → Bool}
    (hd : omits b = true → b = default) (h : Written (c.read room) (c.write b) b) :
    (Field.omitting name c default omits).Kept room b := by
  unfold Kept Field.omitting
  simp only
  split
  · rename_i hnone
    split at hnone
    · rename_i homits
      rw [hd homits]
    · simp at hnone
  · rename_i text htext
    split at htext
    · simp at htext
    · exact Option.some.inj htext ▸ h

end Field

namespace Fields

/-- No two fields have the same name. -/
def Distinct : {βs : List Type} → Fields βs → Prop
  | _, .nil => True
  | _, .cons field rest => rest.declares field.name = false ∧ rest.Distinct

instance decidableDistinct : {βs : List Type} → (fields : Fields βs) → Decidable fields.Distinct
  | _, .nil => .isTrue trivial
  | _, .cons field rest =>
    have := decidableDistinct rest
    inferInstanceAs (Decidable (rest.declares field.name = false ∧ rest.Distinct))

/-- Each value of a row is read back, or stands for a missing member. -/
def Kept (room : Nat) : {βs : List Type} → Fields βs → Row βs → Prop
  | _, .nil, () => True
  | _, .cons field rest, (b, row) => field.Kept room b ∧ rest.Kept room row

/-- What is written of each value of a row is read as that of another row. -/
def ReadAs (room : Nat) : {βs : List Type} → Fields βs → Row βs → Row βs → Prop
  | _, .nil, () , () => True
  | _, .cons field rest, (b, row), (b', row') => field.ReadAs room b b' ∧ rest.ReadAs room row row'

theorem Kept.readAs {fields : Fields βs} {row : Row βs} (h : fields.Kept room row) :
    fields.ReadAs room row row := by
  induction fields with
  | nil => exact trivial
  | cons field fields ih => exact ⟨h.1.readAs, ih h.2⟩

theorem declares_of_mem_texts {fields : Fields βs} {row : Row βs} {t : String × List Char}
    (h : t ∈ fields.texts row) : fields.declares t.1 = true := by
  induction fields with
  | nil => exact absurd h List.not_mem_nil
  | cons field fields ih =>
    obtain ⟨b, row⟩ := row
    simp only [texts] at h
    split at h
    · simp [declares, ih h]
    · rcases List.mem_cons.mp h with rfl | h
      · simp [declares]
      · simp [declares, ih h]

theorem taken_other {β : Type} {field : Field β} {fields : Fields βs} {row : Row βs}
    {slots slots' : Slots βs} (slot : Option β) (hd : fields.declares field.name = false)
    (h : Taken (fun key => fields.readMember room key) (fields.texts row) slots slots') :
    Taken (fun key => (cons field fields).readMember room key) (fields.texts row)
      (slot, slots) (slot, slots') := by
  refine h.congr (f := fun slots => (slot, slots)) fun t ht _ _ _ _ hread => ?_
  have hne : field.name ≠ t.1 := by
    intro he
    rw [he, declares_of_mem_texts ht] at hd
    simp at hd
  exact readMember_other hne hread

theorem taken_texts {fields : Fields βs} {row row' : Row βs} (hd : fields.Distinct)
    (hk : fields.ReadAs room row row') :
    ∃ slots, Taken (fun key => fields.readMember room key) (fields.texts row) fields.empty slots ∧
      fields.complete slots = .ok row' := by
  induction fields with
  | nil => exact ⟨(), .nil, rfl⟩
  | cons field fields ih =>
    obtain ⟨b, row⟩ := row
    obtain ⟨b', row'⟩ := row'
    obtain ⟨hname, hd⟩ := hd
    obtain ⟨hb, hk⟩ := hk
    obtain ⟨slots, htaken, hrow⟩ := ih hd hk
    unfold Field.ReadAs at hb
    simp only [texts]
    split
    · -- the field is left out
      rename_i hwrite
      simp only [hwrite] at hb
      exact ⟨(none, slots), taken_other none hname htaken, complete_cons field hb hrow⟩
    · rename_i text hwrite
      simp only [hwrite] at hb
      refine ⟨(some b', slots), .cons (fun rest hr => ?_) (taken_other (some b') hname htaken),
        complete_cons field rfl hrow⟩
      exact readMember_named field rfl (afterColon_of_written hb hr)

end Fields

namespace Record

variable {α : Type} {r : Record α βs}

theorem taken_undeclared {members : List (String × Value)} {slots : Slots βs}
    (h : ∀ m ∈ members, m.2.Plain room ∧ r.fields.declares m.1 = false) (room' : Nat) :
    Taken (r.member room') (Value.memberTexts members) slots slots := by
  induction members with
  | nil => exact .nil
  | cons m members ih =>
    refine .cons (fun rest hr => ?_) (ih fun m hm => h m (List.mem_cons_of_mem _ hm))
    obtain ⟨hplain, hdeclares⟩ := h m List.mem_cons_self
    have ha : Assigned (':' :: (m.2.chars ++ rest)) rest :=
      assigned_of_afterColon (fun hv => sound_value hv)
        (afterColon_of_written (written_value hplain) hr)
    exact member_of_undeclared hdeclares ha hr

theorem written_of_taken {texts : List (String × List Char)} {slots : Slots βs} {row : Row βs}
    (h : Taken (r.member room) texts r.fields.empty slots)
    (hrow : r.fields.complete slots = .ok row) :
    Written (r.read (room + 1)) (membersChars texts) (r.make row) := by
  have hfinish : (r.fields.complete slots).map r.make = .ok (r.make row) := by
    rw [hrow]
    rfl
  exact written_membersChars (fun _ => rfl) h hfinish

theorem decode_of_taken {texts : List (String × List Char)} {slots : Slots βs} {row : Row βs}
    (h : Taken (r.member (nestingLimit - 1)) texts r.fields.empty slots)
    (hrow : r.fields.complete slots = .ok row) :
    r.codec.decode (String.ofList (membersChars texts)) = .ok (r.make row) :=
  parse_of_written (written_of_taken h hrow)

theorem written_as {members : List (String × Value)} {room' : Nat} {a : α} {row : Row βs}
    (hd : r.fields.Distinct) (hk : r.fields.ReadAs room (r.row a) row)
    (hm : ∀ m ∈ members, m.2.Plain room' ∧ r.fields.declares m.1 = false) :
    Written (r.read (room + 1)) (membersChars (Value.memberTexts members ++ r.texts a))
      (r.make row) := by
  obtain ⟨slots, htaken, hrow⟩ := Fields.taken_texts hd hk
  have hfields : Taken (r.member room) (r.texts a) r.fields.empty slots := by
    refine htaken.congr (f := fun slots => slots) fun t ht _ _ _ _ hread => ?_
    rw [member_of_declared (Fields.declares_of_mem_texts ht)]
    exact hread
  exact written_of_taken ((taken_undeclared hm _).append hfields) hrow

/-- A record is read back from an object with its members behind others that it does not
declare. -/
theorem written_texts {members : List (String × Value)} {room' : Nat} {a : α}
    (hd : r.fields.Distinct) (hk : r.fields.Kept room (r.row a))
    (hm : ∀ m ∈ members, m.2.Plain room' ∧ r.fields.declares m.1 = false) :
    Written (r.read (room + 1)) (membersChars (Value.memberTexts members ++ r.texts a))
      (r.make (r.row a)) :=
  written_as hd hk.readAs hm

theorem written_alone_as {a : α} {row : Row βs} (hd : r.fields.Distinct)
    (hk : r.fields.ReadAs room (r.row a) row) :
    Written (r.read (room + 1)) (r.codec.write a) (r.make row) :=
  have hnone : ∀ m ∈ ([] : List (String × Value)),
      m.2.Plain 0 ∧ r.fields.declares m.1 = false := nofun
  written_as hd hk hnone

theorem written_alone {a : α} (hd : r.fields.Distinct) (hk : r.fields.Kept room (r.row a)) :
    Written (r.read (room + 1)) (r.codec.write a) (r.make (r.row a)) :=
  written_alone_as hd hk.readAs

theorem decode_texts {members : List (String × Value)} {room' : Nat} {a : α}
    (hd : r.fields.Distinct) (hk : r.fields.Kept (nestingLimit - 1) (r.row a))
    (hm : ∀ m ∈ members, m.2.Plain room' ∧ r.fields.declares m.1 = false) :
    r.codec.decode (String.ofList (membersChars (Value.memberTexts members ++ r.texts a))) =
      .ok (r.make (r.row a)) :=
  parse_of_written (written_texts hd hk hm)

end Record

end LedgerClient.Json
