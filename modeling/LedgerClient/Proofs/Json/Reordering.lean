import LedgerClient.Proofs.Json.Local

/-!
# Records do not depend on the order of members

If the readers of its members are local, an object is read member by member, whatever the blanks
between them (`decode_layout`): each member is a step from the slots filled so far to others. Steps
of a record commute, because each fills the slot of its own key or none, so the members may stand in
any order (`decode_of_perm`), and those that are not declared may be there or not
(`decode_of_insert`).
-/

namespace LedgerClient.Json

variable {cs value rest : List Char}

/-! ## Members -/

theorem toOption_eq_some {ε α : Type} {read : Except ε α} {a : α} :
    read.toOption = some a ↔ read = .ok a := by
  cases read with
  | error e => simp [Except.toOption]
  | ok b => simp [Except.toOption]

theorem toOption_lift {α β : Type} (f : α → β) (read : Step α) :
    (match read with
      | .error stop => .error stop
      | .ok (a, rest) => .ok (f a, rest) : Step β).toOption =
      read.toOption.map fun p => (f p.1, p.2) := by
  cases read <;> rfl

section

variable {σ : Type} {member : String → σ → List Char → Step σ}

/-- What a member comes to does not depend on the blanks in front of its colon nor on what stands
behind its value. -/
def LocalMember (member : String → σ → List Char → Step σ) : Prop :=
  ∀ ⦃key : String⦄ ⦃s : σ⦄ ⦃between value rest : List Char⦄, Blank between →
    Stands (dropSpace value) [] → Ended rest →
    (member key s (between ++ ':' :: (value ++ rest))).toOption =
      (member key s (':' :: value)).toOption.map fun p => (p.1, rest)

/-- Reads a member of an object from behind the opening quote of its key on. -/
def keyed (member : String → σ → List Char → Step σ) (s : σ) (cs : List Char) : Step σ :=
  match readText cs with
  | .error stop => .error stop
  | .ok (key, rest) => member (String.ofList key) s rest

/-- What a loop over the members of an object has come to behind a member. -/
def MemberLayout.step (member : String → σ → List Char → Step σ) (m : MemberLayout) (s : σ) :
    Option σ :=
  (keyed member s (m.key ++ ':' :: m.value)).toOption.map (·.1)

/-- What it has come to behind some members. -/
def MemberLayout.steps (member : String → σ → List Char → Step σ) (ms : List MemberLayout)
    (s : Option σ) : Option σ :=
  ms.foldl (fun s m => s.bind (m.step member)) s

theorem MemberLayout.steps_none (ms : List MemberLayout) :
    MemberLayout.steps member ms none = none := by
  induction ms with
  | nil => rfl
  | cons m ms ih => exact ih

theorem keyed_layout (hm : LocalMember member) (m : MemberLayout) (s : σ) (hr : Ended rest) :
    (keyed member s (m.key ++ (m.between ++ ':' :: (m.value ++ rest)))).toOption =
      (m.step member s).map fun s' => (s', rest) := by
  unfold MemberLayout.step keyed
  cases hkey : readText (m.key ++ ':' :: m.value) with
  | ok p =>
    obtain ⟨key, after⟩ := p
    obtain rfl := rest_of_quoted ((cut_of_quoted m.quoted).append _) (quoted_of_readText hkey)
    rw [readText_append m.quoted hkey]
    simp only [hm m.blank_between m.stands hr, Option.map_map]
    rfl
  | error stop =>
    cases hread : readText (m.key ++ (m.between ++ ':' :: (m.value ++ rest))) with
    | error stop' => rfl
    | ok p =>
      rw [readText_append m.quoted hread] at hkey
      simp at hkey

theorem readMembers_part {b : Char} {bound after : List Char} {first : Bool} {s : σ}
    (h : nextKey first cs = .ok (.part after)) :
    (readMembers member (b :: bound) first s cs).toOption =
      (keyed member s after).toOption.bind fun p =>
        (readMembers member bound false p.1 p.2).toOption := by
  rw [readMembers, h, keyed]
  simp only
  cases readText after with
  | error stop => rfl
  | ok p =>
    simp only
    cases member (String.ofList p.1) s p.2 <;> rfl

theorem readMembers_close {bound : List Char} {first : Bool} {s : σ}
    (h : dropSpace cs = '\x7d' :: rest) :
    readMembers member bound first s cs = .ok (s, '\x7d' :: rest) := by
  unfold readMembers
  rw [nextKey_of_closed h]

theorem ended_behind {blanks : List Char} {c : Char} (hb : Blank blanks)
    (hc : c ∈ [',', ':', ']', '\x7d']) : Ended (blanks ++ c :: rest) := by
  refine ended_of_dropSpace (dropSpace_eq hb ?_ rest) hc
  simp only [List.mem_cons, List.not_mem_nil, or_false] at hc
  rcases hc with rfl | rfl | rfl | rfl <;> decide

theorem ended_more {blanks inner : List Char} (ms : List MemberLayout) (hb : Blank blanks)
    (hi : Blank inner) : Ended (blanks ++ MemberLayout.more ms (inner ++ '\x7d' :: rest)) := by
  cases ms with
  | nil =>
    rw [MemberLayout.more, ← List.append_assoc]
    refine ended_behind (fun c hc => ?_) (by decide)
    exact (List.mem_append.mp hc).elim (hb c) (hi c)
  | cons m ms => exact ended_behind hb (by decide)

theorem readMembers_behind (hm : LocalMember member) {bound blanks inner : List Char}
    (ms : List MemberLayout) (s : σ) (hb : Blank blanks) (hi : Blank inner)
    (hbound : ms.length ≤ bound.length) :
    (readMembers member bound false s
      (blanks ++ MemberLayout.more ms (inner ++ '\x7d' :: rest))).toOption =
      (MemberLayout.steps member ms (some s)).map fun s' => (s', '\x7d' :: rest) := by
  induction ms generalizing bound blanks s with
  | nil =>
    have hclose : dropSpace (blanks ++ MemberLayout.more [] (inner ++ '\x7d' :: rest)) =
        '\x7d' :: rest := by
      rw [dropSpace_append hb]
      exact dropSpace_eq hi (by decide) rest
    rw [readMembers_close hclose]
    rfl
  | cons m ms ih =>
    obtain ⟨b, bound, rfl⟩ := List.exists_cons_of_length_pos (Nat.zero_lt_of_lt hbound)
    have hnext : nextKey false (blanks ++ MemberLayout.more (m :: ms) (inner ++ '\x7d' :: rest)) =
        .ok (.part (m.key ++ (m.between ++ ':' :: (m.value ++
          (m.behind ++ MemberLayout.more ms (inner ++ '\x7d' :: rest)))))) :=
      nextKey_of_comma (dropSpace_eq hb (by decide) _) (dropSpace_eq m.blank_before (by decide) _)
    have hsteps : MemberLayout.steps member (m :: ms) (some s) =
        MemberLayout.steps member ms (m.step member s) := rfl
    rw [readMembers_part hnext, keyed_layout hm m s (ended_more ms m.blank_behind hi), hsteps]
    cases m.step member s with
    | none =>
      rw [MemberLayout.steps_none]
      rfl
    | some s' => exact ih s' m.blank_behind (Nat.le_of_succ_le_succ hbound)

theorem readMembers_all (hm : LocalMember member) {bound inner : List Char}
    (ms : List MemberLayout) (s : σ) (hi : Blank inner) (hbound : ms.length < bound.length) :
    (readMembers member bound true s (MemberLayout.all ms (inner ++ '\x7d' :: rest))).toOption =
      (MemberLayout.steps member ms (some s)).map fun s' => (s', '\x7d' :: rest) := by
  cases ms with
  | nil =>
    have hclose : dropSpace (MemberLayout.all [] (inner ++ '\x7d' :: rest)) = '\x7d' :: rest :=
      dropSpace_eq hi (by decide) rest
    rw [readMembers_close hclose]
    rfl
  | cons m ms =>
    obtain ⟨b, bound, rfl⟩ := List.exists_cons_of_length_pos (Nat.zero_lt_of_lt hbound)
    have hnext : nextKey true (MemberLayout.all (m :: ms) (inner ++ '\x7d' :: rest)) =
        .ok (.part (m.key ++ (m.between ++ ':' :: (m.value ++
          (m.behind ++ MemberLayout.more ms (inner ++ '\x7d' :: rest)))))) :=
      nextKey_of_quote (dropSpace_eq m.blank_before (by decide) _)
    have hsteps : MemberLayout.steps member (m :: ms) (some s) =
        MemberLayout.steps member ms (m.step member s) := rfl
    rw [readMembers_part hnext, keyed_layout hm m s (ended_more ms m.blank_behind hi), hsteps]
    cases m.step member s with
    | none =>
      rw [MemberLayout.steps_none]
      rfl
    | some s' =>
      exact readMembers_behind hm ms s' m.blank_behind hi
        (Nat.le_of_lt (Nat.lt_of_succ_lt_succ hbound))

theorem toOption_objectBody {α : Type} (start : σ) (finish : σ → Except Cause α) (cs : List Char) :
    (objectBody start member finish cs).toOption =
      (readMembers member cs true start cs).toOption.bind fun p =>
        (finish p.1).toOption.bind fun a =>
          (closeObject p.2).toOption.map fun rest => (a, rest) := by
  unfold objectBody
  cases readMembers member cs true start cs with
  | error stop => cases stop <;> rfl
  | ok p =>
    simp only [Except.toOption, Option.bind_some]
    cases finish p.1 with
    | error cause => rfl
    | ok a =>
      simp only [enclose]
      cases closeObject p.2 <;> rfl

/-- An object is read member by member, whatever blanks stand between them. -/
theorem objectBody_all {α : Type} (hm : LocalMember member) {inner : List Char}
    (ms : List MemberLayout) (start : σ) (finish : σ → Except Cause α) (hi : Blank inner)
    (rest : List Char) :
    (objectBody start member finish (MemberLayout.all ms (inner ++ '\x7d' :: rest))).toOption =
      ((MemberLayout.steps member ms (some start)).bind fun s => (finish s).toOption).map
        fun a => (a, rest) := by
  have hclose : closeObject ('\x7d' :: rest) = .ok rest := rfl
  have hlen := MemberLayout.length_lt_all ms inner rest
  rw [toOption_objectBody, readMembers_all hm ms start hi hlen]
  cases MemberLayout.steps member ms (some start) with
  | none => rfl
  | some s =>
    simp only [Option.map_some, Option.bind_some, hclose]
    cases finish s <;> rfl

end

/-! ## Records -/

theorem Local.toOption_append {α : Type} {read : Reader α} (hl : Local read) {room : Nat}
    (hv : Stands (dropSpace value) []) (hr : Ended rest) :
    (read room (value ++ rest)).toOption = (read room value).toOption.map fun p => (p.1, rest) := by
  refine Option.ext fun ⟨a, behind⟩ => ?_
  rw [toOption_eq_some, Option.map_eq_some_iff]
  constructor
  · intro h
    have hsame := hl hv hr h rest hr
    have halone := hl hv hr h [] ended_nil
    rw [List.append_nil] at halone
    obtain ⟨-, rfl⟩ := Prod.mk.inj (Except.ok.inj (h.symm.trans hsame))
    exact ⟨(a, []), toOption_eq_some.mpr halone, rfl⟩
  · rintro ⟨⟨b, after⟩, h, he⟩
    obtain ⟨rfl, rfl⟩ := Prod.mk.inj he
    have h := toOption_eq_some.mp h
    rw [← List.append_nil value] at h
    exact hl hv ended_nil h rest hr

def Fields.Local : {βs : List Type} → Fields βs → Prop
  | _, .nil => True
  | _, .cons field rest => Json.Local field.read ∧ rest.Local

variable {βs : List Type} {room : Nat} {key : String}

theorem colon_append {between : List Char} (hb : Blank between) (cs : List Char) :
    colon (between ++ ':' :: cs) = .ok cs := by
  rw [colon, dropSpace_eq hb (by decide)]
  rfl

namespace Fields

/-- The slots behind a member, if its value can be read into the slot of its key. -/
def set? (room : Nat) (key : String) (value : List Char) (fields : Fields βs) (slots : Slots βs) :
    Option (Slots βs) :=
  (fields.readMember room key slots (':' :: value)).toOption.map (·.1)

/-- The value of a field alone. -/
def value? {β : Type} (room : Nat) (field : Field β) (value : List Char) : Option β :=
  (field.read room value).toOption.map (·.1)

theorem set?_named {β : Type} {field : Field β} {fields : Fields βs} {slot : Option β}
    {slots : Slots βs} (hk : field.name = key) :
    (cons field fields).set? room key value (slot, slots) =
      match slot with
      | some _ => none
      | none => (value? room field value).map fun b => (some b, slots) := by
  have hcolon : colon (':' :: value) = .ok value := rfl
  unfold set? value?
  simp only [readMember, if_pos hk]
  cases slot with
  | some b => rfl
  | none =>
    simp only [afterColon, hcolon]
    cases field.read room value <;> rfl

theorem set?_other {β : Type} {field : Field β} {fields : Fields βs} {slot : Option β}
    {slots : Slots βs} (hk : field.name ≠ key) :
    (cons field fields).set? room key value (slot, slots) =
      (fields.set? room key value slots).map fun slots => (slot, slots) := by
  unfold set?
  simp only [readMember, if_neg hk]
  cases fields.readMember room key slots (':' :: value) <;> rfl

theorem set?_comm_other {β : Type} {field : Field β} {fields : Fields βs} {key' : String}
    {value' : List Char} (slots : Slots (β :: βs)) (hk : field.name = key)
    (hk' : field.name ≠ key') :
    ((cons field fields).set? room key value slots).bind
        ((cons field fields).set? room key' value') =
      ((cons field fields).set? room key' value' slots).bind
        ((cons field fields).set? room key value) := by
  obtain ⟨slot, slots⟩ := slots
  rw [set?_named hk, set?_other hk']
  cases slot with
  | some b =>
    cases fields.set? room key' value' slots with
    | none => rfl
    | some slots' =>
      have hfull : (cons field fields).set? room key value (some b, slots') = none := set?_named hk
      exact hfull.symm
  | none =>
    have hother (b : β) : (cons field fields).set? room key' value' (some b, slots) =
        (fields.set? room key' value' slots).map fun slots => (some b, slots) := set?_other hk'
    have hnamed (slots : Slots βs) : (cons field fields).set? room key value (none, slots) =
        (value? room field value).map fun b => (some b, slots) := set?_named hk
    cases hb : value? room field value with
    | none =>
      cases fields.set? room key' value' slots with
      | none => rfl
      | some slots' => exact ((hnamed slots').trans (by rw [hb]; rfl)).symm
    | some b =>
      refine (hother b).trans ?_
      cases fields.set? room key' value' slots with
      | none => rfl
      | some slots' => exact ((hnamed slots').trans (by rw [hb]; rfl)).symm

theorem set?_comm (fields : Fields βs) (key' : String) (value' : List Char) (slots : Slots βs) :
    (fields.set? room key value slots).bind (fields.set? room key' value') =
      (fields.set? room key' value' slots).bind (fields.set? room key value) := by
  induction fields with
  | nil => rfl
  | @cons β _ field fields ih =>
    by_cases hk : field.name = key
    · by_cases hk' : field.name = key'
      · -- the slot can be filled once only
        obtain ⟨slot, slots⟩ := slots
        have hfull (key : String) (value : List Char) (hk : field.name = key) (o : Option β) :
            (o.map fun b => (some b, slots)).bind ((cons field fields).set? room key value) =
              none := by
          cases o with
          | none => rfl
          | some b => exact set?_named hk
        rw [set?_named hk, set?_named hk']
        cases slot with
        | some b => rfl
        | none => exact (hfull key' value' hk' _).trans (hfull key value hk _).symm
      · exact set?_comm_other slots hk hk'
    · by_cases hk' : field.name = key'
      · exact (set?_comm_other slots hk' hk).symm
      · obtain ⟨slot, slots⟩ := slots
        have hbehind (key : String) (value : List Char) (hk : field.name ≠ key)
            (o : Option (Slots _)) :
            (o.map fun slots => (slot, slots)).bind ((cons field fields).set? room key value) =
              (o.bind (fields.set? room key value)).map fun slots => (slot, slots) := by
          cases o with
          | none => rfl
          | some slots => exact set?_other hk
        rw [set?_other hk, set?_other hk']
        refine (hbehind key' value' hk' _).trans (Eq.trans ?_ (hbehind key value hk _).symm)
        rw [ih]

theorem set?_of_undeclared {fields : Fields βs} {slots : Slots βs}
    (hk : fields.declares key = false) : fields.set? room key value slots = some slots := by
  induction fields with
  | nil => rfl
  | cons field fields ih =>
    obtain ⟨slot, slots⟩ := slots
    simp only [declares, Bool.or_eq_false_iff, beq_eq_false_iff_ne, ne_eq] at hk
    rw [set?_other hk.1, ih hk.2]
    rfl

theorem readMember_append {fields : Fields βs} {slots : Slots βs} {between : List Char}
    (hf : fields.Local) (hk : fields.declares key = true) (hb : Blank between)
    (hv : Stands (dropSpace value) []) (hr : Ended rest) :
    (fields.readMember room key slots (between ++ ':' :: (value ++ rest))).toOption =
      (fields.set? room key value slots).map fun slots => (slots, rest) := by
  induction fields with
  | nil => simp [declares] at hk
  | cons field fields ih =>
    obtain ⟨slot, slots⟩ := slots
    by_cases hname : field.name = key
    · rw [set?_named hname]
      simp only [readMember, if_pos hname]
      cases slot with
      | some b => rfl
      | none =>
        simp only [afterColon, colon_append hb, value?]
        refine (toOption_lift (fun b => (some b, slots)) _).trans ?_
        rw [hf.1.toOption_append hv hr]
        cases field.read room value <;> rfl
    · have hk : fields.declares key = true := by simpa [declares, hname] using hk
      rw [set?_other hname]
      simp only [readMember, if_neg hname]
      have hrest := @ih slots hf.2 hk
      cases hs : fields.set? room key value slots with
      | none =>
        rw [hs] at hrest
        cases hread : fields.readMember room key slots (between ++ ':' :: (value ++ rest)) with
        | error stop => rfl
        | ok p => simp [hread, Except.toOption] at hrest
      | some slots' =>
        rw [hs] at hrest
        rw [toOption_eq_some.mp hrest]
        rfl

end Fields

namespace Record

variable {α : Type} {r : Record α βs}

theorem toOption_member (room : Nat) (key : String) (slots : Slots βs) {between : List Char}
    (hf : r.fields.Local) (hb : Blank between) (hv : Stands (dropSpace value) [])
    (hr : Ended rest) :
    (r.member room key slots (between ++ ':' :: (value ++ rest))).toOption =
      (r.fields.set? room key value slots).map fun slots => (slots, rest) := by
  cases hk : r.fields.declares key with
  | true =>
    rw [member_of_declared hk]
    exact Fields.readMember_append hf hk hb hv hr
  | false =>
    have ha : Assigned (between ++ ':' :: (value ++ rest)) rest :=
      ⟨value ++ rest, dropSpace_eq hb (by decide) _, stands_append hv rest⟩
    rw [member_of_undeclared hk ha hr, Fields.set?_of_undeclared hk]
    rfl

theorem localMember (hf : r.fields.Local) (room : Nat) : LocalMember (r.member room) := by
  intro key slots between value rest hb hv hr
  have halone := toOption_member room key slots hf blank_nil hv ended_nil
  rw [List.append_nil, List.nil_append] at halone
  rw [toOption_member room key slots hf hb hv hr, halone, Option.map_map]
  rfl

theorem step_of_denotes (room : Nat) (hf : r.fields.Local) {m : MemberLayout} {key : List Char}
    (h : Denotes m.key key []) (slots : Slots βs) :
    m.step (r.member room) slots = r.fields.set? room (String.ofList key) m.value slots := by
  have hkey := readText_eq_ok_iff.mpr h
  rw [← List.append_nil m.key] at hkey
  have hmember := toOption_member room (String.ofList key) slots hf blank_nil m.stands ended_nil
  rw [List.append_nil, List.nil_append] at hmember
  unfold MemberLayout.step keyed
  simp only [readText_append m.quoted hkey, hmember, Option.map_map]
  exact congrFun Option.map_id _

theorem step_of_not_denotes {m : MemberLayout} (h : ∀ key, ¬ Denotes m.key key [])
    (slots : Slots βs) : m.step (r.member room) slots = none := by
  unfold MemberLayout.step keyed
  cases hread : readText (m.key ++ ':' :: m.value) with
  | error stop => rfl
  | ok p =>
    have hkey := readText_append m.quoted hread []
    rw [List.append_nil] at hkey
    exact absurd (readText_eq_ok_iff.mp hkey) (h _)

theorem step_comm (hf : r.fields.Local) (m m' : MemberLayout) (slots : Slots βs) :
    (m.step (r.member room) slots).bind (m'.step (r.member room)) =
      (m'.step (r.member room) slots).bind (m.step (r.member room)) := by
  have hnone {m m' : MemberLayout} (h : ∀ slots, m.step (r.member room) slots = none) :
      (m.step (r.member room) slots).bind (m'.step (r.member room)) =
        (m'.step (r.member room) slots).bind (m.step (r.member room)) := by
    rw [h, Option.bind_none]
    cases m'.step (r.member room) slots with
    | none => rfl
    | some slots' => exact (h slots').symm
  by_cases h : ∃ key, Denotes m.key key []
  · by_cases h' : ∃ key, Denotes m'.key key []
    · obtain ⟨key, hkey⟩ := h
      obtain ⟨key', hkey'⟩ := h'
      rw [funext (step_of_denotes room hf hkey), funext (step_of_denotes room hf hkey')]
      exact Fields.set?_comm _ _ _ _
    · exact (hnone (step_of_not_denotes (not_exists.mp h'))).symm
  · exact hnone (step_of_not_denotes (not_exists.mp h))

theorem steps_perm (hf : r.fields.Local) {ms ms' : List MemberLayout} (h : ms.Perm ms')
    (s : Option (Slots βs)) :
    MemberLayout.steps (r.member room) ms s = MemberLayout.steps (r.member room) ms' s := by
  refine h.foldl_eq' (fun m _ m' _ s => ?_) s
  cases s with
  | none => rfl
  | some slots => exact step_comm hf m m' slots

/-- What a record is read as is told by its members, whatever stands around them. -/
theorem decode_layout (hf : r.fields.Local) (o : ObjectLayout) :
    (r.codec.decode o.text).toOption =
      (MemberLayout.steps (r.member (nestingLimit - 1)) o.members (some r.fields.empty)).bind
        fun slots => ((r.fields.complete slots).map r.make).toOption := by
  have ho : dropSpace o.text.toList =
      '\x7b' :: MemberLayout.all o.members (o.inner ++ '\x7d' :: o.behind) := by
    rw [ObjectLayout.text, String.toList_ofList]
    exact dropSpace_eq o.blank_before (by decide) _
  have hread := objectBody_all (localMember hf (nestingLimit - 1)) o.members r.fields.empty
    (fun slots => (r.fields.complete slots).map r.make) o.blank_inner o.behind
  refine Option.ext fun a => ?_
  rw [toOption_eq_some, decode_object_iff ho]
  constructor
  · rintro ⟨rest, h, -⟩
    rw [readObject] at h
    rw [h] at hread
    obtain ⟨b, hb, he⟩ := Option.map_eq_some_iff.mp hread.symm
    obtain ⟨rfl, -⟩ := Prod.mk.inj he
    exact hb
  · intro h
    rw [h] at hread
    exact ⟨o.behind, toOption_eq_some.mp hread, dropSpace_of_blank o.blank_behind⟩

/-- The members of a record may stand in any order, with any blanks around them. -/
theorem decode_of_perm (hf : r.fields.Local) {o o' : ObjectLayout}
    (h : o.members.Perm o'.members) :
    (r.codec.decode o.text).toOption = (r.codec.decode o'.text).toOption := by
  rw [decode_layout hf, decode_layout hf, steps_perm hf h]

theorem steps_of_undeclared (hf : r.fields.Local) {m : MemberLayout} {key : List Char}
    (hm : Denotes m.key key []) (hk : r.fields.declares (String.ofList key) = false)
    (ms : List MemberLayout) (s : Option (Slots βs)) :
    MemberLayout.steps (r.member room) (m :: ms) s = MemberLayout.steps (r.member room) ms s := by
  have hstep (slots : Slots βs) : m.step (r.member room) slots = some slots := by
    rw [step_of_denotes room hf hm, Fields.set?_of_undeclared hk]
  cases s with
  | none => rfl
  | some slots => exact congrArg (MemberLayout.steps (r.member room) ms) (hstep slots)

/-- A member that a record does not declare may be there or not, and stand anywhere. -/
theorem decode_of_insert (hf : r.fields.Local) (o : ObjectLayout) {m : MemberLayout}
    {key : List Char} (hm : Denotes m.key key [])
    (hk : r.fields.declares (String.ofList key) = false) {i : Nat} (hi : i ≤ o.members.length) :
    (r.codec.decode (o.insert i m).text).toOption = (r.codec.decode o.text).toOption := by
  have hperm : (o.insert i m).members.Perm (m :: o.members) := List.perm_insertIdx m _ hi
  rw [decode_layout hf, decode_layout hf, steps_perm hf hperm, steps_of_undeclared hf hm hk]

end Record

end LedgerClient.Json
