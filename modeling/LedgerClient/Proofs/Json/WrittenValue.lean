import LedgerClient.Proofs.Json.Members
import LedgerClient.Proofs.Json.Readers
import LedgerClient.Proofs.Json.Written
import Mathlib.Data.List.Forall2

/-!
# Containers that are written are read back

`Taken` follows a loop over the members of an object through their texts, one member after the
other; what it comes to is what reading the whole object comes to. With it a value of any type is
read back, provided that its numbers are integers, its objects are sorted and there is room for its
containers (`Value.Plain`). `Reader.entries` reads the members of an object as they stand there,
which shows of a text that none of them is repeated.
-/

namespace LedgerClient.Json

/-! ## Items -/

theorem ended_of_separator {c : Char} (hc : c ∈ [',', ':', ']', '\x7d']) (cs : List Char) :
    Ended (c :: cs) := by
  refine ended_of_dropSpace (dropSpace_of_solid ?_ cs) hc
  simp only [List.mem_cons, List.not_mem_nil, or_false] at hc
  rcases hc with rfl | rfl | rfl | rfl <;> decide

theorem ended_more_items (texts : List (List Char)) (rest : List Char) :
    Ended (itemsChars.more texts ++ rest) := by
  cases texts with
  | nil => exact ended_of_separator (by decide) _
  | cons text texts => exact ended_of_separator (by decide) _

theorem length_le_more_items (texts : List (List Char)) :
    texts.length < (itemsChars.more texts).length := by
  induction texts with
  | nil => exact Nat.zero_lt_one
  | cons text texts ih =>
    simp only [itemsChars.more, List.length_cons, List.length_append]
    omega

section

variable {α : Type} {item : List Char → Step α} {texts : List (List Char)} {as : List α}

theorem items_more {bound : List Char} (h : List.Forall₂ (Written item) texts as) (taken : List α)
    (rest : List Char) (hb : texts.length ≤ bound.length) :
    items item bound false taken (itemsChars.more texts ++ rest) =
      .ok (taken.reverse ++ as, ']' :: rest) := by
  induction h generalizing bound taken with
  | nil =>
    have hnext : nextItem false (']' :: rest) = .ok (.closing (']' :: rest)) := rfl
    rw [itemsChars.more, List.cons_append, List.nil_append, items, hnext, List.append_nil]
  | @cons text a texts as hw _ ih =>
    obtain ⟨b, bound, rfl⟩ := List.exists_cons_of_length_pos (Nat.zero_lt_of_lt hb)
    obtain ⟨c, more, htext, hc, hclose⟩ := hw.begins
    have hsplit : itemsChars.more (text :: texts) ++ rest =
        ',' :: (text ++ (itemsChars.more texts ++ rest)) := by simp [itemsChars.more]
    have hnext : nextItem false (',' :: (text ++ (itemsChars.more texts ++ rest))) =
        .ok (.part (text ++ (itemsChars.more texts ++ rest))) := by
      rw [nextItem, dropSpace_of_solid (by decide)]
      simp only [if_neg (show ',' ≠ ']' by decide), Bool.false_eq_true, if_false, if_true,
        hw.dropSpace_eq]
      rw [htext, List.cons_append]
      simp only [if_neg hclose]
    rw [hsplit, items, hnext]
    simp only [hw.back _ (ended_more_items texts rest)]
    rw [ih _ (Nat.le_of_succ_le_succ hb)]
    simp

theorem items_first {bound text : List Char} {a : α} (hw : Written item text a)
    (h : List.Forall₂ (Written item) texts as) (rest : List Char)
    (hb : texts.length < bound.length) :
    items item bound true [] (text ++ (itemsChars.more texts ++ rest)) =
      .ok (a :: as, ']' :: rest) := by
  obtain ⟨b, bound, rfl⟩ := List.exists_cons_of_length_pos (Nat.zero_lt_of_lt hb)
  obtain ⟨c, more, htext, hc, hne⟩ := hw.begins
  have hnext : nextItem true (text ++ (itemsChars.more texts ++ rest)) =
      .ok (.part (text ++ (itemsChars.more texts ++ rest))) := by
    rw [nextItem, hw.dropSpace_eq, htext, List.cons_append]
    simp only [if_neg hne, if_true]
  rw [items, hnext]
  simp only [hw.back _ (ended_more_items texts rest)]
  exact items_more h [a] rest (Nat.le_of_lt_succ hb)

theorem listBody_itemsChars (h : List.Forall₂ (Written item) texts as) :
    ∃ body, itemsChars texts = '[' :: body ∧
      ∀ rest, listBody item (body ++ rest) = .ok (as, rest) := by
  have hclose (rest : List Char) : closeList (']' :: rest) = .ok rest := rfl
  cases h with
  | nil => exact ⟨[']'], rfl, fun _ => rfl⟩
  | @cons text a texts as hw hmore =>
    refine ⟨text ++ itemsChars.more texts, rfl, fun rest => ?_⟩
    have hlen : texts.length < (text ++ (itemsChars.more texts ++ rest)).length := by
      have := length_le_more_items texts
      simp only [List.length_append]
      omega
    rw [listBody, List.append_assoc, items_first hw hmore rest hlen]
    simp only [enclose, hclose]

end

theorem written_list {α : Type} {item : Reader α} {room : Nat} {texts : List (List Char)}
    {as : List α} (h : List.Forall₂ (Written (item room)) texts as) :
    Written (Reader.list item (room + 1)) (itemsChars texts) as := by
  obtain ⟨body, hbody, hread⟩ := listBody_itemsChars h
  refine ⟨⟨'[', body, hbody, by decide⟩, fun rest _ => ?_⟩
  rw [hbody, List.cons_append, Reader.list, atValue, dropSpace_of_solid (by decide)]
  simp only [if_pos, hread]

/-! ## Members -/

section

variable {σ : Type}

/-- A loop over the members of an object takes them one after the other. -/
inductive Taken (member : String → σ → List Char → Step σ) :
    List (String × List Char) → σ → σ → Prop
  | nil {s : σ} : Taken member [] s s
  | cons {key : String} {text : List Char} {texts : List (String × List Char)} {s s' s'' : σ} :
      (∀ rest, Ended rest → member key s (':' :: (text ++ rest)) = .ok (s', rest)) →
      Taken member texts s' s'' → Taken member ((key, text) :: texts) s s''

variable {member : String → σ → List Char → Step σ} {texts : List (String × List Char)} {s s' : σ}

theorem ended_more_members (texts : List (String × List Char)) (rest : List Char) :
    Ended (membersChars.more texts ++ rest) := by
  cases texts with
  | nil => exact ended_of_separator (by decide) _
  | cons text texts => exact ended_of_separator (by decide) _

theorem length_le_more_members (texts : List (String × List Char)) :
    texts.length < (membersChars.more texts).length := by
  induction texts with
  | nil => exact Nat.zero_lt_one
  | cons text texts ih =>
    simp only [membersChars.more, List.length_cons, List.length_append, List.cons_append]
    omega

theorem readMembers_more {bound : List Char} (h : Taken member texts s s') (rest : List Char)
    (hb : texts.length ≤ bound.length) :
    readMembers member bound false s (membersChars.more texts ++ rest) =
      .ok (s', '\x7d' :: rest) := by
  induction h generalizing bound with
  | nil =>
    have hnext : nextKey false ('\x7d' :: rest) = .ok (.closing ('\x7d' :: rest)) := rfl
    rw [membersChars.more, List.cons_append, List.nil_append, readMembers, hnext]
  | @cons key text texts s s' s'' hm _ ih =>
    obtain ⟨b, bound, rfl⟩ := List.exists_cons_of_length_pos (Nat.zero_lt_of_lt hb)
    have hsplit : membersChars.more ((key, text) :: texts) ++ rest = ',' :: '"' ::
        (escapeChars key.toList ++ (':' :: (text ++ (membersChars.more texts ++ rest)))) := by
      simp [membersChars.more, textChars]
    have hnext (cs : List Char) : nextKey false (',' :: '"' :: cs) = .ok (.part cs) := rfl
    rw [hsplit, readMembers, hnext]
    simp only [readText_escapeChars, String.ofList_toList,
      hm _ (ended_more_members texts rest)]
    exact ih (Nat.le_of_succ_le_succ hb)

theorem readMembers_first {bound text : List Char} {key : String} {s'' : σ}
    (hm : ∀ rest, Ended rest → member key s (':' :: (text ++ rest)) = .ok (s', rest))
    (h : Taken member texts s' s'') (rest : List Char) (hb : texts.length < bound.length) :
    readMembers member bound true s
        ('"' :: (escapeChars key.toList ++ (':' :: (text ++ (membersChars.more texts ++ rest))))) =
      .ok (s'', '\x7d' :: rest) := by
  obtain ⟨b, bound, rfl⟩ := List.exists_cons_of_length_pos (Nat.zero_lt_of_lt hb)
  have hnext (cs : List Char) : nextKey true ('"' :: cs) = .ok (.part cs) := rfl
  rw [readMembers, hnext]
  simp only [readText_escapeChars, String.ofList_toList, hm _ (ended_more_members texts rest)]
  exact readMembers_more h rest (Nat.le_of_lt_succ hb)

theorem objectBody_membersChars {α : Type} {finish : σ → Except Cause α} {a : α}
    (h : Taken member texts s s') (hf : finish s' = .ok a) :
    ∃ body, membersChars texts = '\x7b' :: body ∧
      ∀ rest, objectBody s member finish (body ++ rest) = .ok (a, rest) := by
  have hclose (rest : List Char) : closeObject ('\x7d' :: rest) = .ok rest := rfl
  cases h with
  | nil =>
    refine ⟨['\x7d'], rfl, fun rest => ?_⟩
    have hread : readMembers member ('\x7d' :: rest) true s ('\x7d' :: rest) =
        .ok (s, '\x7d' :: rest) := rfl
    rw [objectBody, List.cons_append, List.nil_append, hread]
    simp only [hf, enclose, hclose]
  | @cons key text texts _ s₁ _ hm hmore =>
    refine ⟨textChars key ++ ':' :: text ++ membersChars.more texts, by simp [membersChars],
      fun rest => ?_⟩
    have hsplit : textChars key ++ ':' :: text ++ membersChars.more texts ++ rest = '"' ::
        (escapeChars key.toList ++ (':' :: (text ++ (membersChars.more texts ++ rest)))) := by
      simp [textChars]
    have hlen : texts.length < ('"' :: (escapeChars key.toList ++
        (':' :: (text ++ (membersChars.more texts ++ rest))))).length := by
      have := length_le_more_members texts
      simp only [List.length_append, List.length_cons]
      omega
    rw [objectBody, hsplit, readMembers_first hm hmore rest hlen]
    simp only [hf, enclose, hclose]

theorem written_membersChars {α : Type} {read : List Char → Step α} {finish : σ → Except Cause α}
    {a : α} (hread : ∀ contents, read ('\x7b' :: contents) = objectBody s member finish contents)
    (h : Taken member texts s s') (hf : finish s' = .ok a) : Written read (membersChars texts) a := by
  obtain ⟨body, hbody, hback⟩ := objectBody_membersChars h hf
  refine ⟨⟨'\x7b', body, hbody, by decide⟩, fun rest _ => ?_⟩
  rw [hbody, List.cons_append, hread, hback]

end

/-! ## Values of any type -/

/-- The values that are kept as they are written: numbers are integers of 64 bits, members are
sorted by key, and at most `room` containers stand inside one another. -/
inductive Value.Plain : (room : Nat) → Value → Prop
  | null {room : Nat} : Plain room .null
  | bool {room : Nat} (b : Bool) : Plain room (.bool b)
  | integer {room : Nat} {i : Int} :
      -9223372036854775808 ≤ i → i < 18446744073709551616 → Plain room (.number (.int i))
  | text {room : Nat} (s : String) : Plain room (.text s)
  | list {room : Nat} {items : List Value} :
      (∀ v ∈ items, Plain room v) → Plain (room + 1) (.list items)
  | object {room : Nat} {members : Members} :
      members.Sorted → (∀ m ∈ members, Plain room m.2) → Plain (room + 1) (.object members)

theorem itemTexts_eq_map (items : List Value) : Value.itemTexts items = items.map Value.chars := by
  induction items with
  | nil => rfl
  | cons v items ih => rw [Value.itemTexts, ih, List.map_cons]

theorem memberTexts_eq_map (members : List (String × Value)) :
    Value.memberTexts members = members.map fun m => (m.1, m.2.chars) := by
  induction members with
  | nil => rfl
  | cons m members ih => rw [Value.memberTexts, ih, List.map_cons]

theorem afterColon_of_written {α : Type} {value : List Char → Step α} {text rest : List Char}
    {a : α} (h : Written value text a) (hr : Ended rest) :
    afterColon value (':' :: (text ++ rest)) = .ok (a, rest) := by
  have hcolon : colon (':' :: (text ++ rest)) = .ok (text ++ rest) := rfl
  rw [afterColon, hcolon]
  exact h.back rest hr

theorem taken_keepMember {value : List Char → Step Value} {members : Members}
    (h : ∀ m ∈ members, Written value m.2.chars m.2) (kept : Members) :
    Taken (keepMember value) (Value.memberTexts members) kept
      (members.foldl (fun kept m => Members.insert m.1 m.2 kept) kept) := by
  induction members generalizing kept with
  | nil => exact .nil
  | cons m members ih =>
    refine .cons (fun rest hr => ?_) (ih (fun m hm => h m (List.mem_cons_of_mem _ hm)) _)
    rw [keepMember, afterColon_of_written (h m List.mem_cons_self) hr]

theorem exists_readAny (room : Nat) : ∃ list object, Reader.value room = readAny list object := by
  cases room with
  | zero => exact ⟨_, _, rfl⟩
  | succ room => exact ⟨_, _, rfl⟩

theorem written_number {i : Int} (room : Nat) (hmin : -9223372036854775808 ≤ i)
    (hmax : i < 18446744073709551616) :
    Written (Reader.value room) (intChars i) (.number (.int i)) := by
  obtain ⟨list, object, hvalue⟩ := exists_readAny room
  obtain ⟨c, more, hc, hdigit⟩ := exists_intChars i
  refine ⟨⟨c, more, hc, solid_of_digit hdigit⟩, fun rest hr => ?_⟩
  have hread := readNumber_intChars hmin hmax hr
  have hnull : c ≠ 'n' := ne_of_digit hdigit (by decide)
  have htrue : c ≠ 't' := ne_of_digit hdigit (by decide)
  have hfalse : c ≠ 'f' := ne_of_digit hdigit (by decide)
  have hquote : c ≠ '"' := ne_of_digit hdigit (by decide)
  rw [hc, List.cons_append] at hread ⊢
  rw [hvalue, readAny, dropSpace_of_solid (solid_of_digit hdigit).1]
  simp only [if_neg hnull, if_neg htrue, if_neg hfalse, if_neg hquote, if_pos hdigit, hread]

theorem written_object {room : Nat} {members : Members}
    (h : ∀ m ∈ members, Written (Reader.value room) m.2.chars m.2) :
    Written (Reader.value (room + 1)) (membersChars (Value.memberTexts members))
      (.object (Members.ofList members)) := by
  have hobject : ∃ body, membersChars (Value.memberTexts members) = '\x7b' :: body ∧
      ∀ rest, objectBody [] (keepMember (Reader.value room)) .ok (body ++ rest) =
        .ok (Members.ofList members, rest) := objectBody_membersChars (taken_keepMember h []) rfl
  obtain ⟨body, hbody, hread⟩ := hobject
  refine ⟨⟨'\x7b', body, hbody, by decide⟩, fun rest _ => ?_⟩
  rw [hbody, List.cons_append, Reader.value, readAny, dropSpace_of_solid (by decide)]
  simp [hread, isDigit]

/-- A plain value is read back from its text. -/
theorem written_value {room : Nat} {v : Value} (h : v.Plain room) :
    Written (Reader.value room) v.chars v := by
  induction h with
  | @null room =>
    obtain ⟨list, object, hvalue⟩ := exists_readAny room
    exact ⟨⟨'n', _, rfl, by decide⟩, fun rest _ => by rw [hvalue]; rfl⟩
  | @bool room b =>
    obtain ⟨list, object, hvalue⟩ := exists_readAny room
    cases b with
    | true => exact ⟨⟨'t', _, rfl, by decide⟩, fun rest _ => by rw [hvalue]; rfl⟩
    | false => exact ⟨⟨'f', _, rfl, by decide⟩, fun rest _ => by rw [hvalue]; rfl⟩
  | integer hmin hmax => exact written_number _ hmin hmax
  | @text room s =>
    obtain ⟨list, object, hvalue⟩ := exists_readAny room
    refine ⟨⟨'"', escapeChars s.toList, rfl, by decide⟩, fun rest _ => ?_⟩
    have hread : readAny list object ('"' :: (escapeChars s.toList ++ rest)) =
        .ok (.text s, rest) := by
      rw [readAny, dropSpace_of_solid (by decide)]
      simp [readText_escapeChars]
    rw [hvalue, Value.chars, textChars, List.cons_append, hread]
  | @list room items _ ih =>
    have hitems : List.Forall₂ (Written (Reader.value room)) (Value.itemTexts items) items := by
      rw [itemTexts_eq_map, List.forall₂_map_left_iff]
      exact List.forall₂_same.mpr ih
    obtain ⟨body, hbody, hread⟩ := listBody_itemsChars hitems
    refine ⟨⟨'[', body, by rw [Value.chars, hbody], by decide⟩, fun rest _ => ?_⟩
    rw [Value.chars, hbody, List.cons_append, Reader.value, readAny, dropSpace_of_solid (by decide)]
    simp [hread, isDigit]
  | @object room members hsorted _ ih =>
    have hmembers := written_object ih
    rw [Members.ofList_of_sorted hsorted] at hmembers
    exact hmembers

end LedgerClient.Json
