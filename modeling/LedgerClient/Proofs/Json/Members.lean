import LedgerClient.Json.Value
import Mathlib.Data.List.Induction

/-!
# Members in order

Members that are set one after the other come to be sorted by key. Those that are sorted already stay
as they are, and as long as no key is repeated none of them is lost.
-/

namespace LedgerClient.Json

namespace Members

/-- Members in the order of their keys, of which none is repeated. -/
def Sorted (members : Members) : Prop := members.Pairwise (·.1 < ·.1)

theorem insert_of_lt {key : String} {v : Value} {members : Members}
    (h : ∀ m ∈ members, m.1 < key) : insert key v members = members ++ [(key, v)] := by
  induction members with
  | nil => rfl
  | cons m members ih =>
    obtain ⟨k, w⟩ := m
    have hlt : k < key := h _ List.mem_cons_self
    have hgt : ¬ key < k := String.lt_asymm hlt
    have hne : key ≠ k := fun he => String.lt_irrefl k (he ▸ hlt)
    rw [insert, if_neg hgt, if_neg hne, ih fun m hm => h m (List.mem_cons_of_mem _ hm),
      List.cons_append]

theorem foldl_insert_of_sorted {kept members : Members} (h : Sorted (kept ++ members)) :
    members.foldl (fun kept m => insert m.1 m.2 kept) kept = kept ++ members := by
  induction members generalizing kept with
  | nil => rw [List.foldl_nil, List.append_nil]
  | cons m members ih =>
    have hlast : ∀ k ∈ kept, k.1 < m.1 := fun k hk =>
      (List.pairwise_append.mp h).2.2 k hk m List.mem_cons_self
    have hassoc : kept ++ [(m.1, m.2)] ++ members = kept ++ m :: members := by simp
    rw [List.foldl_cons, insert_of_lt hlast, ih (by rwa [hassoc]), hassoc]

theorem ofList_of_sorted {members : Members} (h : members.Sorted) : ofList members = members :=
  @foldl_insert_of_sorted [] members h

theorem insert_perm {key : String} {v : Value} {members : Members}
    (h : ∀ m ∈ members, m.1 ≠ key) : (insert key v members).Perm ((key, v) :: members) := by
  induction members with
  | nil => exact .refl _
  | cons m members ih =>
    obtain ⟨k, w⟩ := m
    have hne : key ≠ k := fun he => h _ List.mem_cons_self he.symm
    by_cases hlt : key < k
    · rw [insert, if_pos hlt]
    · rw [insert, if_neg hlt, if_neg hne]
      have hrest := ih fun m hm => h m (List.mem_cons_of_mem _ hm)
      exact (hrest.cons (k, w)).trans (.swap (key, v) (k, w) members)

theorem foldl_insert_perm {kept members : Members}
    (h : ((kept ++ members).map (·.1)).Nodup) :
    (members.foldl (fun kept m => insert m.1 m.2 kept) kept).Perm (kept ++ members) := by
  induction members generalizing kept with
  | nil => rw [List.foldl_nil, List.append_nil]
  | cons m members ih =>
    have hfresh : ∀ k ∈ kept, k.1 ≠ m.1 := by
      intro k hk he
      rw [List.map_append, List.nodup_append] at h
      exact h.2.2 k.1 (List.mem_map_of_mem hk) m.1 (List.mem_map_of_mem List.mem_cons_self) he
    have hset : (insert m.1 m.2 kept ++ members).Perm (kept ++ m :: members) :=
      ((insert_perm hfresh).append_right members).trans List.perm_middle.symm
    exact (ih ((hset.map _).nodup_iff.mpr h)).trans hset

theorem ofList_perm {members : Members} (h : (members.map (·.1)).Nodup) :
    (ofList members).Perm members :=
  @foldl_insert_perm [] members h

theorem eq_or_mem_of_mem_insert {key : String} {v : Value} {members : Members} {m : String × Value}
    (h : m ∈ insert key v members) : m = (key, v) ∨ m ∈ members := by
  induction members with
  | nil => exact .inl (List.mem_singleton.mp h)
  | cons k members ih =>
    obtain ⟨k, w⟩ := k
    unfold insert at h
    split at h
    · exact List.mem_cons.mp h
    · split at h
      · exact (List.mem_cons.mp h).imp_right (List.mem_cons_of_mem _)
      · rcases List.mem_cons.mp h with rfl | h
        · exact .inr List.mem_cons_self
        · exact (ih h).imp_right (List.mem_cons_of_mem _)

theorem ofList_append_singleton (members : List (String × Value)) (m : String × Value) :
    ofList (members ++ [m]) = insert m.1 m.2 (ofList members) := by
  rw [ofList, ofList, List.foldl_append, List.foldl_cons, List.foldl_nil]

theorem mem_of_mem_ofList {members : List (String × Value)} {m : String × Value}
    (h : m ∈ ofList members) : m ∈ members := by
  induction members using List.reverseRecOn with
  | nil => exact h
  | append_singleton members last ih =>
    rw [ofList_append_singleton] at h
    rcases eq_or_mem_of_mem_insert h with rfl | h
    · exact List.mem_append_right _ (List.mem_singleton_self _)
    · exact List.mem_append_left _ (ih h)

theorem sorted_insert {key : String} {v : Value} {members : Members} (h : members.Sorted) :
    (insert key v members).Sorted := by
  induction members with
  | nil => exact List.pairwise_singleton _ _
  | cons m members ih =>
    obtain ⟨k, w⟩ := m
    obtain ⟨hfirst, hrest⟩ := List.pairwise_cons.mp h
    by_cases hlt : key < k
    · rw [insert, if_pos hlt]
      refine List.pairwise_cons.mpr ⟨fun m hm => ?_, h⟩
      rcases List.mem_cons.mp hm with rfl | hm
      · exact hlt
      · exact String.lt_trans hlt (hfirst m hm)
    · rw [insert, if_neg hlt]
      by_cases heq : key = k
      · rw [if_pos heq]
        exact List.pairwise_cons.mpr ⟨heq ▸ hfirst, hrest⟩
      · rw [if_neg heq]
        have hlast : k < key := Decidable.byContradiction fun hge =>
          heq (String.le_antisymm (String.not_lt.mp hge) (String.not_lt.mp hlt))
        refine List.pairwise_cons.mpr ⟨fun m hm => ?_, ih hrest⟩
        rcases eq_or_mem_of_mem_insert hm with rfl | hm
        · exact hlast
        · exact hfirst m hm

theorem sorted_ofList (members : Members) : (ofList members).Sorted := by
  have hfold {kept : Members} (h : kept.Sorted) :
      (members.foldl (fun kept m => insert m.1 m.2 kept) kept).Sorted := by
    induction members generalizing kept with
    | nil => exact h
    | cons m members ih => exact ih (sorted_insert h)
  exact hfold List.Pairwise.nil

theorem get?_cons_of_ne {key : String} {m : String × Value} (h : m.1 ≠ key) (members : Members) :
    get? key (m :: members) = get? key members := by
  simp [get?, h]

theorem get?_of_mem {key : String} {v : Value} {members : Members}
    (h : (members.map (·.1)).Nodup) (hm : (key, v) ∈ members) : get? key members = some v := by
  induction members with
  | nil => exact absurd hm List.not_mem_nil
  | cons m members ih =>
    obtain ⟨hfirst, hrest⟩ := List.nodup_cons.mp h
    rcases List.mem_cons.mp hm with rfl | hm
    · simp [get?]
    · have hne : m.1 ≠ key := by
        intro he
        exact hfirst (List.mem_map.mpr ⟨(key, v), hm, he.symm⟩)
      rw [get?_cons_of_ne hne, ih hrest hm]

theorem get?_insert_of_ne {key k : String} (h : k ≠ key) (v : Value) (members : Members) :
    get? key (insert k v members) = get? key members := by
  have hset (members : Members) : get? key ((k, v) :: members) = get? key members :=
    get?_cons_of_ne h members
  induction members with
  | nil => exact hset []
  | cons m members ih =>
    obtain ⟨k', w⟩ := m
    rw [insert]
    split
    · exact hset _
    · split
      · rename_i hk
        have hne : k' ≠ key := hk ▸ h
        rw [hset, get?_cons_of_ne hne]
      · by_cases hk : k' = key
        · simp [get?, hk]
        · rw [get?_cons_of_ne hk, get?_cons_of_ne hk, ih]

theorem get?_insert_self (key : String) (v : Value) (members : Members) :
    get? key (insert key v members) = some v := by
  induction members with
  | nil => simp [insert, get?]
  | cons m members ih =>
    obtain ⟨k, w⟩ := m
    rw [insert]
    split
    · simp [get?]
    · split
      · simp [get?]
      · rename_i hk
        rw [get?_cons_of_ne (Ne.symm hk), ih]

theorem get?_ofList_append (key : String) (members more : List (String × Value)) :
    get? key (ofList (members ++ more)) =
      (get? key (ofList more)).or (get? key (ofList members)) := by
  induction more using List.reverseRecOn with
  | nil => simp [ofList, get?]
  | append_singleton more m ih =>
    rw [← List.append_assoc, ofList_append_singleton, ofList_append_singleton]
    by_cases hk : m.1 = key
    · rw [hk, get?_insert_self, get?_insert_self, Option.some_or]
    · rw [get?_insert_of_ne hk, get?_insert_of_ne hk, ih]

theorem get?_ofList_filter (key : String) (p : String → Bool) (members : List (String × Value)) :
    get? key (ofList (members.filter fun m => p m.1)) =
      if p key then get? key (ofList members) else none := by
  induction members using List.reverseRecOn with
  | nil => simp [ofList, get?]
  | append_singleton members m ih =>
    rw [List.filter_append, ofList_append_singleton]
    by_cases hk : m.1 = key
    · rw [hk, get?_insert_self]
      cases hp : p key with
      | false => simpa [hk, hp] using ih
      | true => simp [hk, hp, ofList_append_singleton, get?_insert_self]
    · rw [get?_insert_of_ne hk, ← ih]
      cases hp : p m.1 with
      | false => simp [hp]
      | true => simp [hp, ofList_append_singleton, get?_insert_of_ne hk]

theorem mem_of_get? {key : String} {v : Value} {members : Members}
    (h : get? key members = some v) : (key, v) ∈ members := by
  obtain ⟨⟨k, w⟩, hfind, rfl⟩ := Option.map_eq_some_iff.mp h
  have hkey := List.find?_some hfind
  obtain rfl := beq_iff_eq.mp hkey
  exact List.mem_of_find?_eq_some hfind

theorem get?_ofList_cons {key : String} (v : Value) {members : Members}
    (h : ∀ m ∈ members, m.1 ≠ key) : get? key (ofList ((key, v) :: members)) = some v := by
  have hothers : get? key (ofList members) = none :=
    Option.eq_none_iff_forall_ne_some.mpr fun w hw =>
      h _ (mem_of_mem_ofList (mem_of_get? hw)) rfl
  have hfirst : get? key (ofList [(key, v)]) = some v := by simp [ofList, insert, get?]
  have happend := get?_ofList_append key [(key, v)] members
  rwa [hothers, hfirst] at happend

theorem eq_of_perm {members members' : Members} (h : members.Sorted) (h' : members'.Sorted)
    (hp : members.Perm members') : members = members' :=
  hp.eq_of_pairwise (fun _ _ _ _ hlt hgt => absurd hgt (String.lt_asymm hlt)) h h'

end Members

end LedgerClient.Json
