import LedgerClient.Dispatcher.Table
import Mathlib.Data.List.Nodup
import Mathlib.Data.List.Perm.Basic

/-!
# The pending commands as a map

`Table.find?` determines the entries of a table, since an id is in it at most once. The lemmas say
what `insert?` and `erase` do to it, and which tickets wait in a table before and after.
-/

namespace LedgerClient.Table

/-- The tickets of the callers that wait for an answer. -/
def tickets (t : Table) : List Ticket := t.entries.map (·.2.ticket)

theorem ext_entries {t u : Table} (h : t.entries = u.entries) : t = u := by
  cases t
  cases u
  simp_all

theorem find?_eq_some_iff {t : Table} {id : Nat} {p : Pending} :
    t.find? id = some p ↔ (id, p) ∈ t.entries := by
  obtain ⟨entries, nodup⟩ := t
  simp only [find?, Option.map_eq_some_iff, Prod.exists]
  constructor
  · rintro ⟨i, q, h, rfl⟩
    have hi : i = id := by simpa using List.find?_some h
    exact hi ▸ List.mem_of_find?_eq_some h
  · intro h
    -- no entry in front of this one has its id, so the search stops here
    induction entries with
    | nil => simp at h
    | cons e rest ih =>
      obtain ⟨i, q⟩ := e
      rw [List.map_cons, List.nodup_cons] at nodup
      rcases List.mem_cons.mp h with h | h
      · obtain ⟨rfl, rfl⟩ := Prod.mk.inj h
        exact ⟨id, p, by simp, rfl⟩
      · have hne : i ≠ id := fun he => nodup.1 (he ▸ List.mem_map_of_mem (f := (·.1)) h)
        obtain ⟨j, r, hf, rfl⟩ := ih nodup.2 h
        exact ⟨j, r, by rw [List.find?_cons_of_neg (by simpa using hne)]; exact hf, rfl⟩

theorem find?_eq_none_iff {t : Table} {id : Nat} :
    t.find? id = none ↔ ∀ p, (id, p) ∉ t.entries := by
  simp only [← find?_eq_some_iff, Option.eq_none_iff_forall_ne_some, ne_eq]

theorem contains_eq_isSome (t : Table) (id : Nat) : t.contains id = (t.find? id).isSome := by
  rw [Bool.eq_iff_iff]
  simp [contains, find?]

@[simp] theorem find?_empty (id : Nat) : empty.find? id = none := rfl

theorem tickets_empty : empty.tickets = [] := rfl

/-! ## Erasing -/

@[simp] theorem find?_erase_self (t : Table) (id : Nat) : (t.erase id).find? id = none := by
  simp [find?_eq_none_iff, erase]

theorem find?_erase_of_ne (t : Table) {id other : Nat} (h : other ≠ id) :
    (t.erase id).find? other = t.find? other := by
  ext p
  simp only [find?_eq_some_iff, erase, List.mem_filter, bne_iff_ne, ne_eq]
  exact and_iff_left h

theorem erase_of_find?_none {t : Table} {id : Nat} (h : t.find? id = none) : t.erase id = t := by
  refine ext_entries (List.filter_eq_self.mpr fun e he => ?_)
  rw [bne_iff_ne]
  rintro rfl
  exact find?_eq_none_iff.mp h e.2 he

theorem perm_of_find?_eq_some {t : Table} {id : Nat} {p : Pending} (h : t.find? id = some p) :
    t.entries.Perm ((id, p) :: (t.erase id).entries) := by
  obtain ⟨entries, nodup⟩ := t
  rw [find?_eq_some_iff] at h
  obtain ⟨before, after, rfl⟩ := List.append_of_mem h
  simp only [List.map_append, List.map_cons, List.nodup_append, List.nodup_cons] at nodup
  have hb : before.filter (·.1 != id) = before := by
    refine List.filter_eq_self.mpr fun e he => ?_
    rw [bne_iff_ne]
    rintro rfl
    exact nodup.2.2 e.1 (List.mem_map_of_mem he) e.1 (by simp) rfl
  have ha : after.filter (·.1 != id) = after := by
    refine List.filter_eq_self.mpr fun e he => ?_
    rw [bne_iff_ne]
    rintro rfl
    exact nodup.2.1.1 (List.mem_map_of_mem he)
  have he : (before ++ (id, p) :: after).filter (·.1 != id) = before ++ after := by
    rw [List.filter_append, List.filter_cons_of_neg (by simp), hb, ha]
  simp only [erase, he]
  exact List.perm_middle

theorem tickets_perm_of_find?_eq_some {t : Table} {id : Nat} {p : Pending}
    (h : t.find? id = some p) : t.tickets.Perm (p.ticket :: (t.erase id).tickets) :=
  List.Perm.map (fun e : Nat × Pending => e.2.ticket) (perm_of_find?_eq_some h)

/-! ## Inserting -/

theorem insert?_eq_none_iff {t : Table} {id : Nat} {p : Pending} :
    t.insert? id p = none ↔ ∃ q, t.find? id = some q := by
  rw [← Option.isSome_iff_exists, ← contains_eq_isSome, insert?]
  split <;> simp_all

theorem entries_of_insert? {t u : Table} {id : Nat} {p : Pending} (h : t.insert? id p = some u) :
    t.find? id = none ∧ u.entries = (id, p) :: t.entries := by
  rw [insert?] at h
  split at h
  · simp at h
  · rename_i hc
    rw [contains_eq_isSome, Option.isSome_iff_ne_none, not_not] at hc
    obtain rfl := Option.some.inj h
    exact ⟨hc, rfl⟩

theorem find?_of_insert?_self {t u : Table} {id : Nat} {p : Pending}
    (h : t.insert? id p = some u) : u.find? id = some p := by
  rw [find?_eq_some_iff, (entries_of_insert? h).2]
  exact List.mem_cons_self

theorem find?_of_insert?_of_ne {t u : Table} {id other : Nat} {p : Pending}
    (h : t.insert? id p = some u) (hne : other ≠ id) : u.find? other = t.find? other := by
  ext q
  simp [find?_eq_some_iff, (entries_of_insert? h).2, hne]

theorem tickets_of_insert? {t u : Table} {id : Nat} {p : Pending} (h : t.insert? id p = some u) :
    u.tickets = p.ticket :: t.tickets := by
  rw [tickets, (entries_of_insert? h).2]
  rfl

end LedgerClient.Table
