import LedgerClient.Proofs.Json.Integral
import LedgerClient.Proofs.Json.WrittenValue

/-!
# What is read off integral texts

Along the items of a list and the members of an object a text stays integral, so what holds of all
that is read off integral texts holds of all the items (`items_all`) and is kept from member to
member (`readMembers_keeps`). A value of any type that is read off an integral text is plain: it is
read back from the text that it is written as.
-/

namespace LedgerClient.Json

variable {cs rest : List Char}

/-! ## Along items and members -/

theorem integral_of_nextItem {first : Bool} {item : List Char}
    (h : nextItem first cs = .ok (.part item)) (hi : Integral (Zone.inside first) cs) :
    Integral .outside item := by
  obtain ⟨lead, hs, rfl, -⟩ := separated_of_nextItem h
  exact integral_dropSpace (integral_of_separated hs hi)

theorem integral_of_nextKey {first : Bool} {key : List Char}
    (h : nextKey first cs = .ok (.part key)) (hi : Integral (Zone.inside first) cs) :
    Integral .string key := by
  obtain ⟨lead, hs, hquote⟩ := separated_of_nextKey h
  have hlead := integral_dropSpace (integral_of_separated hs hi)
  rw [hquote] at hlead
  exact hlead.behind

theorem items_all {α : Type} {item : List Char → Step α} {P : α → Prop}
    (hs : ∀ {cs a rest}, item cs = .ok (a, rest) → Stands (dropSpace cs) rest)
    (hP : ∀ {cs a rest}, Integral .outside cs → item cs = .ok (a, rest) → P a)
    {bound : List Char} {first : Bool} {taken as : List α}
    (h : items item bound first taken cs = .ok (as, rest))
    (hi : Integral (Zone.inside first) cs) (ht : ∀ a ∈ taken, P a) : ∀ a ∈ as, P a := by
  refine items_induction (motive := fun _ first taken cs =>
    Integral (Zone.inside first) cs → (∀ a ∈ taken, P a) → ∀ a ∈ as, P a) ?_ ?_ h hi ht
  · intro _ _ _ _ _ has _ ht
    rw [has]
    simpa using ht
  · intro _ _ _ _ _ _ _ _ hn hitem _ ih hi ht
    have hpart := integral_of_nextItem hn hi
    have hbehind := integral_of_stands (hs hitem) (integral_dropSpace hpart)
    exact ih hbehind (List.forall_mem_cons.mpr ⟨hP hpart hitem, ht⟩)

theorem readMembers_keeps {σ : Type} {member : String → σ → List Char → Step σ} {P : σ → Prop}
    (ha : ∀ {key s cs s' rest}, member key s cs = .ok (s', rest) → Assigned cs rest)
    (hP : ∀ {key s cs s' rest}, Integral .outside cs → P s →
      member key s cs = .ok (s', rest) → P s')
    {bound : List Char} {first : Bool} {s s' : σ}
    (h : readMembers member bound first s cs = .ok (s', rest))
    (hi : Integral (Zone.inside first) cs) (hs : P s) : P s' := by
  refine readMembers_induction (motive := fun _ first s cs =>
    Integral (Zone.inside first) cs → P s → P s') ?_ ?_ h hi hs
  · intro _ _ _ _ _ hs
    exact hs
  · intro _ _ _ _ _ _ _ _ _ _ hn hkey hmember _ ih hi hs
    have hafter := integral_of_quoted (quoted_of_readText hkey) (integral_of_nextKey hn hi)
    obtain ⟨value, hcolon, hv⟩ := ha hmember
    have hvalue := hafter.number.separated hcolon (by decide)
    have hbehind := integral_of_stands hv (integral_dropSpace hvalue)
    exact ih hbehind (hP hafter hs hmember)

theorem integral_of_colon (h : colon cs = .ok rest) (hi : Integral .outside cs) :
    Integral .outside rest :=
  hi.number.separated (eq_of_colon h) (by decide)

theorem ok_of_afterColon {α : Type} {value : List Char → Step α} {a : α}
    (h : afterColon value cs = .ok (a, rest)) :
    ∃ item, colon cs = .ok item ∧ value item = .ok (a, rest) := by
  rw [afterColon] at h
  split at h
  · simp at h
  · rename_i item hc
    exact ⟨item, hc, h⟩

/-! ## Values of any type -/

/-- Members that come off an integral text are sorted and their values are plain. -/
def Members.Plain (room : Nat) (ms : Members) : Prop := ms.Sorted ∧ ∀ m ∈ ms, m.2.Plain room

theorem plain_keepMember {value : List Char → Step Value} {room : Nat} {key : String}
    {kept kept' : Members}
    (hv : ∀ {cs v rest}, Integral .outside cs → value cs = .ok (v, rest) → v.Plain room)
    (hi : Integral .outside cs) (hk : kept.Plain room)
    (h : keepMember value key kept cs = .ok (kept', rest)) : kept'.Plain room := by
  obtain ⟨v, hread, rfl⟩ := ok_of_keepMember h
  obtain ⟨item, hcolon, hvalue⟩ := ok_of_afterColon hread
  refine ⟨Members.sorted_insert hk.1, fun m hm => ?_⟩
  rcases Members.eq_or_mem_of_mem_insert hm with rfl | hm
  · exact hv (integral_of_colon hcolon hi) hvalue
  · exact hk.2 m hm

theorem plain_of_members {value : List Char → Step Value} {room : Nat} {ms : Members}
    (hs : ∀ {cs v rest}, value cs = .ok (v, rest) → Stands (dropSpace cs) rest)
    (hv : ∀ {cs v rest}, Integral .outside cs → value cs = .ok (v, rest) → v.Plain room)
    (hi : Integral .outside cs) (h : objectBody [] (keepMember value) .ok cs = .ok (ms, rest)) :
    ms.Plain room := by
  obtain ⟨state, behind, hread, hfinish, -⟩ := ok_of_objectBody h
  obtain rfl := Except.ok.inj hfinish
  exact readMembers_keeps (assigned_of_keepMember hs) (plain_keepMember hv) hread hi
    ⟨List.Pairwise.nil, nofun⟩

theorem plain_of_readAny {list object : List Char → Step Value} {room : Nat} {v : Value}
    (hl : ∀ {cs v rest}, Integral .outside cs → list cs = .ok (v, rest) → v.Plain room)
    (ho : ∀ {cs v rest}, Integral .outside cs → object cs = .ok (v, rest) → v.Plain room)
    (hi : Integral .outside cs) (h : readAny list object cs = .ok (v, rest)) : v.Plain room := by
  have hfirst := integral_dropSpace hi
  obtain ⟨c, more, hcs, ⟨letters, -, -, hv⟩ | ⟨-, s, -, rfl⟩ | ⟨hc, n, hn, rfl⟩ | ⟨rfl, hlist⟩ |
    ⟨rfl, hobject⟩⟩ := readAny_cases h
  · rcases hv with ⟨-, rfl⟩ | ⟨b, rfl⟩
    · exact .null
    · exact .bool b
  · exact .text _
  · rw [hcs] at hfirst
    obtain ⟨i, rfl, hmin, hmax⟩ := int_of_readNumber hfirst hc hn
    exact .integer hmin hmax
  · rw [hcs] at hfirst
    exact hl hfirst.behind hlist
  · rw [hcs] at hfirst
    exact ho hfirst.behind hobject

/-- A value that is read off an integral text is plain. -/
theorem plain_of_value {room : Nat} {v : Value} (hi : Integral .outside cs)
    (h : Reader.value room cs = .ok (v, rest)) : v.Plain room := by
  induction room generalizing cs v rest with
  | zero =>
    refine plain_of_readAny ?_ ?_ hi h <;> (intro cs v rest _ hdeep; simp [tooDeep] at hdeep)
  | succ room ih =>
    refine plain_of_readAny ?_ ?_ hi h
    · intro cs v rest hi hl
      split at hl
      · simp at hl
      · rename_i hb
        obtain ⟨rfl, rfl⟩ := Prod.mk.inj (Except.ok.inj hl)
        obtain ⟨behind, hread, -⟩ := ok_of_enclose hb
        exact .list (items_all (fun hv => sound_value hv) (fun hi hv => ih hi hv) hread hi nofun)
    · intro cs v rest hi ho
      split at ho
      · simp at ho
      · rename_i hb
        obtain ⟨rfl, rfl⟩ := Prod.mk.inj (Except.ok.inj ho)
        obtain ⟨hsorted, hplain⟩ :=
          plain_of_members (fun hv => sound_value hv) (fun hi hv => ih hi hv) hi hb
        exact .object hsorted hplain

end LedgerClient.Json
