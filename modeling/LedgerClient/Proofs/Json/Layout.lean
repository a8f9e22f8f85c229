import LedgerClient.Proofs.Json.Completeness

/-!
# How objects are laid out

What stands at the beginning of a text is what it is by its own characters. It may be cut off from
the rest of the text and put in front of another (`Cut`), which goes through the grammar category by
category. So an object falls apart into its members, each with the blanks around its parts
(`ObjectLayout`), and a text is an object just if it is laid out like one (`holds_iff`).
-/

namespace LedgerClient.Json

variable {cs mid rest : List Char}

/-! ## Parts of a text -/

/-- What stands in front of `rest` is related by `R` to any text behind it. -/
def Cut (R : List Char → List Char → Prop) (cs rest : List Char) : Prop :=
  ∃ used, cs = used ++ rest ∧ ∀ rest', R (used ++ rest') rest'

section

variable {R S T : List Char → List Char → Prop}

theorem Cut.of_nil (h : ∀ rest, R rest rest) (rest : List Char) : Cut R rest rest :=
  ⟨[], rfl, h⟩

theorem Cut.lead (lead : List Char) (h : Cut R cs rest)
    (hS : ∀ {cs rest}, R cs rest → S (lead ++ cs) rest) : Cut S (lead ++ cs) rest := by
  obtain ⟨used, rfl, hused⟩ := h
  refine ⟨lead ++ used, (List.append_assoc _ _ _).symm, fun rest' => ?_⟩
  rw [List.append_assoc]
  exact hS (hused rest')

theorem Cut.trans (h : Cut R cs mid) (h' : Cut S mid rest)
    (hT : ∀ {cs mid rest}, R cs mid → S mid rest → T cs rest) : Cut T cs rest := by
  obtain ⟨used, rfl, hused⟩ := h
  obtain ⟨used', rfl, hused'⟩ := h'
  refine ⟨used ++ used', (List.append_assoc _ _ _).symm, fun rest' => ?_⟩
  rw [List.append_assoc]
  exact hT (hused _) (hused' rest')

theorem Cut.mono (h : Cut R cs rest) (hS : ∀ {cs rest}, R cs rest → S cs rest) : Cut S cs rest := by
  obtain ⟨used, rfl, hused⟩ := h
  exact ⟨used, rfl, fun rest' => hS (hused rest')⟩

theorem Cut.append (h : Cut R cs []) (rest : List Char) : R (cs ++ rest) rest := by
  obtain ⟨used, rfl, hused⟩ := h
  rw [List.append_nil]
  exact hused rest

end

/-! ## Blanks -/

def Blank (cs : List Char) : Prop := ∀ c ∈ cs, isSpace c = true

theorem blank_nil : Blank [] := nofun

theorem exists_blank (cs : List Char) : ∃ blanks, Blank blanks ∧ cs = blanks ++ dropSpace cs :=
  ⟨cs.takeWhile isSpace, fun _ => List.mem_takeWhile_imp, List.takeWhile_append_dropWhile.symm⟩

theorem dropSpace_append {blanks : List Char} (h : Blank blanks) (cs : List Char) :
    dropSpace (blanks ++ cs) = dropSpace cs :=
  List.dropWhile_append_of_pos h

theorem dropSpace_of_blank {blanks : List Char} (h : Blank blanks) : dropSpace blanks = [] := by
  rw [← List.append_nil blanks, dropSpace_append h]
  rfl

theorem blank_of_dropSpace (h : dropSpace cs = []) : Blank cs := by
  obtain ⟨blanks, hb, he⟩ := exists_blank cs
  rw [h, List.append_nil] at he
  exact he ▸ hb

theorem isSpace_of_dropSpace {c : Char} (h : dropSpace cs = c :: rest) : isSpace c = false := by
  have hdrop := dropSpace_cons h
  by_contra hc
  rw [dropSpace, List.dropWhile_cons_of_pos (by simpa using hc)] at hdrop
  have hlen := length_dropSpace rest
  rw [dropSpace, hdrop, List.length_cons] at hlen
  omega

theorem dropSpace_eq {blanks : List Char} {c : Char} (h : Blank blanks) (hc : isSpace c = false)
    (cs : List Char) : dropSpace (blanks ++ c :: cs) = c :: cs := by
  rw [dropSpace_append h]
  exact List.dropWhile_cons_of_neg (by simp [hc])

theorem cut_dropSpace {c : Char} (h : dropSpace cs = c :: rest) :
    Cut (fun cs rest => dropSpace cs = c :: rest) cs rest := by
  obtain ⟨blanks, hb, he⟩ := exists_blank cs
  rw [h] at he
  refine ⟨blanks ++ [c], by rw [he]; simp, fun rest' => ?_⟩
  rw [List.append_assoc]
  exact dropSpace_eq hb (isSpace_of_dropSpace h) rest'

/-! ## Strings and numbers -/

theorem cut_of_quoted (h : Quoted cs rest) : Cut Quoted cs rest := by
  induction h with
  | close => exact .lead ['"'] (.of_nil (R := Eq) (fun _ => rfl) _) fun h => h ▸ .close
  | @plain c _ _ hquote hslash hcontrol _ ih =>
    exact ih.lead [c] (.plain hquote hslash hcontrol)
  | @escape c _ _ hc _ ih => exact ih.lead ['\\', c] (.escape hc)
  | @unicode a b c d _ _ ha hb hc hd _ ih =>
    exact ih.lead ['\\', 'u', a, b, c, d] (.unicode ha hb hc hd)

theorem cut_of_digits (h : Digits cs rest) : Cut Digits cs rest := by
  induction h with
  | @last c _ hc => exact .lead [c] (.of_nil (R := Eq) (fun _ => rfl) _) fun h => h ▸ .last hc
  | @more c _ _ hc _ ih => exact ih.lead [c] (.more hc)

theorem cut_of_whole (h : Whole cs rest) : Cut Whole cs rest := by
  cases h with
  | zero => exact .lead ['0'] (.of_nil (R := Eq) (fun _ => rfl) _) fun h => h ▸ .zero
  | @digits c more _ hc hd =>
    obtain ⟨used, hused, hcut⟩ := cut_of_digits hd
    cases used with
    | nil =>
      have hlen := length_of_digits hd
      rw [hused, List.nil_append] at hlen
      omega
    | cons d used =>
      obtain ⟨rfl, rfl⟩ := List.cons.inj hused
      exact ⟨c :: used, rfl, fun rest' => .digits hc (hcut rest')⟩

theorem cut_of_fraction (h : Fraction cs rest) : Cut Fraction cs rest := by
  cases h with
  | missing => exact .of_nil (fun _ => .missing) _
  | point hd => exact (cut_of_digits hd).lead ['.'] .point

theorem cut_of_exponent (h : Exponent cs rest) : Cut Exponent cs rest := by
  cases h with
  | missing => exact .of_nil (fun _ => .missing) _
  | @plain e _ _ he hd => exact (cut_of_digits hd).lead [e] (.plain he)
  | @signed e sign _ _ he hsign hd => exact (cut_of_digits hd).lead [e, sign] (.signed he hsign)

theorem cut_of_numeral (h : Numeral cs rest) : Cut Numeral cs rest := by
  have hunsigned {cs whole fraction rest : List Char} (hw : Whole cs whole)
      (hf : Fraction whole fraction) (he : Exponent fraction rest) :
      Cut (fun cs rest => Numeral cs rest ∧ Numeral ('-' :: cs) rest) cs rest := by
    have htail : Cut (fun whole rest => ∃ fraction, Fraction whole fraction ∧
        Exponent fraction rest) whole rest :=
      (cut_of_fraction hf).trans (cut_of_exponent he) fun hf he => ⟨_, hf, he⟩
    exact (cut_of_whole hw).trans htail fun hw ⟨_, hf, he⟩ =>
      ⟨.positive hw hf he, .negative hw hf he⟩
  cases h with
  | positive hw hf he => exact (hunsigned hw hf he).mono (·.1)
  | negative hw hf he => exact (hunsigned hw hf he).lead ['-'] (·.2)

/-! ## Values -/

theorem cut_of_separated {first : Bool} (h : Separated first cs rest) :
    Cut (Separated first) cs rest := by
  cases first with
  | false => exact cut_dropSpace h
  | true =>
    obtain rfl : rest = cs := h
    exact .of_nil (R := Separated true) (fun _ => rfl) _

theorem cut_of_led {kind : Container} (h : Led kind cs rest) : Cut (Led kind) cs rest := by
  cases kind with
  | list =>
    obtain rfl : rest = cs := h
    exact .of_nil (R := Led .list) (fun _ => rfl) _
  | object =>
    obtain ⟨key, colon, hkey, hq, hcolon⟩ := h
    have hname : Cut (fun cs colon => ∃ key, dropSpace cs = '"' :: key ∧ Quoted key colon)
        cs colon :=
      (cut_dropSpace hkey).trans (cut_of_quoted hq) fun hkey hq => ⟨_, hkey, hq⟩
    exact hname.trans (cut_dropSpace hcolon) fun ⟨key, hkey, hq⟩ hcolon =>
      ⟨key, _, hkey, hq, hcolon⟩

theorem Stands.solid (h : Stands cs rest) : ∃ c more, cs = c :: more ∧ isSpace c = false := by
  cases h with
  | word hw =>
    simp only [words, List.mem_cons, List.not_mem_nil, or_false] at hw
    rcases hw with rfl | rfl | rfl <;> exact ⟨_, _, rfl, rfl⟩
  | text _ => exact ⟨_, _, rfl, rfl⟩
  | number hn =>
    obtain ⟨c, more, rfl, hc⟩ := hn.head
    exact ⟨c, more, rfl, isSpace_of_digit hc⟩
  | container kind _ => cases kind <;> exact ⟨_, _, rfl, rfl⟩

theorem cut_behind_blanks (h : Cut Stands (dropSpace cs) rest) :
    Cut (fun cs rest => Stands (dropSpace cs) rest) cs rest := by
  obtain ⟨blanks, hb, he⟩ := exists_blank cs
  rw [he]
  refine h.lead blanks fun {cs _} hs => ?_
  obtain ⟨c, more, rfl, hc⟩ := hs.solid
  rwa [dropSpace_eq hb hc]

mutual

theorem cut_of_stands {cs rest : List Char} (h : Stands cs rest) : Cut Stands cs rest := by
  match h with
  | @Stands.word letters _ hw =>
    exact .lead letters (.of_nil (R := Eq) (fun _ => rfl) _) fun h => h ▸ .word hw
  | .text hq => exact (cut_of_quoted hq).lead ['"'] .text
  | .number hn => exact (cut_of_numeral hn).mono .number
  | .container kind hc => exact (cut_of_contents hc).lead [kind.bracket] (.container kind)

theorem cut_of_contents {kind : Container} {first : Bool} {cs rest : List Char}
    (h : Contents kind first cs rest) : Cut (Contents kind first) cs rest := by
  match h with
  | .close hc => exact (cut_dropSpace hc).mono .close
  | .value hs hl hv hc =>
    have hlead : Cut (fun cs item => ∃ lead, Separated first cs lead ∧ Led kind lead item) cs _ :=
      (cut_of_separated hs).trans (cut_of_led hl) fun hs hl => ⟨_, hs, hl⟩
    have hvalue : Cut (fun item rest => ∃ behind, Stands (dropSpace item) behind ∧
        Contents kind false behind rest) _ rest :=
      (cut_behind_blanks (cut_of_stands hv)).trans (cut_of_contents hc) fun hv hc => ⟨_, hv, hc⟩
    exact hlead.trans hvalue fun ⟨_, hs, hl⟩ ⟨_, hv, hc⟩ => .value hs hl hv hc

end

theorem stands_append (h : Stands (dropSpace cs) []) (rest : List Char) :
    Stands (dropSpace (cs ++ rest)) rest :=
  (cut_behind_blanks (cut_of_stands h)).append rest

/-! ## Objects -/

/-- A member of an object as it stands in a text. -/
structure MemberLayout where
  before : List Char
  /-- The key behind its opening quote, with the closing one. -/
  key : List Char
  between : List Char
  /-- The value behind the colon, with the blanks in front of it. -/
  value : List Char
  behind : List Char
  blank_before : Blank before
  quoted : Quoted key []
  blank_between : Blank between
  stands : Stands (dropSpace value) []
  blank_behind : Blank behind

namespace MemberLayout

/-- A member with its key, from behind the opening quote on, and its value, and no blank but in
front of the value. -/
def compact (key value : String) (hk : skipText key.toList = .ok [])
    (hv : skip value.toList = .ok []) : MemberLayout :=
  ⟨[], key.toList, [], value.toList, [], blank_nil, quoted_of_skipText hk, blank_nil,
    stands_of_skip hv, blank_nil⟩

/-- The text of a member up to its value, in front of a text. -/
def upToValue (m : MemberLayout) (rest : List Char) : List Char :=
  m.before ++ '"' :: (m.key ++ (m.between ++ ':' :: (m.value ++ rest)))

theorem length_lt_upToValue (m : MemberLayout) (rest : List Char) :
    rest.length + 1 < (m.upToValue rest).length := by
  simp only [upToValue, List.length_append, List.length_cons]
  omega

/-- The members behind the first, each with the comma in front of it, in front of a text. -/
def more : List MemberLayout → List Char → List Char
  | [], rest => rest
  | m :: ms, rest => ',' :: m.upToValue (m.behind ++ more ms rest)

theorem length_le_more (ms : List MemberLayout) (rest : List Char) :
    ms.length ≤ (more ms rest).length := by
  induction ms with
  | nil => exact Nat.zero_le _
  | cons m ms ih =>
    have hlen := m.length_lt_upToValue (m.behind ++ more ms rest)
    simp only [more, List.length_cons, List.length_append] at hlen ⊢
    omega

/-- The members of an object in front of a text. -/
def all : List MemberLayout → List Char → List Char
  | [], rest => rest
  | m :: ms, rest => m.upToValue (m.behind ++ more ms rest)

theorem length_lt_all (ms : List MemberLayout) (inner rest : List Char) :
    ms.length < (all ms (inner ++ '\x7d' :: rest)).length := by
  cases ms with
  | nil =>
    simp only [all, List.length_append, List.length_cons, List.length_nil]
    omega
  | cons m ms =>
    have hlen := m.length_lt_upToValue (m.behind ++ more ms (inner ++ '\x7d' :: rest))
    have hmore := length_le_more ms (inner ++ '\x7d' :: rest)
    simp only [all, List.length_cons, List.length_append] at hlen ⊢
    omega

theorem led (m : MemberLayout) (rest : List Char) :
    Led .object (m.upToValue rest) (m.value ++ rest) :=
  ⟨_, _, dropSpace_eq m.blank_before (by decide) _, (cut_of_quoted m.quoted).append _,
    dropSpace_eq m.blank_between (by decide) _⟩

end MemberLayout

/-- An object as it stands in a text. -/
structure ObjectLayout where
  before : List Char
  members : List MemberLayout
  /-- What stands in front of the closing brace. -/
  inner : List Char
  behind : List Char
  blank_before : Blank before
  blank_inner : Blank inner
  blank_behind : Blank behind

def ObjectLayout.chars (o : ObjectLayout) : List Char :=
  o.before ++ '\x7b' :: MemberLayout.all o.members (o.inner ++ '\x7d' :: o.behind)

/-- An object with another member in front of the one with a number. -/
def ObjectLayout.insert (o : ObjectLayout) (i : Nat) (m : MemberLayout) : ObjectLayout :=
  { o with members := o.members.insertIdx i m }

def ObjectLayout.text (o : ObjectLayout) : String := String.ofList o.chars

theorem exists_member {lead item after blanks : List Char} (hl : Led .object lead item)
    (hv : Stands (dropSpace item) after) (hb : Blank blanks) (ha : after = blanks ++ rest) :
    ∃ m : MemberLayout, lead = m.upToValue (m.behind ++ rest) := by
  obtain ⟨key, colon, hkey, hq, hcolon⟩ := hl
  obtain ⟨before, hbefore, hlead⟩ := exists_blank lead
  obtain ⟨used, rfl, hquoted⟩ := cut_of_quoted hq
  obtain ⟨between, hbetween, hcut⟩ := exists_blank colon
  obtain ⟨value, rfl, hvalue⟩ := cut_behind_blanks (cut_of_stands hv)
  have hquoted := hquoted []
  have hvalue := hvalue []
  rw [List.append_nil] at hquoted hvalue
  refine ⟨⟨before, used, between, value, blanks, hbefore, hquoted, hbetween, hvalue, hb⟩, ?_⟩
  rw [hlead, hkey, hcut, hcolon, ha]
  rfl

theorem exists_more {kind : Container} {first : Bool} {cs rest : List Char}
    (h : Contents kind first cs rest) (hkind : kind = .object) (hfirst : first = false) :
    ∃ lead ms inner, Blank lead ∧ Blank inner ∧
      cs = lead ++ MemberLayout.more ms (inner ++ '\x7d' :: rest) := by
  match h with
  | .close hc =>
    subst hkind
    obtain ⟨inner, hinner, hcs⟩ := exists_blank cs
    rw [hc] at hcs
    exact ⟨[], [], inner, blank_nil, hinner, hcs⟩
  | .value hs hl hv hc =>
    obtain ⟨blanks, ms, inner, hblanks, hinner, hbehind⟩ := exists_more hc hkind rfl
    subst hkind hfirst
    obtain ⟨lead, hlead, hcs⟩ := exists_blank cs
    obtain ⟨m, hm⟩ := exists_member hl hv hblanks hbehind
    refine ⟨lead, m :: ms, inner, hlead, hinner, ?_⟩
    have hcomma : dropSpace cs = ',' :: _ := hs
    rw [hcomma, hm] at hcs
    exact hcs

theorem exists_layout (h : Contents .object true cs rest) :
    ∃ ms inner, Blank inner ∧ cs = MemberLayout.all ms (inner ++ '\x7d' :: rest) := by
  cases h with
  | close hc =>
    obtain ⟨inner, hinner, hcs⟩ := exists_blank cs
    rw [hc] at hcs
    exact ⟨[], inner, hinner, hcs⟩
  | value hs hl hv hc =>
    obtain ⟨blanks, ms, inner, hblanks, hinner, hbehind⟩ := exists_more hc rfl rfl
    obtain ⟨m, hm⟩ := exists_member hl hv hblanks hbehind
    obtain rfl : _ = cs := hs
    exact ⟨m :: ms, inner, hinner, hm⟩

theorem contents_of_more {lead inner : List Char} (ms : List MemberLayout) (hl : Blank lead)
    (hi : Blank inner) :
    Contents .object false (lead ++ MemberLayout.more ms (inner ++ '\x7d' :: rest)) rest := by
  induction ms generalizing lead with
  | nil =>
    refine .close ?_
    rw [dropSpace_append hl]
    exact dropSpace_eq hi (by decide) rest
  | cons m ms ih =>
    exact .value (dropSpace_eq hl (by decide) _) (m.led _) (stands_append m.stands _)
      (ih m.blank_behind)

/-- A text is an object just if it is laid out like one. -/
theorem holds_iff {text : String} :
    Holds .object text.toList ↔ ∃ o : ObjectLayout, o.text = text := by
  constructor
  · rintro ⟨contents, rest, hcs, hc, hrest⟩
    obtain ⟨before, hbefore, htext⟩ := exists_blank text.toList
    obtain ⟨ms, inner, hinner, rfl⟩ := exists_layout hc
    refine ⟨⟨before, ms, inner, rest, hbefore, hinner, blank_of_dropSpace hrest⟩, ?_⟩
    rw [hcs] at htext
    exact String.toList_inj.mp (by rw [htext]; exact String.toList_ofList)
  · rintro ⟨⟨before, ms, inner, behind, hbefore, hinner, hbehind⟩, rfl⟩
    refine ⟨MemberLayout.all ms (inner ++ '\x7d' :: behind), behind, ?_, ?_,
      dropSpace_of_blank hbehind⟩
    · rw [ObjectLayout.text, String.toList_ofList]
      exact dropSpace_eq hbefore (by decide) _
    · cases ms with
      | nil => exact .close (dropSpace_eq hinner (by decide) behind)
      | cons m ms =>
        exact .value rfl (m.led _) (stands_append m.stands _)
          (contents_of_more ms m.blank_behind hinner)

end LedgerClient.Json
