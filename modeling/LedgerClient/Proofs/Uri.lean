import LedgerClient.Uri
import LedgerClient.Text.Number
import Mathlib.Data.List.TakeWhile

/-!
# How authorities are written

An authority is user information up to an at sign, a host and a port behind a colon, of which the
first and the last may be missing; a host in brackets may hold colons (`Uri.Written`). The host and
the port that are found in such an authority are those that are written there.
-/

namespace LedgerClient

theorem Text.eq_of_stripStart? {p cs rest : List Char} (h : stripStart? p cs = some rest) :
    cs = p ++ rest := by
  induction p generalizing cs with
  | nil => exact Option.some.inj h
  | cons c p ih =>
    cases cs with
    | nil => simp [stripStart?] at h
    | cons d cs =>
      rw [stripStart?, Option.ite_none_right_eq_some] at h
      rw [h.1, ih h.2, List.cons_append]

namespace Uri

/-! ## The last occurrence of a character -/

section

variable {c : Char} {front back : List Char}

theorem afterLast?_of_notMem (h : c ∉ back) : afterLast? c back = none := by
  rw [afterLast?, if_neg (by simpa using h)]

theorem afterLast?_append_cons (h : c ∉ back) : afterLast? c (front ++ c :: back) = some back := by
  have hrev : ∀ d ∈ back.reverse, decide (d ≠ c) = true := by
    intro d hd
    rw [List.mem_reverse] at hd
    simpa using ne_of_mem_of_not_mem hd h
  rw [afterLast?, if_pos (by simp), List.reverse_append, List.reverse_cons, List.append_assoc,
    List.takeWhile_append_of_pos hrev, List.singleton_append,
    List.takeWhile_cons_of_neg (by simp), List.append_nil, List.reverse_reverse]

theorem exists_last {cs : List Char} (h : c ∈ cs) :
    ∃ front back, cs = front ++ c :: back ∧ c ∉ back := by
  obtain ⟨back, front, hcs, hback⟩ := List.eq_append_cons_of_mem (List.mem_reverse.mpr h)
  refine ⟨front.reverse, back.reverse, ?_, by simpa using hback⟩
  rw [← List.reverse_reverse cs, hcs]
  simp

theorem afterLast?_append (h : c ∉ back) :
    afterLast? c (front ++ back) = (afterLast? c front).map (· ++ back) := by
  by_cases hc : c ∈ front
  · obtain ⟨start, tail, rfl, htail⟩ := exists_last hc
    rw [List.append_assoc, List.cons_append, afterLast?_append_cons htail,
      afterLast?_append_cons (by simp [h, htail])]
    rfl
  · rw [afterLast?_of_notMem (by simp [hc, h]), afterLast?_of_notMem hc]
    rfl

end

/-! ## Authorities -/

/-- A host as it stands in an authority. -/
inductive Host
  | plain (name : List Char)
  | bracketed (name : List Char)

namespace Host

def name : Host → List Char
  | plain name => name
  | bracketed name => name

def chars : Host → List Char
  | plain name => name
  | bracketed name => '[' :: (name ++ [']'])

/-- Without brackets in it, and without a colon unless it is in brackets. -/
def Proper : Host → Prop
  | plain name => '[' ∉ name ∧ ']' ∉ name ∧ ':' ∉ name
  | bracketed name => '[' ∉ name ∧ ']' ∉ name

end Host

/-- A port with the colon in front of it. -/
def portChars : Option (List Char) → List Char
  | none => []
  | some port => ':' :: port

def userChars : Option (List Char) → List Char
  | none => []
  | some user => user ++ ['@']

/-- An authority is written with a host and a port. -/
def Written (authority : List Char) (host : Host) (port : Option (List Char)) : Prop :=
  host.Proper ∧ '@' ∉ host.chars ++ portChars port ∧
    ∃ user, authority = userChars user ++ (host.chars ++ portChars port)

theorem exists_written {authority : List Char} (hopen : '[' ∉ authority)
    (hclose : ']' ∉ authority) : ∃ host port, Written authority host port := by
  have hsplit : ∃ user hostPort, authority = userChars user ++ hostPort ∧ '@' ∉ hostPort := by
    by_cases hat : '@' ∈ authority
    · obtain ⟨user, hostPort, rfl, hrest⟩ := exists_last hat
      exact ⟨some user, hostPort, by simp [userChars], hrest⟩
    · exact ⟨none, authority, rfl, hat⟩
  obtain ⟨user, hostPort, rfl, hat⟩ := hsplit
  by_cases hcolon : ':' ∈ hostPort
  · obtain ⟨name, port, rfl, hname⟩ := List.eq_append_cons_of_mem hcolon
    exact ⟨.plain name, some port, ⟨by simp_all, by simp_all, hname⟩, hat, user, rfl⟩
  · refine ⟨.plain hostPort, none, ⟨by simp_all, by simp_all, hcolon⟩, ?_, user, ?_⟩
    · simpa [Host.chars, portChars] using hat
    · simp [Host.chars, portChars]

/-- The port that is written, or the default one if there is no port or an empty one. A plus sign may
stand before the digits. Anything else that stands there has no value. -/
inductive PortValue : Option (List Char) → Nat → Prop
  | missing : PortValue none 80
  | empty : PortValue (some []) 80
  | digits {ds : List Char} : ds ≠ [] → ds.all Char.isDigit = true →
      PortValue (some ds) (Nat.ofDigitChars 10 ds 0)
  | signed {ds : List Char} : ds ≠ [] → ds.all Char.isDigit = true →
      PortValue (some ('+' :: ds)) (Nat.ofDigitChars 10 ds 0)

variable {u : Uri} {h : Host} {port : Option (List Char)}

theorem hostPort_of_written (hw : Written u.authority h port) :
    (afterLast? '@' u.authority).getD u.authority = h.chars ++ portChars port := by
  obtain ⟨-, hat, user, he⟩ := hw
  rw [he]
  cases user with
  | none => rw [userChars, List.nil_append, afterLast?_of_notMem hat, Option.getD_none]
  | some user =>
    rw [userChars, List.append_assoc, List.singleton_append, afterLast?_append_cons hat,
      Option.getD_some]

theorem takeWhile_portChars {name : List Char} (hcolon : ':' ∉ name) :
    (name ++ portChars port).takeWhile (· ≠ ':') = name := by
  have hname : ∀ c ∈ name, decide (c ≠ ':') = true := fun c hc => by
    simpa using ne_of_mem_of_not_mem hc hcolon
  rw [List.takeWhile_append_of_pos hname]
  cases port <;> simp [portChars]

theorem host_of_written (hw : Written u.authority h port) : u.host = h.chars := by
  have hhostPort := hostPort_of_written hw
  obtain ⟨hproper, -⟩ := hw
  unfold host
  rw [hhostPort]
  cases h with
  | plain name =>
    obtain ⟨hopen, -, hcolon⟩ := hproper
    simp only [Host.chars]
    split
    · -- neither the name nor a port begins with a bracket
      rename_i rest heq
      cases name with
      | nil => cases port <;> simp [portChars] at heq
      | cons c name => simp_all
    · exact takeWhile_portChars hcolon
  | bracketed name =>
    have hname : ∀ c ∈ '[' :: name, decide (c ≠ ']') = true := by
      have hclose := hproper.2
      simp only [List.mem_cons, decide_eq_true_eq]
      rintro c (rfl | hc)
      · decide
      · exact ne_of_mem_of_not_mem hc hclose
    simp only [Host.chars, List.cons_append, List.append_assoc]
    rw [← List.cons_append, List.takeWhile_append_of_pos hname]
    simp

/-! ## Ports -/

theorem portNumber?_of_mem {cs : List Char} {c : Char} (hc : c ∈ cs) (hd : c.isDigit = false)
    (hplus : c ≠ '+') : portNumber? cs = none := by
  have hmem : c ∈ (Text.stripStart? ['+'] cs).getD cs := by
    cases hstrip : Text.stripStart? ['+'] cs with
    | none => exact hc
    | some rest =>
      rw [Text.eq_of_stripStart? hstrip] at hc
      simpa [hplus] using hc
  rw [portNumber?, if_pos]
  simp only [Bool.or_eq_true, Bool.not_eq_true', List.all_eq_false]
  exact .inr ⟨c, hmem, by simp [hd]⟩

theorem stripStart?_of_digits {ds : List Char} (hd : ds.all Char.isDigit = true) :
    Text.stripStart? ['+'] ds = none := by
  cases ds with
  | nil => rfl
  | cons d ds =>
    rw [Text.stripStart?, if_neg]
    rintro rfl
    simp at hd

theorem portNumber?_of_strip (cs : List Char) {ds : List Char}
    (hs : (Text.stripStart? ['+'] cs).getD cs = ds) (hne : ds ≠ []) (hd : ds.all Char.isDigit = true) :
    portNumber? cs =
      if Nat.ofDigitChars 10 ds 0 < 65536 then some (Nat.ofDigitChars 10 ds 0) else none := by
  have hne' : ds.isEmpty = false := by simpa using hne
  rw [portNumber?, hs]
  simp only [hne', hd, Bool.not_true, Bool.or_self, Bool.false_eq_true, if_false]
  rfl

theorem portNumber?_of_digits {ds : List Char} (hne : ds ≠ []) (hd : ds.all Char.isDigit = true) :
    portNumber? ds =
        (if Nat.ofDigitChars 10 ds 0 < 65536 then some (Nat.ofDigitChars 10 ds 0) else none) ∧
      portNumber? ('+' :: ds) = portNumber? ds := by
  have hplain := portNumber?_of_strip ds (by rw [stripStart?_of_digits hd]; rfl) hne hd
  have hsigned := portNumber?_of_strip ('+' :: ds) rfl hne hd
  exact ⟨hplain, hsigned.trans hplain.symm⟩

theorem portValue_of_portNumber? {cs : List Char} {n : Nat} (h : portNumber? cs = some n) :
    PortValue (some cs) n := by
  obtain ⟨ds, hs⟩ : ∃ ds, (Text.stripStart? ['+'] cs).getD cs = ds := ⟨_, rfl⟩
  have hdigits : ds ≠ [] ∧ ds.all Char.isDigit = true := by
    rw [portNumber?, hs] at h
    split_ifs at h with hbad
    simpa using hbad
  rw [portNumber?_of_strip cs hs hdigits.1 hdigits.2] at h
  split_ifs at h
  obtain rfl := Option.some.inj h
  cases hstrip : Text.stripStart? ['+'] cs with
  | none =>
    obtain rfl : cs = ds := by rwa [hstrip, Option.getD_none] at hs
    exact .digits hdigits.1 hdigits.2
  | some rest =>
    rw [hstrip, Option.getD_some] at hs
    rw [Text.eq_of_stripStart? hstrip, hs]
    exact .signed hdigits.1 hdigits.2

theorem port?_of_missing (hw : Written u.authority h none) : u.port? = none := by
  obtain ⟨hproper, hat, user, he⟩ := hw
  have hlast (front back : List Char) (c : Char) (hcolon : ':' ∉ c :: back)
      (hd : c.isDigit = false) (hplus : c ≠ '+') (ha : u.authority = front ++ c :: back) :
      u.port? = none := by
    rw [port?, ha, afterLast?_append hcolon]
    cases afterLast? ':' front with
    | none => rfl
    | some tail => exact portNumber?_of_mem (by simp) hd hplus
  simp only [portChars, List.append_nil] at he
  cases h with
  | plain name =>
    cases user with
    | none =>
      rw [port?, he]
      exact congrArg (Option.bind · portNumber?) (afterLast?_of_notMem hproper.2.2)
    | some user =>
      refine hlast user name '@' (by simpa using hproper.2.2) (by decide) (by decide) ?_
      rw [he, userChars, List.append_assoc]
      rfl
  | bracketed name =>
    refine hlast (userChars user ++ '[' :: name) [] ']' (by decide) (by decide) (by decide) ?_
    rw [he, Host.chars, List.append_assoc]
    rfl

theorem port?_of_written {digits : List Char} (hw : Written u.authority h (some digits))
    (hcolon : ':' ∉ digits) : u.port? = portNumber? digits := by
  obtain ⟨-, -, user, he⟩ := hw
  rw [port?, he, portChars, ← List.append_assoc, afterLast?_append_cons hcolon]
  rfl

theorem port?_of_portValue {n : Nat} (hw : Written u.authority h port) (hv : PortValue port n) :
    u.port?.getD 80 = if n < 65536 then n else 80 := by
  have hcolon {ds : List Char} (hd : ds.all Char.isDigit = true) : ':' ∉ ds := fun hmem => by
    have := List.all_eq_true.mp hd _ hmem
    contradiction
  cases hv with
  | missing => rw [port?_of_missing hw]; rfl
  | empty => rw [port?_of_written hw (by simp)]; rfl
  | @digits ds hne hd =>
    rw [port?_of_written hw (hcolon hd), (portNumber?_of_digits hne hd).1]
    split <;> rfl
  | @signed ds hne hd =>
    have hsigned : ':' ∉ '+' :: ds := by simpa using hcolon hd
    rw [port?_of_written hw hsigned, (portNumber?_of_digits hne hd).2,
      (portNumber?_of_digits hne hd).1]
    split <;> rfl

theorem port?_of_valueless {cs : List Char} (hw : Written u.authority h (some cs))
    (hcolon : ':' ∉ cs) (hv : ∀ n, ¬ PortValue (some cs) n) : u.port? = none := by
  rw [port?_of_written hw hcolon]
  exact Option.eq_none_iff_forall_ne_some.mpr fun n hn => hv n (portValue_of_portNumber? hn)

end Uri

end LedgerClient
