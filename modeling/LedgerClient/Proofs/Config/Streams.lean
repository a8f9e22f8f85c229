import LedgerClient.Config.Environment
import LedgerClient.Proofs.Text.Words

/-!
# Lists of streams

A list of streams is given in arguments, each of which is cut at its commas, or in a variable, which is
cut at its commas too. In the first the entry that is no stream ends the reading, in the second it is
passed over; `mapM_eq_ok_iff` and `mapM_eq_error_iff` say what that comes to. Empty entries count for
nothing in either, but only the variable passes over blank ones. So the two agree on a text without
blanks, and a list that is written out is read back, as it stands or word by word (`streamsReadAlike`).
-/

namespace LedgerClient

/-! ## Ending at a fault and passing over it -/

section

variable {α β ε : Type}

/-- What is wrong among some results, in their order. -/
def faultsOf : List (Except ε β) → List ε
  | [] => []
  | .ok _ :: results => faultsOf results
  | .error e :: results => e :: faultsOf results

/-- What is left of some results if faults are passed over. -/
def valuesOf : List (Except ε β) → List β
  | [] => []
  | .ok b :: results => b :: valuesOf results
  | .error _ :: results => valuesOf results

theorem mapM_cons_of_ok {f : α → Except ε β} {a : α} {b : β} (h : f a = .ok b) (as : List α) :
    (a :: as).mapM f = (as.mapM f).map (b :: ·) := by
  rw [List.mapM_cons, h]
  cases as.mapM f <;> rfl

theorem mapM_cons_of_error {f : α → Except ε β} {a : α} {e : ε} (h : f a = .error e)
    (as : List α) : (a :: as).mapM f = .error e := by
  rw [List.mapM_cons, h]
  rfl

theorem mapM_eq_ok_iff {f : α → Except ε β} {as : List α} {bs : List β} :
    as.mapM f = .ok bs ↔ faultsOf (as.map f) = [] ∧ valuesOf (as.map f) = bs := by
  induction as generalizing bs with
  | nil => simp [pure, Except.pure, faultsOf, valuesOf]
  | cons a as ih =>
    rw [List.map_cons]
    cases ha : f a with
    | error e => simp [mapM_cons_of_error ha, faultsOf]
    | ok b =>
      rw [mapM_cons_of_ok ha, faultsOf, valuesOf]
      cases bs with
      | nil => cases as.mapM f <;> simp [Except.map]
      | cons b' bs =>
        rw [List.cons.injEq, ← and_left_comm, ← ih]
        cases as.mapM f <;> simp [Except.map]

theorem mapM_eq_error_iff {f : α → Except ε β} {as : List α} {e : ε} :
    as.mapM f = .error e ↔ (faultsOf (as.map f)).head? = some e := by
  induction as with
  | nil => simp [pure, Except.pure, faultsOf]
  | cons a as ih =>
    rw [List.map_cons]
    cases ha : f a with
    | error e' => simp [mapM_cons_of_error ha, faultsOf]
    | ok b =>
      rw [mapM_cons_of_ok ha, faultsOf, ← ih]
      cases as.mapM f <;> simp [Except.map]

theorem mapM_map_eq_ok {f : α → Except ε β} {g : β → α} (h : ∀ b, f (g b) = .ok b)
    (bs : List β) : (bs.map g).mapM f = .ok bs := by
  induction bs with
  | nil => rfl
  | cons b bs ih =>
    rw [List.map_cons, mapM_cons_of_ok (h b), ih]
    rfl

end

/-! ## Lists in arguments -/

namespace Stream.Category

/-- What stands between the commas of arguments, unless it is nothing. -/
def entries (arguments : List String) : List (List Char) :=
  (arguments.flatMap fun a => Text.pieces (· == ',') a.toList).filter (!·.isEmpty)

def parseEntry (entry : List Char) : Except ProtocolError Category := parse (String.ofList entry)

theorem parseList_eq (arguments : List String) :
    parseList arguments = (entries arguments).mapM parseEntry := rfl

theorem parseEntry_name (c : Category) : parseEntry c.name.toList = .ok c := by
  cases c <;> rfl

theorem parseEntry_space (c : Category) : parseEntry (' ' :: c.name.toList) = .ok c := by
  cases c <;> rfl

theorem name_solid (c : Category) : c.name.toList ≠ [] ∧
    ∀ d ∈ c.name.toList, Text.isBlank d = false ∧ (d == ',') = false := by
  cases c <;> simp [name, Text.isBlank]

theorem toList_join_cons (c d : Category) (rest : List Category) :
    (join (c :: d :: rest)).toList = c.name.toList ++ ',' :: ' ' :: (join (d :: rest)).toList := by
  simp [join, Text.joinWith]

theorem words_join_cons (c d : Category) (rest : List Category) :
    Text.words (join (c :: d :: rest)).toList =
      (c.name.toList ++ [',']) :: Text.words (join (d :: rest)).toList := by
  have hchars : (join (c :: d :: rest)).toList =
      (c.name.toList ++ [',']) ++ ' ' :: (join (d :: rest)).toList := by
    rw [toList_join_cons, List.append_assoc, List.singleton_append]
  have hword : ∀ e ∈ c.name.toList ++ [','], Text.isBlank e = false := by
    intro e he
    rcases List.mem_append.mp he with he | he
    · exact ((name_solid c).2 e he).1
    · rw [List.mem_singleton.mp he]
      rfl
  rw [hchars, Text.words_append (by simp) hword rfl]

theorem entries_words_join (l : List Category) :
    entries ((Text.words (join l).toList).map String.ofList) = l.map (·.name.toList) := by
  induction l with
  | nil => rfl
  | cons c l ih =>
    obtain ⟨hne, hsolid⟩ := name_solid c
    have hcomma : ∀ d ∈ c.name.toList, (d == ',') = false := fun d hd => (hsolid d hd).2
    cases l with
    | nil =>
      have hword : Text.words (join [c]).toList = [c.name.toList] :=
        Text.words_of_not_blank hne fun d hd => (hsolid d hd).1
      simp [hword, entries, Text.pieces_of_not hcomma, hne]
    | cons d l =>
      have hpieces : Text.pieces (· == ',') (c.name.toList ++ [',']) = [c.name.toList, []] :=
        Text.pieces_append hcomma rfl []
      rw [words_join_cons, List.map_cons, List.map_cons, ← ih]
      simp [entries, hpieces, hne]

theorem pieces_join_cons (c : Category) (rest : List Category) :
    Text.pieces (· == ',') (join (c :: rest)).toList =
      c.name.toList :: rest.map (' ' :: ·.name.toList) := by
  induction rest generalizing c with
  | nil => exact Text.pieces_of_not fun d hd => ((name_solid c).2 d hd).2
  | cons d rest ih =>
    rw [toList_join_cons, Text.pieces_append (fun e he => ((name_solid c).2 e he).2) rfl,
      Text.pieces_cons_of_not rfl (ih d), List.map_cons]

/-- A list that is written out is read back word by word. -/
theorem parseList_words_join (l : List Category) :
    parseList ((Text.words (join l).toList).map String.ofList) = .ok l := by
  rw [parseList_eq, entries_words_join]
  exact mapM_map_eq_ok parseEntry_name l

/-- A list that is written out is read back as it stands. -/
theorem parseList_join (l : List Category) : parseList [join l] = .ok l := by
  cases l with
  | nil => rfl
  | cons c rest =>
    have hentries : entries [join (c :: rest)] =
        c.name.toList :: rest.map (' ' :: ·.name.toList) := by
      simp [entries, pieces_join_cons, (name_solid c).1]
    rw [parseList_eq, hentries, mapM_cons_of_ok (parseEntry_name c),
      mapM_map_eq_ok parseEntry_space rest]
    rfl

end Stream.Category

/-! ## Lists in variables -/

namespace Config

open LedgerClient.Stream (Category)

variable {s : String}

theorem streamEntries_eq (h : ∀ c ∈ s.toList, Text.isBlank c = false) :
    streamEntries s = (Category.entries [s]).map Category.parseEntry := by
  rw [streamEntries, Category.entries, List.flatMap_singleton]
  refine congrArg _ (List.filter_congr fun piece hpiece => ?_)
  rw [Text.trim_of_not_blank fun c hc => h c (Text.mem_of_mem_pieces hpiece hc)]

theorem streamFaults_eq_faultsOf (s : String) : streamFaults s = faultsOf (streamEntries s) := by
  rw [streamFaults]
  induction streamEntries s with
  | nil => rfl
  | cons result results ih => cases result <;> simp [faultsOf, ih]

theorem streamsOf_eq_valuesOf (s : String) : streamsOf s = valuesOf (streamEntries s) := by
  rw [streamsOf]
  induction streamEntries s with
  | nil => rfl
  | cons result results ih => cases result <;> simp [valuesOf, ih]

/-- **Lists of streams are read alike.** A list that is written out is read back, word by word and as
it stands. A text without blanks is read as a list in an argument just if a variable that is set to it
has every entry counted, and the variable stands for the same list; otherwise the argument is refused
for the first entry that the variable has passed over. -/
theorem streamsReadAlike :
    (∀ l : List Category,
      Category.parseList ((Text.words (Category.join l).toList).map String.ofList) = .ok l ∧
      Category.parseList [Category.join l] = .ok l) ∧
    ∀ s : String, (∀ c ∈ s.toList, Text.isBlank c = false) →
      ∀ (environment : Environment) (c : Config), environment streamsVariable = some s →
        (∀ l, Category.parseList [s] = .ok l ↔
          environment.ignored = [] ∧ (c.override environment).subscription.streams = l) ∧
        ∀ e, Category.parseList [s] = .error e ↔ environment.ignored.head? = some e := by
  refine ⟨fun l => ⟨Category.parseList_words_join l, Category.parseList_join l⟩, ?_⟩
  intro s h environment c hs
  have hignored : environment.ignored = streamFaults s := by rw [Environment.ignored, hs]; rfl
  have hstreams : (c.override environment).subscription.streams = streamsOf s := by
    rw [override, Subscription.override, hs]
    rfl
  rw [hignored, hstreams, streamFaults_eq_faultsOf, streamsOf_eq_valuesOf, streamEntries_eq h,
    Category.parseList_eq]
  exact ⟨fun l => mapM_eq_ok_iff, fun e => mapM_eq_error_iff⟩

/-- Empty entries and capitals make no difference. -/
theorem streamsReadAlike_of_gaps :
    let environment : Environment := fun name =>
      if name = streamsVariable then some ",Server,,LEDGER," else none
    Category.parseList [",Server,,LEDGER,"] = .ok [.server, .ledger] ∧ environment.ignored = [] ∧
      (default.override environment).subscription.streams = [.server, .ledger] :=
  have hread : Category.parseList [",Server,,LEDGER,"] = .ok [.server, .ledger] := rfl
  have halike := streamsReadAlike.2 ",Server,,LEDGER," (by simp [Text.isBlank])
    (fun name => if name = streamsVariable then some ",Server,,LEDGER," else none) default rfl
  ⟨hread, (halike.1 [.server, .ledger]).mp hread⟩

-- With a blank behind the last comma the argument is refused, and the variable counts one entry.
example : Category.parseList ["ledger, "] = .error (.unknownStream "") ∧
    streamFaults "ledger, " = [] ∧ streamsOf "ledger, " = [.ledger] :=
  ⟨rfl, rfl, rfl⟩

end Config

end LedgerClient
