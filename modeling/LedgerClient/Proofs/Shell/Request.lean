import LedgerClient.Proofs.Json.SpacingValue
import LedgerClient.Proofs.Text.Words
import LedgerClient.Shell.Task

/-!
# Requests at the prompt

At the prompt a line falls apart into words, so the parameters of a request are read with a single
space for every run of blanks. That does not matter if all blanks of theirs are blanks of the grammar
or single spaces in a string (`evenlySpaced`): then they are read as the same value, and the line is
the request that the command line makes (`requestedAlike`).
-/

namespace LedgerClient

/-! ## Texts that may be spaced again -/

namespace Json

/-- Whether all blanks are those between the parts of a text, or single spaces in its strings. -/
def evenlySpaced : Side → List Char → Bool
  | _, [] => true
  | side, c :: cs =>
    let even :=
      if side = .outside then isSpace c else c = ' ' && cs.head?.any (!Text.isBlank ·)
    (!Text.isBlank c || even) && evenlySpaced (side.behind c) cs

variable {side : Side} {c : Char} {cs cs' : List Char}

theorem isBlank_of_isSpace (h : isSpace c = true) : Text.isBlank c = true := by
  simp only [isSpace, Bool.or_eq_true, beq_iff_eq] at h
  rcases h with ((rfl | rfl) | rfl) | rfl <;> rfl

theorem not_isSpace_of_not_isBlank (h : Text.isBlank c = false) : isSpace c = false := by
  by_contra hs
  rw [isBlank_of_isSpace (by simpa using hs)] at h
  cases h

theorem behind_of_isSpace (h : isSpace c = true) : Side.outside.behind c = .outside := by
  simp only [isSpace, Bool.or_eq_true, beq_iff_eq] at h
  rcases h with ((rfl | rfl) | rfl) | rfl <;> rfl

theorem evenlySpaced_cons (h : evenlySpaced side (c :: cs) = true) :
    evenlySpaced (side.behind c) cs = true ∧ (Text.isBlank c = true →
      side = .outside ∧ isSpace c = true ∨
        side ≠ .outside ∧ c = ' ' ∧ ∃ d more, cs = d :: more ∧ Text.isBlank d = false) := by
  simp only [evenlySpaced, Bool.and_eq_true] at h
  obtain ⟨heven, hcs⟩ := h
  refine ⟨hcs, fun hc => ?_⟩
  simp only [hc, Bool.not_true, Bool.false_or] at heven
  split at heven
  · rename_i hside
    exact .inl ⟨hside, heven⟩
  · rename_i hside
    refine .inr ⟨hside, ?_⟩
    cases cs with
    | nil => simp at heven
    | cons d more => simpa using heven

theorem Respaced.cons_blank (hc : isSpace c = true) (h : Respaced .outside cs cs')
    (hcs : cs' = [] ∨ ∃ more, cs' = ' ' :: more) : Respaced .outside (c :: cs) cs' := by
  have hparts := h.sameParts
  rcases hcs with rfl | ⟨more, rfl⟩
  · refine .ending (fun d hd => ?_) blank_nil
    rcases List.mem_cons.mp hd with rfl | hd
    · exact hc
    · exact blank_of_dropSpace (hparts.symm.ended rfl) d hd
  · exact .blanks hc rfl hparts

/-- A single space for each run of blanks is only another spacing of an evenly spaced text. -/
theorem respaced_spaced (h : evenlySpaced side cs = true) : Respaced side cs (Text.spaced cs) := by
  induction cs generalizing side with
  | nil => exact .nil
  | cons c cs ih =>
    obtain ⟨hcs, heven⟩ := evenlySpaced_cons h
    have hbehind := ih hcs
    by_cases hc : Text.isBlank c = true
    · rcases heven hc with ⟨rfl, hspace⟩ | ⟨hside, rfl, d, more, rfl, hd⟩
      · rw [behind_of_isSpace hspace] at hbehind
        rcases Text.spaced_blank_cases hc cs with hspaced | ⟨hspaced, hlead⟩
        · rw [hspaced]
          exact .blanks hspace rfl hbehind.sameParts
        · rw [hspaced]
          exact hbehind.cons_blank hspace hlead
      · rw [Text.spaced_blank_word hc hd]
        exact .same (fun h => absurd h hside) hbehind
    · rw [Text.spaced_cons_of_not_blank (by simpa using hc)]
      exact .same (fun _ => not_isSpace_of_not_isBlank (by simpa using hc)) hbehind

theorem sameParts_rejoined {text : String} (h : evenlySpaced .outside text.toList = true) :
    SameParts text.toList (Text.rejoined text).toList := by
  have hspaced := (respaced_spaced h).sameParts
  rcases Text.rejoined_cases text with he | he
  · rwa [he] at hspaced
  · rw [he] at hspaced
    exact hspaced

end Json

namespace Shell

variable {files : Files} {name parameters : String}

theorem valueOf_of_sameParts {text text' : String} (h : Json.SameParts text.toList text'.toList) :
    (∃ v, valueOf text = .ok v ∧ valueOf text' = .ok v) ∨
      ∃ fault fault', valueOf text = .error (.json fault) ∧
        valueOf text' = .error (.json fault') := by
  unfold valueOf
  rcases Json.alike_of_toOption (Json.decode_of_sameParts h) with ⟨v, hv, hv'⟩ | ⟨f, f', hf, hf'⟩
  · exact .inl ⟨v, by rw [hv]; rfl, by rw [hv']; rfl⟩
  · exact .inr ⟨f, f', by rw [hf]; rfl, by rw [hf']; rfl⟩

namespace Task

theorem words_request (hne : name ≠ "") (hname : ∀ c ∈ name.toList, Text.isBlank c = false)
    (parameters : String) :
    Text.words ("request " ++ name ++ " " ++ parameters).toList =
      "request".toList :: name.toList :: Text.words parameters.toList := by
  have hchars : ("request " ++ name ++ " " ++ parameters).toList =
      "request".toList ++ ' ' :: (name.toList ++ ' ' :: parameters.toList) := by simp
  rw [hchars, Text.words_append (by decide) (by simp [Text.isBlank]) rfl,
    Text.words_append (by simpa using hne) hname rfl]

theorem ofLine?_request (hne : name ≠ "") (hname : ∀ c ∈ name.toList, Text.isBlank c = false)
    (hparameters : ∃ c ∈ parameters.toList, Text.isBlank c = false) :
    ofLine? files ("request " ++ name ++ " " ++ parameters) =
      some (request name (valueOf (Text.rejoined parameters))) := by
  have hwords := Text.words_ne_nil hparameters
  unfold ofLine?
  rw [words_request hne hname, Text.rejoined]
  cases hw : Text.words parameters.toList with
  | nil => exact absurd hw hwords
  | cons word words =>
    simp only [List.map_cons, String.ofList_toList]
    have hlower : String.ofList (Text.lower "request".toList) = "request" := by decide
    rw [hlower]
    rfl

theorem fileOf?_eq_none (h : (Text.trimStart parameters.toList).head? ≠ some '@') :
    fileOf? parameters = none := by
  unfold fileOf?
  split
  · rename_i rest hchars
    rw [hchars] at h
    exact absurd rfl h
  · rfl

/-- A request at the prompt has its parameters joined again with single spaces between their words,
whatever they are. If they are evenly spaced, it comes down to the call that the same request on the
command line comes down to, or both are refused because the parameters are no JSON text. -/
theorem requestedAlike (hne : name ≠ "") (hname : ∀ c ∈ name.toList, Text.isBlank c = false)
    (hparameters : ∃ c ∈ parameters.toList, Text.isBlank c = false)
    (hfile : (Text.trimStart parameters.toList).head? ≠ some '@') :
    ofLine? files ("request " ++ name ++ " " ++ parameters) =
        some (request name (valueOf (Text.rejoined parameters))) ∧
      (Json.evenlySpaced .outside parameters.toList = true →
        (∃ v, ofLine? files ("request " ++ name ++ " " ++ parameters) =
            some (.call (.raw name v) .json) ∧
          ofAction? files (.request name (some parameters)) =
            some (.call (.raw name v) .json)) ∨
        ∃ fault fault', ofLine? files ("request " ++ name ++ " " ++ parameters) =
            some (.refuse (.json fault)) ∧
          ofAction? files (.request name (some parameters)) =
            some (.refuse (.json fault'))) := by
  have hline : ofLine? files ("request " ++ name ++ " " ++ parameters) =
      some (request name (valueOf (Text.rejoined parameters))) :=
    ofLine?_request hne hname hparameters
  have haction : ofAction? files (.request name (some parameters)) =
      some (request name (valueOf parameters)) := by
    rw [ofAction?, parametersOf, fileOf?_eq_none hfile]
  refine ⟨hline, fun heven => ?_⟩
  rw [hline, haction]
  rcases valueOf_of_sameParts (Json.sameParts_rejoined heven) with
    ⟨v, hv, hv'⟩ | ⟨fault, fault', hf, hf'⟩
  · exact .inl ⟨v, by rw [hv']; rfl, by rw [hv]; rfl⟩
  · exact .inr ⟨fault', fault, by rw [hf']; rfl, by rw [hf]; rfl⟩

/-- Tabs and ends of lines between the parts, and single spaces in strings. -/
theorem requestedAlike_of_blanks :
    ∃ v, ofLine? .empty ("request " ++ "fee" ++ " " ++ "\x7b\"a\":\t\"x y\",\n  \"b\": 1 \x7d") =
        some (.call (.raw "fee" v) .json) ∧
      ofAction? .empty (.request "fee" (some "\x7b\"a\":\t\"x y\",\n  \"b\": 1 \x7d")) =
        some (.call (.raw "fee" v) .json) := by
  have halike := (@requestedAlike .empty "fee" "\x7b\"a\":\t\"x y\",\n  \"b\": 1 \x7d" (by decide)
    (by simp [Text.isBlank]) ⟨'\x7b', by decide, by decide⟩ (by decide)).2 (by decide)
  rcases halike with hcalled | ⟨fault, fault', -, hrefused⟩
  · exact hcalled
  · cases hrefused

/-- Two spaces in a string are one at the prompt. -/
theorem requestedApart_by_spaces :
    ofLine? .empty ("request " ++ "fee" ++ " " ++ "\x7b\"a\":\"x  y\"\x7d") =
        some (.call (.raw "fee" (.object [("a", .text "x y")])) .json) ∧
      ofAction? .empty (.request "fee" (some "\x7b\"a\":\"x  y\"\x7d")) =
        some (.call (.raw "fee" (.object [("a", .text "x  y")])) .json) ∧
      "x y" ≠ "x  y" :=
  ⟨by rfl, by rfl, by decide⟩

end Task

end Shell

end LedgerClient
