import LedgerClient.Endpoint
import LedgerClient.Proofs.Uri
import Mathlib

/-!
# Which address is dialled

The endpoint of a server falls apart into `ws://`, an authority and what is behind it
(`text_of_resolve`). If the authority is written with a host that is not empty and a port, the
address that is dialled is that host with that port, if the port is a number that fits 16 bits. Any
other port is passed over, and 80 is dialled in its place (`dialledAsWritten`).
-/

namespace LedgerClient

/-! ## The parts of an endpoint -/

namespace Uri

variable {cs rest : List Char}

theorem eq_of_splitScheme {scheme : String} (h : splitScheme cs = .ok (some scheme, rest))
    (hhttp : scheme ≠ "http") (hhttps : scheme ≠ "https") :
    cs = scheme.toList ++ "://".toList ++ rest := by
  simp only [splitScheme] at h
  split at h
  · simp at h
  · rename_i behind hstrip
    split_ifs at h with hknown hshort hlong
    · simp only [Except.ok.injEq, Prod.mk.injEq, Option.some.injEq] at h
      obtain ⟨rfl, -⟩ := h
      exact absurd hknown (not_or.mpr ⟨hhttp, hhttps⟩)
    · simp at h
    · simp only [Except.ok.injEq, Prod.mk.injEq, Option.some.injEq] at h
      obtain ⟨rfl, rfl⟩ := h
      rw [String.toList_ofList, List.append_assoc]
      exact List.takeWhile_append_dropWhile.symm.trans
        (congrArg _ (Text.eq_of_stripStart? hstrip))

theorem eq_of_splitAuthority {authority : List Char}
    (h : splitAuthority cs = .ok (authority, rest)) :
    authority = cs.takeWhile (!endsAuthority ·) ∧ cs = authority ++ rest := by
  simp only [splitAuthority] at h
  split at h
  · simp at h
  · split_ifs at h
    simp only [Except.ok.injEq, Prod.mk.injEq] at h
    obtain ⟨rfl, rfl⟩ := h
    exact ⟨rfl, List.takeWhile_append_dropWhile.symm⟩

theorem parts_of_ofPath {scheme : Option String} {authority : List Char} {u : Uri}
    (h : ofPath scheme authority cs = .ok u) : u.scheme = scheme ∧ u.authority = authority := by
  rw [ofPath] at h
  split at h
  · simp at h
  · obtain rfl := Except.ok.inj h
    exact ⟨rfl, rfl⟩

theorem parts_of_parseFull {scheme : String} {u : Uri} (h : parseFull cs = .ok u)
    (hs : u.scheme = some scheme) :
    ∃ rest behind, splitScheme cs = .ok (some scheme, rest) ∧
      splitAuthority rest = .ok (u.authority, behind) := by
  rw [parseFull] at h
  split at h
  · simp at h
  · rename_i name rest hscheme
    split at h
    · simp at h
    · split at h
      · simp at h
      · rename_i authority behind hauthority
        split at h
        · -- an authority alone has no scheme
          split_ifs at h
          obtain rfl := Except.ok.inj h
          simp at hs
        · split_ifs at h
          obtain ⟨hname, rfl⟩ := parts_of_ofPath h
          exact ⟨rest, behind, hs ▸ hname ▸ hscheme, hauthority⟩

theorem text_of_parse {s scheme : String} {u : Uri} (h : parse s = .ok u)
    (hs : u.scheme = some scheme) (hhttp : scheme ≠ "http") (hhttps : scheme ≠ "https") :
    ∃ behind, s.toList = scheme.toList ++ "://".toList ++ (u.authority ++ behind) ∧
      u.authority = (u.authority ++ behind).takeWhile (!endsAuthority ·) := by
  simp only [parse] at h
  split at h
  · simp at h
  · split at h
    · simp at h
    · obtain rfl := Except.ok.inj h
      simp at hs
    · rw [(parts_of_ofPath h).1] at hs
      simp at hs
    · obtain ⟨rest, behind, hscheme, hauthority⟩ := parts_of_parseFull h hs
      obtain ⟨htake, hrest⟩ := eq_of_splitAuthority hauthority
      exact ⟨behind, hrest ▸ eq_of_splitScheme hscheme hhttp hhttps, hrest ▸ htake⟩

end Uri

namespace Endpoint

variable {endpoint : String} {e : Endpoint}

theorem parts_of_resolve (h : resolve endpoint = .ok e) :
    Uri.parse endpoint = .ok e.uri ∧ e.uri.scheme = some "ws" ∧ e.uri.host ≠ [] ∧
      e.address = dialText (bareHost e.uri.host) (e.uri.port?.getD defaultPort) := by
  simp only [resolve] at h
  split at h
  · simp at h
  · rename_i uri hparse
    split at h
    · simp at h
    · rename_i scheme hscheme
      split_ifs at h with hws hhost
      obtain rfl := Except.ok.inj h
      refine ⟨hparse, ?_, by simpa using hhost, rfl⟩
      rw [hscheme, not_not.mp hws]

theorem text_of_resolve (h : resolve endpoint = .ok e) :
    ∃ behind, endpoint.toList = "ws://".toList ++ (e.uri.authority ++ behind) ∧
      e.uri.authority = (e.uri.authority ++ behind).takeWhile (!Uri.endsAuthority ·) := by
  obtain ⟨hparse, hscheme, -⟩ := parts_of_resolve h
  exact Uri.text_of_parse hparse hscheme (by decide) (by decide)

/-! ## The address -/

/-- The address of a host: in brackets if it holds a colon, with the port behind another colon. -/
def addressChars (name : List Char) (port : Nat) : List Char :=
  (if ':' ∈ name then '[' :: (name ++ [']']) else name) ++ ':' :: Nat.toDigits 10 port

theorem toList_dialText (name : List Char) (port : Nat) :
    (dialText name port).toList = addressChars name port := by
  rw [dialText, addressChars, Nat.toString_eq_ofList_toDigits]
  by_cases hcolon : ':' ∈ name
  · rw [if_pos (by simpa using hcolon), if_pos hcolon]
    simp
  · rw [if_neg (by simpa using hcolon), if_neg hcolon]
    simp

theorem addressChars_inj {name : List Char} {m n : Nat} :
    addressChars name m = addressChars name n ↔ m = n := by
  refine ⟨fun h => ?_, fun h => by rw [h]⟩
  have hdigits := (List.cons.inj (List.append_cancel_left h)).2
  rw [← @Nat.ofDigitChars_ten_toDigits m, hdigits, Nat.ofDigitChars_ten_toDigits]

theorem bareHost_chars {host : Uri.Host} (h : host.Proper) : bareHost host.chars = host.name := by
  have hstart {name : List Char} (hopen : '[' ∉ name) : name.dropWhile (· = '[') = name := by
    cases name with
    | nil => rfl
    | cons c name =>
      exact List.dropWhile_cons_of_neg (by simpa using (List.ne_of_not_mem_cons hopen).symm)
  have hend {name : List Char} (hclose : ']' ∉ name) :
      (name.reverse.dropWhile (· = ']')).reverse = name := by
    cases hrev : name.reverse with
    | nil => rw [← List.reverse_reverse name, hrev]; rfl
    | cons c more =>
      have hc : ']' ≠ c := by
        rintro rfl
        exact hclose (List.mem_reverse.mp (hrev ▸ List.mem_cons_self))
      rw [List.dropWhile_cons_of_neg (by simpa using hc.symm), ← hrev, List.reverse_reverse]
  cases host with
  | plain name =>
    rw [bareHost, Uri.Host.chars, hstart h.1, hend h.2.1]
    rfl
  | bracketed name =>
    have hopen : '[' ∉ name ++ [']'] := by simpa using h.1
    rw [bareHost, Uri.Host.chars, List.dropWhile_cons_of_pos (by decide), hstart hopen,
      List.reverse_append, List.reverse_singleton, List.singleton_append,
      List.dropWhile_cons_of_pos (by decide), hend h.2]
    rfl

theorem address_of_written {host : Uri.Host} {port : Option (List Char)} {n : Nat}
    (h : resolve endpoint = .ok e) (hw : Uri.Written e.uri.authority host port)
    (hv : Uri.PortValue port n) :
    e.address.toList = addressChars host.name (if n < 65536 then n else 80) := by
  obtain ⟨-, -, -, haddress⟩ := parts_of_resolve h
  rw [haddress, toList_dialText, Uri.host_of_written hw, bareHost_chars hw.1]
  exact congrArg _ (Uri.port?_of_portValue hw hv)

/-- How the address that is dialled goes with an endpoint as it is written. -/
structure DialledAsWritten (endpoint : String) (e : Endpoint) : Prop where
  /-- An endpoint is `ws://`, its authority and what is behind it. -/
  text : ∃ behind, endpoint.toList = "ws://".toList ++ (e.uri.authority ++ behind) ∧
    e.uri.authority = (e.uri.authority ++ behind).takeWhile (!Uri.endsAuthority ·)
  /-- An authority without brackets is always written with a host and a port. -/
  written : '[' ∉ e.uri.authority → ']' ∉ e.uri.authority →
    ∃ host port, Uri.Written e.uri.authority host port
  /-- The host that is written is not empty, unless that is concealed by brackets. -/
  host : ∀ host port, Uri.Written e.uri.authority host port →
    (host.name = [] ↔ host = .bracketed [])
  /-- The host is dialled without the user information, in brackets just if it holds a colon, with the
  port that is written behind it, 80 if that is missing or empty, just if that port fits 16 bits. -/
  port : ∀ host port n, Uri.Written e.uri.authority host port → Uri.PortValue port n →
    (e.address.toList = addressChars host.name n ↔ n < 65536)
  /-- Whatever else stands for a port is passed over: a number that does not fit, or no number. -/
  passedOver : ∀ host cs, Uri.Written e.uri.authority host (some cs) → ':' ∉ cs →
    (∀ n, Uri.PortValue (some cs) n → 65536 ≤ n) →
      e.address.toList = addressChars host.name 80
  /-- An authority with brackets that do not stand around its host is not `Uri.Written`. The host that
  is found in it then holds a stray bracket or lacks what stands behind one; it is dialled without
  the brackets at its ends. -/
  found : e.uri.host ≠ [] ∧
    e.address.toList = addressChars (bareHost e.uri.host) (e.uri.port?.getD 80)

/-- **What is written is dialled**, unless it has no port that fits 16 bits or stray brackets. -/
theorem dialledAsWritten (h : resolve endpoint = .ok e) : DialledAsWritten endpoint e := by
  obtain ⟨-, -, hhost, haddress⟩ := parts_of_resolve h
  have hfound : e.address.toList = addressChars (bareHost e.uri.host) (e.uri.port?.getD 80) := by
    rw [haddress, toList_dialText]
    rfl
  refine ⟨text_of_resolve h, Uri.exists_written, fun host port hw => ?_,
    fun host port n hw hv => ?_, fun host cs hw hcolon hv => ?_, hhost, hfound⟩
  · rw [Uri.host_of_written hw] at hhost
    cases host with
    | plain name => simpa [Uri.Host.name, Uri.Host.chars] using hhost
    | bracketed name => simp [Uri.Host.name]
  · rw [address_of_written h hw hv, addressChars_inj]
    split <;> omega
  · by_cases hn : ∃ n, Uri.PortValue (some cs) n
    · obtain ⟨n, hn⟩ := hn
      rw [address_of_written h hw hn, if_neg (Nat.not_lt.mpr (hv n hn))]
    · rw [hfound, Uri.host_of_written hw, bareHost_chars hw.1,
        Uri.port?_of_valueless hw hcolon (not_exists.mp hn)]
      rfl

-- Brackets that do not stand around the host: one is dialled, and what stands behind one is not.
example : (resolve "ws://a[::1]:80").map (·.address) = .ok "a[:80" ∧
    (resolve "ws://[::1]x:81").map (·.address) = .ok "[::1]:81" :=
  ⟨by cbv, by cbv⟩

/-- An endpoint with user information and an address of the sixth version. -/
theorem dialledAsWritten_of_user :
    Uri.Written "u:p@[::1]:6006".toList (.bracketed "::1".toList) (some "6006".toList) ∧
      ∃ e, resolve "ws://u:p@[::1]:6006/x" = .ok e ∧
        (e.address.toList = addressChars "::1".toList 6006 ↔ 6006 < 65536) := by
  have hw : Uri.Written "u:p@[::1]:6006".toList (.bracketed "::1".toList) (some "6006".toList) :=
    ⟨⟨by decide, by decide⟩, by decide, some "u:p".toList, by decide⟩
  have hv : Uri.PortValue (some "6006".toList) 6006 := .digits (by decide) (by decide)
  have hresolve : resolve "ws://u:p@[::1]:6006/x" =
      .ok ⟨⟨some "ws", "u:p@[::1]:6006".toList, "/x".toList, none⟩, "[::1]:6006"⟩ := by cbv
  exact ⟨hw, _, hresolve, (dialledAsWritten hresolve).port _ _ _ hw hv⟩

/-- A port that does not fit is dialled as the default one. -/
theorem dialled_at_another_port :
    Uri.Written "h:65536".toList (.plain "h".toList) (some "65536".toList) ∧
      Uri.PortValue (some "65536".toList) 65536 ∧
      resolve "ws://h:65536" =
        .ok ⟨⟨some "ws", "h:65536".toList, "/".toList, none⟩, "h:80"⟩ ∧
      "h:80".toList ≠ addressChars "h".toList 65536 :=
  ⟨⟨⟨by decide, by decide, by decide⟩, by decide, none, by decide⟩, .digits (by decide) (by decide),
    by cbv, by cbv; decide⟩

end Endpoint

end LedgerClient
