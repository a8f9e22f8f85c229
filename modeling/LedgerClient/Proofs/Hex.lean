import LedgerClient.Hex
import LedgerClient.Proofs.Json.Grammar
import LedgerClient.Proofs.Text.Words
import Mathlib.Data.List.Basic

/-!
# Hexadecimal text

The digits of some bytes, in upper case, are read as these bytes again. They are ASCII, so each of
them is one byte of the text. Pairs of digits are read just if nothing but digits is there
(`exists_decode_iff`, `exists_decodeExactly_iff`); otherwise the first byte that is none is reported,
with its place. Letters may be of either case (`decode_eq_ok_iff`).
-/

namespace LedgerClient.Hex

/-- A digit is one byte of a text. -/
def digitByte (n : Nat) : UInt8 := UInt8.ofNat (digit n).toNat

theorem digitValue?_digitByte {n : Nat} (h : n < 16) : digitValue? (digitByte n) = some n := by
  have hall : ∀ n < 16, digitValue? (digitByte n) = some n := by decide
  exact hall n h

theorem utf8EncodeChar_digit {n : Nat} (h : n < 16) :
    String.utf8EncodeChar (digit n) = [digitByte n] := by
  have hall : ∀ n < 16, String.utf8EncodeChar (digit n) = [digitByte n] := by decide
  exact hall n h

/-- The bytes of the digits of some bytes. -/
def digitBytes (bytes : List UInt8) : List UInt8 :=
  bytes.flatMap fun b => [digitByte (b.toNat / 16), digitByte (b.toNat % 16)]

theorem utf8Encode_encodeChars (bytes : List UInt8) :
    (encodeChars bytes).flatMap String.utf8EncodeChar = digitBytes bytes := by
  induction bytes with
  | nil => rfl
  | cons b bytes ih =>
    have hb : b.toNat < 256 := b.toNat_lt
    simp only [encodeChars, List.flatMap_cons, ih,
      utf8EncodeChar_digit (show b.toNat / 16 < 16 by omega),
      utf8EncodeChar_digit (show b.toNat % 16 < 16 by omega)]
    rfl

theorem toList_eq_data (bytes : ByteArray) : bytes.toList = bytes.data.toList := by
  have hloop (i : Nat) (taken : List UInt8) :
      ByteArray.toList.loop bytes i taken = taken.reverse ++ bytes.data.toList.drop i := by
    induction hn : bytes.size - i generalizing i taken with
    | zero =>
      have hdone : ¬ i < bytes.size := by omega
      rw [ByteArray.toList.loop, if_neg hdone, List.drop_eq_nil_of_le, List.append_nil]
      rw [Array.length_toList]
      exact Nat.not_lt.mp hdone
    | succ n ih =>
      have hi : i < bytes.size := by omega
      have hlen : i < bytes.data.toList.length := by
        rw [Array.length_toList]
        exact hi
      have hget : bytes.get! i = bytes.data.toList[i] := getElem!_pos bytes.data i hi
      rw [ByteArray.toList.loop, if_pos hi, ih _ _ (by omega), List.drop_eq_getElem_cons hlen,
        List.reverse_cons, List.append_assoc, List.singleton_append, hget]
  rw [ByteArray.toList, hloop]
  rfl

theorem bytesOf_eq (s : String) : bytesOf s = s.toList.flatMap String.utf8EncodeChar := by
  conv_lhs => rw [← String.ofList_toList (s := s)]
  rw [bytesOf, String.toUTF8_eq_toByteArray, String.toByteArray_ofList, toList_eq_data,
    List.utf8Encode, List.toList_data_toByteArray]

theorem length_bytesOf (s : String) : (bytesOf s).length = s.utf8ByteSize := by
  rw [bytesOf, String.toUTF8_eq_toByteArray, toList_eq_data, Array.length_toList]
  rfl

theorem bytesOf_inj {s t : String} (h : bytesOf s = bytesOf t) : s = t := by
  rw [bytesOf, bytesOf, String.toUTF8_eq_toByteArray, String.toUTF8_eq_toByteArray, toList_eq_data,
    toList_eq_data] at h
  exact String.toByteArray_inj.mp (ByteArray.ext (Array.toList_inj.mp h))

theorem bytesOf_encode (bytes : List UInt8) : bytesOf (encode bytes) = digitBytes bytes := by
  rw [bytesOf_eq, encode, String.toList_ofList, utf8Encode_encodeChars]

theorem length_digitBytes (bytes : List UInt8) :
    (digitBytes bytes).length = 2 * bytes.length := by
  induction bytes with
  | nil => rfl
  | cons b bytes ih =>
    have hcons : digitBytes (b :: bytes) =
        digitByte (b.toNat / 16) :: digitByte (b.toNat % 16) :: digitBytes bytes := rfl
    rw [hcons]
    simp only [List.length_cons]
    omega

theorem decodePairs_digitBytes (bytes : List UInt8) (index : Nat) :
    decodePairs index (digitBytes bytes) = .ok bytes := by
  induction bytes generalizing index with
  | nil => rfl
  | cons b bytes ih =>
    have hb : b.toNat < 256 := b.toNat_lt
    have hcons : digitBytes (b :: bytes) =
        digitByte (b.toNat / 16) :: digitByte (b.toNat % 16) :: digitBytes bytes := rfl
    have hhalves : 16 * (b.toNat / 16) + b.toNat % 16 = b.toNat := by omega
    rw [hcons, decodePairs]
    simp only [digitValue?_digitByte (show b.toNat / 16 < 16 by omega),
      digitValue?_digitByte (show b.toNat % 16 < 16 by omega), ih, hhalves, UInt8.ofNat_toNat]

theorem decodeExactly_encode (bytes : List UInt8) :
    decodeExactly bytes.length (encode bytes) = .ok bytes := by
  have hlen := length_digitBytes bytes
  simp only [decodeExactly, bytesOf_encode]
  rw [if_neg (by omega), if_neg (by omega), decodePairs_digitBytes]

theorem of_bytes {P : UInt8 → Prop} (h : ∀ n < 256, P (UInt8.ofNat n)) : ∀ byte, P byte := by
  intro byte
  have hbyte := h byte.toNat byte.toNat_lt
  rwa [UInt8.ofNat_toNat] at hbyte

theorem of_digitValue? {byte : UInt8} {x : Nat} (h : digitValue? byte = some x) :
    x < 16 ∧ (Char.ofNat byte.toNat).toUpper = digit x ∧
      String.utf8EncodeChar (Char.ofNat byte.toNat) = [byte] := by
  have hall : ∀ byte, ∀ x ∈ digitValue? byte, x < 16 ∧
      (Char.ofNat byte.toNat).toUpper = digit x ∧
        String.utf8EncodeChar (Char.ofNat byte.toNat) = [byte] := of_bytes (by decide +kernel)
  exact hall byte x h

/-! ## Texts of digits -/

/-- A byte that is a hexadecimal digit of either case. -/
def IsDigitByte (byte : UInt8) : Prop := Json.IsHexDigit (Char.ofNat byte.toNat)

theorem isDigitByte_iff (byte : UInt8) : IsDigitByte byte ↔ ∃ x, digitValue? byte = some x := by
  have hall : ∀ byte : UInt8, Json.IsHexDigit (Char.ofNat byte.toNat) ↔
      (digitValue? byte).isSome = true := by
    unfold Json.IsHexDigit
    exact of_bytes (by decide +kernel)
  exact (hall byte).trans Option.isSome_iff_exists

theorem toNat_lt_of_isHexDigit {c : Char} (h : Json.IsHexDigit c) : c.toNat < 128 := by
  simp only [Json.IsHexDigit, Json.isDigit, Bool.and_eq_true, decide_eq_true_eq, Char.le_def,
    UInt32.le_iff_toNat_le, Char.toNat_val] at h
  have hnine : ('9' : Char).toNat = 57 := rfl
  have hlower : ('f' : Char).toNat = 102 := rfl
  have hupper : ('F' : Char).toNat = 70 := rfl
  omega

theorem utf8EncodeChar_of_isHexDigit {c : Char} (h : Json.IsHexDigit c) :
    ∃ byte, String.utf8EncodeChar c = [byte] ∧ IsDigitByte byte := by
  have hall : ∀ c : Char, c.toNat < 128 → String.utf8EncodeChar c = [UInt8.ofNat c.toNat] :=
    Text.of_ascii (by decide)
  have hlt := toNat_lt_of_isHexDigit h
  refine ⟨_, hall c hlt, ?_⟩
  rw [IsDigitByte, UInt8.toNat_ofNat', Nat.mod_eq_of_lt (by omega), Char.ofNat_toNat]
  exact h

theorem digits_of_isHexDigit {cs : List Char} (h : ∀ c ∈ cs, Json.IsHexDigit c) :
    (cs.flatMap String.utf8EncodeChar).length = cs.length ∧
      ∀ b ∈ cs.flatMap String.utf8EncodeChar, IsDigitByte b := by
  induction cs with
  | nil => simp
  | cons c cs ih =>
    obtain ⟨byte, hbyte, hdigit⟩ := utf8EncodeChar_of_isHexDigit (h c List.mem_cons_self)
    obtain ⟨hlen, hall⟩ := ih fun d hd => h d (List.mem_cons_of_mem c hd)
    rw [List.flatMap_cons, hbyte]
    refine ⟨by simp [hlen], fun b hb => ?_⟩
    rcases List.mem_cons.mp hb with rfl | hb
    · exact hdigit
    · exact hall b hb

theorem flatMap_of_isDigitByte {bytes : List UInt8} (h : ∀ b ∈ bytes, IsDigitByte b) :
    (bytes.map fun b => Char.ofNat b.toNat).flatMap String.utf8EncodeChar = bytes := by
  induction bytes with
  | nil => rfl
  | cons b bytes ih =>
    obtain ⟨x, hx⟩ := (isDigitByte_iff b).mp (h b List.mem_cons_self)
    obtain ⟨-, -, hbyte⟩ := of_digitValue? hx
    rw [List.map_cons, List.flatMap_cons, hbyte, ih fun d hd => h d (List.mem_cons_of_mem b hd)]
    rfl

theorem toList_of_isDigitByte {s : String} (h : ∀ b ∈ bytesOf s, IsDigitByte b) :
    s.toList = (bytesOf s).map fun b => Char.ofNat b.toNat := by
  have hs : s = String.ofList ((bytesOf s).map fun b => Char.ofNat b.toNat) := by
    apply bytesOf_inj
    rw [bytesOf_eq (String.ofList _), String.toList_ofList, flatMap_of_isDigitByte h]
  conv_lhs => rw [hs, String.toList_ofList]

theorem isDigitByte_bytesOf_iff {s : String} {count : Nat} :
    ((bytesOf s).length = count ∧ ∀ b ∈ bytesOf s, IsDigitByte b) ↔
      s.toList.length = count ∧ ∀ c ∈ s.toList, Json.IsHexDigit c := by
  constructor
  · rintro ⟨hlen, h⟩
    rw [toList_of_isDigitByte h]
    refine ⟨by rw [List.length_map, hlen], fun c hc => ?_⟩
    obtain ⟨b, hb, rfl⟩ := List.mem_map.mp hc
    exact h b hb
  · rintro ⟨hlen, h⟩
    obtain ⟨hbytes, hdigits⟩ := digits_of_isHexDigit h
    rw [bytesOf_eq]
    exact ⟨hbytes.trans hlen, hdigits⟩

/-! ## What pairs of digits are read as -/

theorem encodeChars_of_decodePairs {index : Nat} {text bytes : List UInt8}
    (h : decodePairs index text = .ok bytes) :
    encodeChars bytes = text.map (fun b => (Char.ofNat b.toNat).toUpper) ∧
      ∀ b ∈ text, IsDigitByte b := by
  fun_induction decodePairs index text generalizing bytes with
  | case1 =>
    cases h
    simp [encodeChars]
  | case2 => cases h
  | case3 => cases h
  | case4 => cases h
  | case5 => cases h
  | case6 index a b rest x y hx hy rest' hr ih =>
    cases h
    have hdigitb := (isDigitByte_iff b).mpr ⟨y, hx⟩
    have hdigita := (isDigitByte_iff a).mpr ⟨x, hy⟩
    obtain ⟨hylt, hb, -⟩ := of_digitValue? hx
    obtain ⟨hxlt, ha, -⟩ := of_digitValue? hy
    obtain ⟨hchars, hdigits⟩ := ih hr
    have hpair : (UInt8.ofNat (16 * x + y)).toNat = 16 * x + y := by
      rw [UInt8.toNat_ofNat']
      omega
    have hhigh : (16 * x + y) / 16 = x := by omega
    have hlow : (16 * x + y) % 16 = y := by omega
    constructor
    · rw [encodeChars, hpair, hhigh, hlow, hchars, List.map_cons, List.map_cons, ha, hb]
    · simp only [List.forall_mem_cons]
      exact ⟨hdigita, hdigitb, hdigits⟩

theorem decodePairs_of_digits {index : Nat} {text : List UInt8} (heven : text.length % 2 = 0)
    (h : ∀ b ∈ text, IsDigitByte b) : ∃ bytes, decodePairs index text = .ok bytes := by
  fun_induction decodePairs index text with
  | case1 => exact ⟨_, rfl⟩
  | case2 => simp at heven
  | case3 index a b rest ha =>
    obtain ⟨x, hx⟩ := (isDigitByte_iff a).mp (h a List.mem_cons_self)
    rw [ha] at hx
    cases hx
  | case4 index a b rest x hb ha =>
    obtain ⟨y, hy⟩ := (isDigitByte_iff b).mp (h b (by simp))
    rw [hb] at hy
    cases hy
  | case5 index a b rest x y ha hb fault hr ih =>
    obtain ⟨bytes, hbytes⟩ := ih (by simp at heven; omega) fun d hd => h d (by simp [hd])
    rw [hr] at hbytes
    cases hbytes
  | case6 => exact ⟨_, rfl⟩

theorem decodePairs_of_first {index : Nat} {front rest : List UInt8} {byte : UInt8}
    (heven : (front ++ byte :: rest).length % 2 = 0) (hfront : ∀ b ∈ front, IsDigitByte b)
    (hbyte : ¬ IsDigitByte byte) :
    decodePairs index (front ++ byte :: rest) = .error (.notDigit byte (index + front.length)) := by
  have hvalue : digitValue? byte = none := by
    rw [Option.eq_none_iff_forall_ne_some]
    exact fun x hx => hbyte ((isDigitByte_iff byte).mpr ⟨x, hx⟩)
  -- two digits are taken at a time, so the byte is the first or the second of its pair
  induction hn : front.length using Nat.strongRecOn generalizing front index with
  | ind n ih =>
    match front, rest with
    | [], [] => simp at heven
    | [], b :: rest =>
      simp only [List.nil_append, decodePairs, hvalue]
      rw [← hn]
      rfl
    | [a], rest =>
      obtain ⟨x, hx⟩ := (isDigitByte_iff a).mp (hfront a List.mem_cons_self)
      simp only [List.cons_append, List.nil_append, decodePairs, hx, hvalue]
      rw [← hn]
      rfl
    | a :: b :: front, rest =>
      obtain ⟨x, hx⟩ := (isDigitByte_iff a).mp (hfront a List.mem_cons_self)
      obtain ⟨y, hy⟩ := (isDigitByte_iff b).mp (hfront b (by simp))
      have hlen : front.length + 2 = n := hn
      have hrest : decodePairs (index + 2) (front ++ byte :: rest) =
          .error (.notDigit byte (index + 2 + front.length)) :=
        ih front.length (by omega) (by simp at heven ⊢; omega)
          (fun d hd => hfront d (by simp [hd])) rfl
      simp only [List.cons_append, decodePairs, hx, hy, hrest]
      rw [← hlen, Nat.add_assoc, Nat.add_comm 2]

theorem digits_or_first (text : List UInt8) :
    (∀ b ∈ text, IsDigitByte b) ∨ ∃ front byte rest, text = front ++ byte :: rest ∧
      (∀ b ∈ front, IsDigitByte b) ∧ ¬ IsDigitByte byte := by
  induction text with
  | nil => simp
  | cons a text ih =>
    by_cases ha : IsDigitByte a
    · rcases ih with hall | ⟨front, byte, rest, rfl, hfront, hbyte⟩
      · exact .inl (List.forall_mem_cons.mpr ⟨ha, hall⟩)
      · exact .inr ⟨a :: front, byte, rest, rfl, List.forall_mem_cons.mpr ⟨ha, hfront⟩, hbyte⟩
    · exact .inr ⟨[], a, text, rfl, by simp, ha⟩

/-! ## Texts of so many bytes -/

/-- What is wrong with a text that should be the digits of so many bytes: the number of its bytes
is looked at before the digits are, and the first byte that is no digit is told. -/
inductive Misread (count : Nat) (s : String) : Fault → Prop
  | odd : s.utf8ByteSize % 2 = 1 → Misread count s .oddLength
  | length : s.utf8ByteSize % 2 = 0 → s.utf8ByteSize ≠ 2 * count → Misread count s .wrongLength
  | digit {front rest : List UInt8} {byte : UInt8} :
      s.utf8ByteSize = 2 * count → bytesOf s = front ++ byte :: rest →
      (∀ b ∈ front, IsDigitByte b) → ¬ IsDigitByte byte →
      Misread count s (.notDigit byte front.length)

theorem decodeExactly_eq (count : Nat) (s : String) :
    decodeExactly count s =
      if s.utf8ByteSize % 2 = 1 then .error .oddLength
      else if s.utf8ByteSize ≠ 2 * count then .error .wrongLength
      else decodePairs 0 (bytesOf s) := by
  simp only [decodeExactly, length_bytesOf]

theorem decodeExactly_of_misread {count : Nat} {s : String} {fault : Fault}
    (h : Misread count s fault) : decodeExactly count s = .error fault := by
  rw [decodeExactly_eq]
  cases h with
  | odd hodd => rw [if_pos hodd]
  | length heven hne => rw [if_neg (by omega), if_pos hne]
  | digit hlen hsplit hfront hbyte =>
    have heven := length_bytesOf s
    rw [hsplit] at heven
    rw [if_neg (by omega), if_neg (by omega), hsplit, decodePairs_of_first (by omega) hfront hbyte,
      Nat.zero_add]

theorem exists_decodeExactly_iff {count : Nat} {s : String} :
    (∃ bytes, decodeExactly count s = .ok bytes) ↔
      s.toList.length = 2 * count ∧ ∀ c ∈ s.toList, Json.IsHexDigit c := by
  rw [← isDigitByte_bytesOf_iff, length_bytesOf, decodeExactly_eq]
  constructor
  · rintro ⟨bytes, h⟩
    split at h
    · cases h
    · split at h
      · cases h
      · exact ⟨by omega, (encodeChars_of_decodePairs h).2⟩
  · rintro ⟨hlen, hdigits⟩
    rw [if_neg (by omega), if_neg (by omega)]
    exact decodePairs_of_digits (by rw [length_bytesOf]; omega) hdigits

theorem misread_of_decodeExactly {count : Nat} {s : String} {fault : Fault}
    (h : decodeExactly count s = .error fault) : Misread count s fault := by
  have hsome : ∃ other, Misread count s other := by
    by_cases hodd : s.utf8ByteSize % 2 = 1
    · exact ⟨_, .odd hodd⟩
    · by_cases hlen : s.utf8ByteSize = 2 * count
      · rcases digits_or_first (bytesOf s) with hall | ⟨front, byte, rest, hsplit, hfront, hbyte⟩
        · obtain ⟨bytes, hbytes⟩ := exists_decodeExactly_iff.mpr
            (isDigitByte_bytesOf_iff.mp ⟨(length_bytesOf s).trans hlen, hall⟩)
          rw [h] at hbytes
          cases hbytes
        · exact ⟨_, .digit hlen hsplit hfront hbyte⟩
      · exact ⟨_, .length (by omega) hlen⟩
  obtain ⟨other, hother⟩ := hsome
  obtain rfl := Except.error.inj (h.symm.trans (decodeExactly_of_misread hother))
  exact hother

theorem encode_of_decodePairs {s : String} {bytes : List UInt8}
    (h : decodePairs 0 (bytesOf s) = .ok bytes) : encode bytes = s.toUpper := by
  obtain ⟨hchars, hdigits⟩ := encodeChars_of_decodePairs h
  apply String.toList_injective
  rw [encode, String.toList_ofList, hchars, String.toUpper, String.toList_map,
    toList_of_isDigitByte hdigits, List.map_map]
  rfl

theorem encode_of_decodeExactly {count : Nat} {s : String} {bytes : List UInt8}
    (h : decodeExactly count s = .ok bytes) : encode bytes = s.toUpper := by
  rw [decodeExactly_eq] at h
  split at h
  · cases h
  · split at h
    · cases h
    · exact encode_of_decodePairs h

/-! ## Letters of either case -/

theorem isHexDigit_toUpper_iff (c : Char) : Json.IsHexDigit c.toUpper ↔ Json.IsHexDigit c := by
  have hall : ∀ c : Char, c.toNat < 128 → (Json.IsHexDigit c.toUpper ↔ Json.IsHexDigit c) := by
    unfold Json.IsHexDigit
    exact Text.of_ascii (by decide +kernel)
  by_cases hlt : c.toNat < 128
  · exact hall c hlt
  · have hz : ¬ ('a'.val ≤ c.val ∧ c.val ≤ 'z'.val) := by
      have hmax : 'z'.val.toNat = 122 := rfl
      have hval : c.val.toNat = c.toNat := rfl
      rw [UInt32.le_iff_toNat_le, UInt32.le_iff_toNat_le, hmax, hval]
      omega
    have hupper : c.toUpper = c := dif_neg hz
    rw [hupper]

theorem isHexDigit_of_toUpper {s t : String} (h : t.toUpper = s.toUpper) {count : Nat}
    (hs : s.toList.length = count ∧ ∀ c ∈ s.toList, Json.IsHexDigit c) :
    t.toList.length = count ∧ ∀ c ∈ t.toList, Json.IsHexDigit c := by
  have hchars : t.toList.map Char.toUpper = s.toList.map Char.toUpper := by
    simpa only [String.toUpper, String.toList_map] using congrArg String.toList h
  have hlen := congrArg List.length hchars
  rw [List.length_map, List.length_map] at hlen
  refine ⟨hlen.trans hs.1, fun c hc => ?_⟩
  have hmem : c.toUpper ∈ s.toList.map Char.toUpper := hchars ▸ List.mem_map_of_mem hc
  obtain ⟨d, hd, hdc⟩ := List.mem_map.mp hmem
  rw [← isHexDigit_toUpper_iff, ← hdc, isHexDigit_toUpper_iff]
  exact hs.2 d hd

/-! ## Texts of any length -/

section

variable {s : String} {bytes : List UInt8}

theorem decode_eq (s : String) : decode s =
    if s.utf8ByteSize % 2 = 1 then .error .oddLength else decodePairs 0 (bytesOf s) := by
  simp only [decode, length_bytesOf]

theorem decode_of_even (h : s.utf8ByteSize % 2 = 0) : decode s = decodePairs 0 (bytesOf s) := by
  rw [decode_eq, if_neg (by omega)]

theorem even_of_decode (h : decode s = .ok bytes) :
    s.utf8ByteSize % 2 = 0 ∧ decodePairs 0 (bytesOf s) = .ok bytes := by
  rw [decode_eq] at h
  split at h
  · cases h
  · exact ⟨by omega, h⟩

theorem decode_encode (bytes : List UInt8) : decode (encode bytes) = .ok bytes := by
  have hlen := length_bytesOf (encode bytes)
  rw [bytesOf_encode, length_digitBytes] at hlen
  rw [decode_of_even (by omega), bytesOf_encode, decodePairs_digitBytes]

theorem encode_inj {bytes' : List UInt8} (h : encode bytes = encode bytes') : bytes = bytes' := by
  have hdecode := decode_encode bytes
  rw [h, decode_encode] at hdecode
  exact (Except.ok.inj hdecode).symm

theorem exists_decode_iff : (∃ bytes, decode s = .ok bytes) ↔
    s.toList.length % 2 = 0 ∧ ∀ c ∈ s.toList, Json.IsHexDigit c := by
  constructor
  · rintro ⟨bytes, h⟩
    obtain ⟨heven, hpairs⟩ := even_of_decode h
    obtain ⟨hlen, hdigits⟩ := isDigitByte_bytesOf_iff.mp
      ⟨length_bytesOf s, (encodeChars_of_decodePairs hpairs).2⟩
    exact ⟨hlen ▸ heven, hdigits⟩
  · rintro ⟨heven, h⟩
    obtain ⟨hlen, hdigits⟩ := isDigitByte_bytesOf_iff.mpr ⟨rfl, h⟩
    rw [decode_of_even (by rw [← length_bytesOf, hlen, heven])]
    exact decodePairs_of_digits (hlen ▸ heven) hdigits

/-- A text is read as the bytes whose text it is in upper case. -/
theorem decode_eq_ok_iff : decode s = .ok bytes ↔ encode bytes = s.toUpper := by
  refine ⟨fun h => encode_of_decodePairs (even_of_decode h).2, fun h => ?_⟩
  have hcanonical : (encode bytes).toUpper = encode bytes :=
    (encode_of_decodePairs (even_of_decode (decode_encode bytes)).2).symm
  -- the text is made of digits as the one in upper case is
  obtain ⟨heven, hdigits⟩ := exists_decode_iff.mp ⟨bytes, decode_encode bytes⟩
  obtain ⟨hlen, hdigits⟩ := isHexDigit_of_toUpper (h.symm.trans hcanonical.symm) ⟨rfl, hdigits⟩
  obtain ⟨read, hread⟩ := exists_decode_iff.mpr ⟨hlen ▸ heven, hdigits⟩
  have hsame : encode read = encode bytes :=
    (encode_of_decodePairs (even_of_decode hread).2).trans h.symm
  rw [hread, encode_inj hsame]

end

end LedgerClient.Hex
