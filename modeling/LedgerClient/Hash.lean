import LedgerClient.Hex
import LedgerClient.Json.Codec
import LedgerClient.ProtocolError

/-!
# Hashes

The 256-bit hashes that identify transactions and ledgers. Their text is 64 upper-case hex digits;
`Hash.parse` reads digits of either case.
-/

namespace LedgerClient

namespace Hex

theorem length_of_decodePairs {index : Nat} {text bytes : List UInt8}
    (h : decodePairs index text = .ok bytes) : text.length = 2 * bytes.length := by
  fun_induction decodePairs index text generalizing bytes with
  | case1 => cases h; rfl
  | case2 => cases h
  | case3 => cases h
  | case4 => cases h
  | case5 => cases h
  | case6 index a b rest x hx y hy rest' hr ih =>
    cases h
    simp only [List.length_cons, ih hr]
    omega

theorem length_of_decodeExactly {count : Nat} {s : String} {bytes : List UInt8}
    (h : decodeExactly count s = .ok bytes) : bytes.length = count := by
  unfold decodeExactly at h
  dsimp only at h
  split at h
  · cases h
  · split at h
    · cases h
    · have := length_of_decodePairs h
      omega

end Hex

/-- A 256-bit hash. -/
structure Hash where
  bytes : List UInt8
  length_bytes : bytes.length = 32
deriving DecidableEq, Repr

namespace Hash

def zero : Hash := ⟨List.replicate 32 0, rfl⟩

def isZero (h : Hash) : Bool := h.bytes.all (· == 0)

def text (h : Hash) : String := Hex.encode h.bytes

def inspect (h : Hash) : String := "Hash256(" ++ h.text ++ ")"

def ofBytes? (bytes : List UInt8) : Option Hash :=
  if h : bytes.length = 32 then some ⟨bytes, h⟩ else none

def parse (s : String) : Except ProtocolError Hash :=
  match h : Hex.decodeExactly 32 s with
  | .ok bytes => .ok ⟨bytes, Hex.length_of_decodeExactly h⟩
  | .error fault => .error (.invalidHash (s ++ ": " ++ fault.message))

def codec : Json.Codec Hash :=
  .refined (fun s => (parse s).mapError ProtocolError.message) text

end Hash

end LedgerClient
