import Komms.Protocol.Event
import Komms.Text.Hex
import Komms.Text.Str

/-!
# Hexadecimal strings

The `faster-hex` crate is a parameter. `FasterHex.Documented` says what callers rely on:
the string of a byte string has lower-case digits and decodes to it, and any digits
decode to the bytes they stand for. `FasterHex.reference` is an executable instance.
-/

namespace Komms

open Cbor

/-- The two functions of the crate. `hexDecode` fills a buffer of `n` bytes. -/
structure FasterHex where
  hexString : Bytes → String
  hexDecode : Bytes → (n : Nat) → Option (List.Vector UInt8 n)

/-- What the documentation of the crate promises. Nothing is promised of an empty buffer. -/
structure FasterHex.Documented (h : FasterHex) : Prop where
  lowerCase : ∀ b, ∀ c ∈ (h.hexString b).toList, c ∈ "0123456789abcdef".toList
  inverts : ∀ {n : Nat} (v : List.Vector UInt8 n), 0 < n →
    h.hexDecode (utf8 (h.hexString v.1)) n = some v
  decodes : ∀ {n : Nat} (src : Bytes) (v : List.Vector UInt8 n), 0 < n →
    Hex.decode src = some v.1 → h.hexDecode src n = some v

/-- A hexadecimal string has no white space to trim. -/
theorem FasterHex.Documented.trim_hexString {h : FasterHex} (hdoc : h.Documented) (b : Bytes) :
    Str.trim (h.hexString b) = h.hexString b := by
  have hdigits : "0123456789abcdef".toList.all (fun c => !Str.isWhitespace c) = true := by
    decide +kernel
  refine Str.trim_eq_self fun c hc => ?_
  exact (Bool.not_eq_true' _).mp (List.all_eq_true.mp hdigits c (hdoc.lowerCase b c hc))

/-- The character of a digit below 16. -/
def hexChar (n : Nat) : Char := .ofNat (Hex.digit n).toNat

def FasterHex.reference : FasterHex where
  hexString b := .ofList (b.flatMap fun x => [hexChar (x.toNat / 16), hexChar (x.toNat % 16)])
  hexDecode src n := do
    let b ← Hex.decode src
    if h : b.length = n then some ⟨b, h⟩ else none

theorem utf8EncodeChar_hexChar {n : Nat} (h : n < 16) :
    String.utf8EncodeChar (hexChar n) = [Hex.digit n] := by
  revert h
  revert n
  decide +kernel

theorem utf8_reference (b : Bytes) : utf8 (FasterHex.reference.hexString b) = Hex.encode b := by
  simp only [utf8, FasterHex.reference, String.toByteArray_ofList, List.utf8Encode,
    List.toList_data_toByteArray, Hex.encode]
  induction b with
  | nil => rfl
  | cons x b ih =>
      have hx := x.toNat_lt
      have hhigh : x.toNat / 16 < 16 := by omega
      have hlow : x.toNat % 16 < 16 := by omega
      simp only [List.flatMap_cons, List.flatMap_append, List.flatMap_nil, List.append_nil,
        utf8EncodeChar_hexChar hhigh, utf8EncodeChar_hexChar hlow, ih]
      rfl

theorem reference_hexDecode {n : Nat} {src : Bytes} {v : List.Vector UInt8 n}
    (h : Hex.decode src = some v.1) : FasterHex.reference.hexDecode src n = some v := by
  simp only [FasterHex.reference, h, Option.bind_eq_bind, Option.bind_some]
  exact dif_pos v.2

theorem FasterHex.reference_documented : FasterHex.reference.Documented where
  lowerCase b c hc := by
    rw [FasterHex.reference, String.toList_ofList] at hc
    obtain ⟨x, -, hx⟩ := List.mem_flatMap.mp hc
    have hall : ∀ n < 16, hexChar n ∈ "0123456789abcdef".toList := by decide +kernel
    have hlt := x.toNat_lt
    rcases List.mem_pair.mp hx with rfl | rfl
    · exact hall _ (by omega)
    · exact hall _ (by omega)
  inverts v _ := reference_hexDecode (by rw [utf8_reference, Hex.decode_encode])
  decodes _ _ _ h := reference_hexDecode h

/-- The crate also documents that the string of a byte string is its hexadecimal encoding. -/
def FasterHex.Encodes (h : FasterHex) : Prop := ∀ b, utf8 (h.hexString b) = Hex.encode b

theorem FasterHex.reference_encodes : FasterHex.reference.Encodes := utf8_reference

theorem FasterHex.Encodes.hexString_injective {h : FasterHex} (henc : h.Encodes) :
    Function.Injective h.hexString := by
  intro a b hab
  have hdecode := congrArg (fun s => Hex.decode (utf8 s)) hab
  simp only [henc _, Hex.decode_encode] at hdecode
  exact Option.some.inj hdecode

end Komms
