import Komms.Crypto.FasterHex
import Komms.Protocol.Identifiers
import Mathlib.Data.List.Flatten

/-!
# Hexadecimal arguments

The readers of ids, references and signatures that are given as hexadecimal strings.
`Denotes` says which bytes such an argument stands for, white space and `0x` aside;
an error is the message that is shown.
-/

namespace Komms.Hexutil

open Cbor

/-- The argument without white space around it and without `0x` in front. -/
def hexBody (s : String) : String :=
  (Str.stripPrefix (Str.trim s) "0x").getD (Str.trim s)

theorem utf8_length_le {s t : String} (h : s.toList.Sublist t.toList) :
    (utf8 s).length ≤ (utf8 t).length := by
  rw [utf8_eq_flatMap, utf8_eq_flatMap]
  exact (h.flatMap _).length_le

theorem hexBody_length_le (s : String) : (utf8 (hexBody s)).length ≤ (utf8 s).length := by
  have htrim := Str.trim_sublist s
  rw [hexBody]
  cases hstrip : Str.stripPrefix (Str.trim s) "0x" with
  | none => exact utf8_length_le htrim
  | some t => exact utf8_length_le ((Str.stripPrefix_sublist hstrip).trans htrim)

section Source

variable (hex : FasterHex)

def parseHex32 (s : String) : Except String Bytes32 := do
  let src := utf8 (hexBody s)
  .failIf (src.length ≠ 64) ("expected 64 hex chars for 32 bytes, got " ++ toString src.length)
  .okOr (hex.hexDecode src 32) "invalid hex"

def parseHexBytes (s : RString) : Except String VecU8 := do
  let src := utf8 (hexBody s.1)
  .failIf (src.length % 2 ≠ 0) "hex length must be even"
  let out ← .okOr (hex.hexDecode src (src.length / 2)) "invalid hex"
  .ok ⟨out.1, by
    have hlength : src.length ≤ (utf8 s.1).length := hexBody_length_le s.1
    have hbound := s.2
    rw [out.2]
    omega⟩

def parseHex64Sig (s : String) : Except String Bytes64 := do
  let src := utf8 (hexBody s)
  .failIf (src.length ≠ 128) "expected 128 hex chars for ed25519 signature"
  .okOr (hex.hexDecode src 64) "invalid hex"

end Source

/-- The bytes that an argument stands for. -/
def Denotes (s : String) (b : Bytes) : Prop := Hex.decode (utf8 (hexBody s)) = some b

instance {s : String} {b : Bytes} : Decidable (Denotes s b) :=
  inferInstanceAs (Decidable (_ = _))

section Denotes

variable {hex : FasterHex} {s : String}

theorem Denotes.length {b : Bytes} (h : Denotes s b) : (utf8 (hexBody s)).length = 2 * b.length :=
  Hex.length_of_decode h

theorem parseHex32_of_denotes (hhex : hex.Documented) {v : Bytes32} (h : Denotes s v.1) :
    parseHex32 hex s = .ok v := by
  have hlength := h.length
  rw [v.2] at hlength
  rw [parseHex32, Except.failIf_bind_eq_ok, Except.okOr_eq_ok]
  exact ⟨not_not.mpr hlength, hhex.decodes _ v (by decide) h⟩

theorem parseHex64Sig_of_denotes (hhex : hex.Documented) {v : Bytes64} (h : Denotes s v.1) :
    parseHex64Sig hex s = .ok v := by
  have hlength := h.length
  rw [v.2] at hlength
  rw [parseHex64Sig, Except.failIf_bind_eq_ok, Except.okOr_eq_ok]
  exact ⟨not_not.mpr hlength, hhex.decodes _ v (by decide) h⟩

/-- An argument for at least one byte is read. -/
theorem parseHexBytes_of_denotes (hhex : hex.Documented) {s : RString} {b : VecU8}
    (h : Denotes s.1 b.1) (hne : b.1 ≠ []) : parseHexBytes hex s = .ok b := by
  have hlength := h.length
  have hhalf : b.1.length = (utf8 (hexBody s.1)).length / 2 := by omega
  have hpos : 0 < (utf8 (hexBody s.1)).length / 2 := by
    rw [← hhalf]
    exact List.length_pos_iff.mpr hne
  rw [parseHexBytes, Except.failIf_bind_eq_ok, hhex.decodes _ ⟨b.1, hhalf⟩ hpos h]
  exact ⟨by omega, rfl⟩

end Denotes

section Printed

variable {hex : FasterHex} {s : String} {b : Bytes}

/-- The argument is a text, up to white space around it and `0x` in front. -/
def Shows (s text : String) : Prop := Str.trim s = text ∨ Str.trim s = "0x" ++ text

/-- The characters of an argument that shows a printed byte string. -/
theorem Shows.mem_digits (hhex : hex.Documented) (h : Shows s (hex.hexString b)) :
    ∀ c ∈ (Str.trim s).toList, c ∈ "0123456789abcdefx".toList := by
  have hdigits : "0123456789abcdef".toList ⊆ "0123456789abcdefx".toList := by decide +kernel
  have hzero : '0' ∈ "0123456789abcdefx".toList ∧ 'x' ∈ "0123456789abcdefx".toList := by
    decide +kernel
  intro c hc
  rcases h with htrim | htrim
  · rw [htrim] at hc
    exact hdigits (hhex.lowerCase b c hc)
  · rw [htrim, String.toList_append] at hc
    rcases List.mem_append.mp hc with hc | hc
    · rcases List.mem_pair.mp hc with rfl | rfl
      · exact hzero.1
      · exact hzero.2
    · exact hdigits (hhex.lowerCase b c hc)

/-- No other character occurs in it. -/
theorem Shows.not_mem (hhex : hex.Documented) (h : Shows s (hex.hexString b)) {c : Char}
    (hc : c ∉ "0123456789abcdefx".toList) : c ∉ (Str.trim s).toList :=
  fun hmem => hc (h.mem_digits hhex c hmem)

/-- An argument that shows a printed byte string is trimmed to one that does. -/
theorem Shows.trim (hhex : hex.Documented) (h : Shows s (hex.hexString b)) :
    Shows (Str.trim s) (hex.hexString b) := by
  have hspace : "0123456789abcdefx".toList.all (fun c => !Str.isWhitespace c) = true := by
    decide +kernel
  have htrim : Str.trim (Str.trim s) = Str.trim s := Str.trim_eq_self fun c hc =>
    (Bool.not_eq_true' _).mp (List.all_eq_true.mp hspace c (h.mem_digits hhex c hc))
  rwa [Shows, htrim]

/-- Such an argument stands for the bytes that have been printed. -/
theorem Shows.denotes (hhex : hex.Documented) (henc : hex.Encodes)
    (h : Shows s (hex.hexString b)) : Denotes s b := by
  have hbody : hexBody s = hex.hexString b := by
    rw [hexBody]
    rcases h with htrim | htrim
    · have hx : 'x' ∉ (hex.hexString b).toList := fun hmem =>
        absurd (hhex.lowerCase b 'x' hmem) (by decide +kernel)
      rw [htrim, Str.stripPrefix_eq_none (p := "0x") (List.mem_cons_of_mem _ List.mem_cons_self) hx]
      rfl
    · rw [htrim, Str.stripPrefix_append]
      rfl
  rw [Denotes, hbody, henc, Hex.decode_encode]

end Printed

end Komms.Hexutil
