import Komms.Protocol.Validate
import Mathlib.Data.List.Lex
import Mathlib.Data.Sym.Sym2

/-!
# References and identifiers

The bytes of a `ref` from a content id or a content hash, and the ids that are hashes.
SHA-256 is a parameter, an arbitrary function from bytes to 32 bytes.
-/

namespace Komms

open Cbor

/-- The contents of a Rust string, of at most `isize::MAX` bytes. -/
abbrev RString := { s : String // (utf8 s).length < 2 ^ 63 }

inductive RefBuildError where
  | emptyCid
  deriving DecidableEq

def RefBuildError.message : RefBuildError → String
  | .emptyCid => "CID string must be non-empty UTF-8"

/-- `ref_type` 0x01: a UTF-8 content id. -/
def refFromCidStr (cid : RString) : Except RefBuildError VecU8 := do
  .failIf (utf8 cid.1 = []) .emptyCid
  .ok ⟨0x01 :: utf8 cid.1, by
    have hlength := cid.2
    rw [List.length_cons]
    omega⟩

/-- `ref_type` 0x02: a SHA-256 content hash. -/
def refFromContentHash (hash : Bytes32) : VecU8 :=
  ⟨0x02 :: hash.1, by rw [List.length_cons, hash.2]; decide⟩

/-- A content id that is accepted makes a reference that is accepted. -/
theorem refFromCidStr_eq_ok {cid : RString} {r : VecU8} :
    refFromCidStr cid = .ok r ↔ r.1 = 0x01 :: utf8 cid.1 ∧ validateRef r.1 = .ok () := by
  rw [refFromCidStr, Except.failIf_bind_eq_ok, Except.ok.injEq]
  constructor
  · rintro ⟨hne, rfl⟩
    have htext : (fromUtf8 (utf8 cid.1)).isSome := by
      rw [fromUtf8_utf8]
      rfl
    exact ⟨rfl, validateRef_eq_ok.mpr (.contentId hne htext)⟩
  · rintro ⟨hr, hvalid⟩
    rw [hr, validateRef_eq_ok] at hvalid
    cases hvalid with
    | contentId hne _ => exact ⟨hne, Subtype.ext hr.symm⟩

section Hashed

variable (sha256 : Bytes → Bytes32)

def sha256Domain (domain : Bytes) (parts : List Bytes) : Bytes32 :=
  sha256 (domain ++ parts.flatten)

/-- The id of a participant, from the address bytes. -/
def participantId (creatorAddressBytes : Bytes) : Bytes32 :=
  sha256Domain sha256 (utf8 "KOMMS_PARTICIPANT_V0") [creatorAddressBytes]

/-- The two addresses of a thread in lexicographic order, as `cmp` decides. -/
def sortAddresses (addrA addrB : Bytes) : Bytes × Bytes :=
  if addrA > addrB then (addrB, addrA) else (addrA, addrB)

/-- The id of a thread of two participants. -/
def dmThreadId (addrA addrB : Bytes) : Bytes32 :=
  let (minA, maxA) := sortAddresses addrA addrB
  sha256Domain sha256 (utf8 "KOMMS_DM_V0") [minA, maxA]

end Hashed

section DmThread

variable {a b c d : Bytes}

/-- What the id of a thread is a hash of. -/
def dmThreadInput (addrA addrB : Bytes) : Bytes :=
  utf8 "KOMMS_DM_V0" ++ min addrA addrB ++ max addrA addrB

theorem sortAddresses_eq (a b : Bytes) : sortAddresses a b = (min a b, max a b) := by
  rw [sortAddresses]
  split_ifs with h
  · rw [min_eq_right h.le, max_eq_left h.le]
  · rw [min_eq_left (not_lt.mp h), max_eq_right (not_lt.mp h)]

theorem dmThreadId_eq (sha256 : Bytes → Bytes32) (a b : Bytes) :
    dmThreadId sha256 a b = sha256 (dmThreadInput a b) := by
  simp only [dmThreadId, sortAddresses_eq, sha256Domain, dmThreadInput, List.flatten_cons,
    List.flatten_nil, List.append_nil, List.append_assoc]

theorem dmThreadInput_comm (a b : Bytes) : dmThreadInput a b = dmThreadInput b a := by
  rw [dmThreadInput, dmThreadInput, min_comm, max_comm]

/-- The pair is the one of its lesser and its greater address. -/
theorem pair_eq_min_max (a b : Bytes) : s(a, b) = s(min a b, max a b) := by
  rcases le_total a b with h | h
  · rw [min_eq_left h, max_eq_right h]
  · rw [min_eq_right h, max_eq_left h, Sym2.eq_swap]

/-- The input does not say where the greater address starts. -/
theorem pair_eq_iff_of_dmThreadInput (h : dmThreadInput a b = dmThreadInput c d) :
    s(a, b) = s(c, d) ↔ (min a b).length = (min c d).length := by
  constructor
  · intro hpair
    rcases Sym2.eq_iff.mp hpair with ⟨rfl, rfl⟩ | ⟨rfl, rfl⟩
    · rfl
    · rw [min_comm]
  · intro hlength
    simp only [dmThreadInput, List.append_assoc, List.append_cancel_left_eq] at h
    obtain ⟨hmin, hmax⟩ := List.append_inj h hlength
    rw [pair_eq_min_max a b, pair_eq_min_max c d, hmin, hmax]

end DmThread

end Komms
