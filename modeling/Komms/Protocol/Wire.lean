import Komms.Protocol.Event

/-!
# Fields on the wire

`FieldKind` is a typed field of the map: the reader of its values, the value that
is written for it, and the proof that the two agree. The parser pops fields with
the readers, the encoder pushes them with the writers.

`ParsedKommsEvent.rows` is the key table of the core fields. Two of them are not
written from the event alone: `enc_scheme`, which a v0 map does not carry, and
`role`, which is a wider integer on the wire. The table takes their wire values
as arguments.
-/

namespace Komms

open Cbor

namespace Value

def uint (n : UInt64) : Value := .integer (.unsigned n)

/-- A byte string of fixed length. -/
def fixed {n : Nat} (hn : n < 2 ^ 64) (b : List.Vector UInt8 n) : Value :=
  .bytes ⟨b.1, b.2.trans_lt hn⟩

def bytes16 (b : Bytes16) : Value := fixed (by decide) b

def bytes32 (b : Bytes32) : Value := fixed (by decide) b

def bytes64 (b : Bytes64) : Value := fixed (by decide) b

theorem uint_inj {n n' : UInt64} : uint n = uint n' ↔ n = n' := by
  simp [uint]

end Value

section Narrowing

theorem toUInt64_le (k : UInt8) : k.toUInt64 ≤ 255 := by
  have hlt := k.toNat_lt
  rw [UInt64.le_iff_toNat_le, UInt8.toNat_toUInt64]
  show _ ≤ 255
  omega

theorem toUInt64_toUInt8 {n : UInt64} (h : n ≤ 255) : n.toUInt8.toUInt64 = n := by
  have hle : n.toNat ≤ 255 := UInt64.le_iff_toNat_le.mp h
  apply UInt64.toNat_inj.mp
  rw [UInt8.toNat_toUInt64, UInt64.toNat_toUInt8]
  omega

theorem toUInt64_lt_toUInt64 {k k' : UInt8} : k.toUInt64 < k'.toUInt64 ↔ k < k' := by
  rw [UInt64.lt_iff_toNat_lt, UInt8.toNat_toUInt64, UInt8.toNat_toUInt64, UInt8.lt_iff_toNat_lt]

end Narrowing

/-- The value of a map key. -/
def bk (key : UInt8) : Value := .uint key.toUInt64

theorem bk_inj {k k' : UInt8} : bk k = bk k' ↔ k = k' := by
  refine ⟨fun h => ?_, congrArg bk⟩
  have hwide : k.toUInt64 = k'.toUInt64 := Value.uint_inj.mp h
  rw [← UInt8.toUInt8_toUInt64 k, hwide, UInt8.toUInt8_toUInt64]

/-- How a field is read from a value, and which value is written for it. -/
structure FieldKind (α : Type) where
  read : Value → Except ParseError α
  write : α → Value
  read_eq_ok : ∀ {v : Value} {a : α}, read v = .ok a ↔ v = write a

namespace FieldKind

def uint (name : String) : FieldKind UInt64 where
  read
    | .integer (.unsigned n) => .ok n
    | _ => .error (.expectedUint name)
  write := .uint
  read_eq_ok := by
    intro v a
    split
    · simp [Value.uint]
    · rename_i hnot
      exact iff_of_false (by simp) (hnot a)

def bool (name : String) : FieldKind Bool where
  read
    | .bool b => .ok b
    | _ => .error (.expectedBool name)
  write := .bool
  read_eq_ok := by
    intro v a
    split
    · simp
    · rename_i hnot
      exact iff_of_false (by simp) (hnot a)

def bytes (name : String) : FieldKind VecU8 where
  read
    | .bytes b => .ok b
    | _ => .error (.expectedBytes name)
  write := .bytes
  read_eq_ok := by
    intro v a
    split
    · simp
    · rename_i hnot
      exact iff_of_false (by simp) (hnot a)

def text (name : String) : FieldKind String where
  read
    | .text s => .ok s
    | _ => .error (.expectedText name)
  write := .text
  read_eq_ok := by
    intro v a
    split
    · simp
    · rename_i hnot
      exact iff_of_false (by simp) (hnot a)

def fixed {n : Nat} (hn : n < 2 ^ 64) (notBytes wrongLength : ParseError) :
    FieldKind (List.Vector UInt8 n) where
  read
    | .bytes b => if h : b.1.length = n then .ok ⟨b.1, h⟩ else .error wrongLength
    | _ => .error notBytes
  write := .fixed hn
  read_eq_ok := by
    intro v a
    obtain ⟨a, ha⟩ := a
    split
    · rename_i b
      obtain ⟨b, hb⟩ := b
      simp only [Value.fixed, Value.bytes.injEq, Subtype.mk.injEq]
      split_ifs with hlength
      · exact ⟨fun h => congrArg Subtype.val (Except.ok.inj h), fun h => by subst h; rfl⟩
      · refine iff_of_false (by simp) fun h => hlength ?_
        rw [h, ha]
    · rename_i hnot
      exact iff_of_false (by simp) (hnot _)

def bytes16 (name : String) : FieldKind Bytes16 :=
  fixed (by decide) (.expectedBytes16 name) (.expectedBytes16 name)

def bytes32 (name : String) : FieldKind Bytes32 :=
  fixed (by decide) (.expectedBytes32 name) (.expectedBytes32 name)

/-- The signature has an error of its own for a wrong length. -/
def sig : FieldKind Bytes64 := fixed (by decide) (.expectedBytes "sig") .invalidSigLength

section

variable {name : String}

@[simp] theorem uint_write : (uint name).write = .uint := rfl

@[simp] theorem bool_write : (bool name).write = .bool := rfl

@[simp] theorem bytes_write : (bytes name).write = .bytes := rfl

@[simp] theorem text_write : (text name).write = .text := rfl

@[simp] theorem bytes16_write : (bytes16 name).write = .bytes16 := rfl

@[simp] theorem bytes32_write : (bytes32 name).write = .bytes32 := rfl

@[simp] theorem sig_write : sig.write = .bytes64 := rfl

end

end FieldKind

def V0Fields.rows (f : V0Fields) : List (UInt8 × Option Value) :=
  [(0, some (.uint f.v)),
    (1, some (.uint f.t.asU8.toUInt64)),
    (2, f.sid.map .bytes32),
    (3, f.cid.map .bytes32),
    (4, f.did.map .bytes32),
    (5, f.pid.map .bytes32),
    (6, f.mid.map .bytes32),
    (7, f.refBytes.map .bytes),
    (8, some (.bool f.enc)),
    (9, f.ts.map .uint),
    (10, f.n.map .uint),
    (11, f.sig.map .bytes64)]

def V1Fields.rows (f : V1Fields) (scheme : Option UInt64) : List (UInt8 × Option Value) :=
  [(12, f.parentMid.map .bytes32),
    (13, scheme.map .uint),
    (14, f.kind.map .uint),
    (15, f.mime.map .text),
    (16, f.refType.map .uint),
    (17, f.devicePk.map .bytes32),
    (18, f.sigScheme.map .uint),
    (19, f.reactionKey.map .bytes),
    (20, f.paymentHint.map .bytes)]

def V11Fields.rows (f : V11Fields) : List (UInt8 × Option Value) :=
  [(21, f.memberTag.map .bytes16),
    (22, f.memberSealed.map .bytes),
    (23, f.encSid.map .bytes),
    (24, f.encCid.map .bytes),
    (25, f.encBodyRef.map .bytes),
    (26, f.encParentMid.map .bytes),
    (27, f.matchTag.map .bytes16),
    (28, f.encT.map .bytes),
    (29, f.keyEpoch.map .uint),
    (30, f.sealedSigner.map .bytes)]

def RoleFields.rows (f : RoleFields) (role : Option UInt64) : List (UInt8 × Option Value) :=
  [(31, role.map .uint), (32, f.target.map .bytes)]

/-- The core keys in ascending order, with the value of each field that is present. -/
def ParsedKommsEvent.rows (ev : ParsedKommsEvent) (scheme role : Option UInt64) :
    List (UInt8 × Option Value) :=
  ev.toV0Fields.rows ++ (ev.toV1Fields.rows scheme ++ (ev.toV11Fields.rows ++
    ev.toRoleFields.rows role))

/-- The keys of the table are those below the extension range. -/
theorem rows_keys {ev : ParsedKommsEvent} {scheme role : Option UInt64} :
    (ev.rows scheme role).map Prod.fst = (List.range 33).map UInt8.ofNat := rfl

end Komms
