import Komms.Collections.SelfDelimiting
import Komms.Protocol.Event

/-!
# The postcard format

The `postcard` crate is a parameter: the methods of its serializer and its deserializer that
stored records need. `Postcard.Documented` is the wire format and what callers rely on of the
reader, which takes each value off the front of the bytes. `Postcard.reference` is an
executable instance.

An array has its elements without a length, a vector has its length in front, and a record has
its fields in order and nothing else.
-/

namespace Komms

open Cbor Coding

inductive PostcardError where
  | deserializeUnexpectedEnd
  | deserializeBadVarint
  | deserializeBadBool
  | deserializeBadOption
  deriving DecidableEq, Repr

/-- The methods for numbers are those for `u64` and for the lengths of vectors. -/
structure Postcard where
  serializeU8 : UInt8 → Bytes
  serializeBool : Bool → Bytes
  serializeVarint : UInt64 → Bytes
  serializeNone : Bytes
  serializeSome : Bytes → Bytes
  deserializeU8 : Reader UInt8 PostcardError UInt8
  deserializeBool : Reader UInt8 PostcardError Bool
  deserializeVarint : Reader UInt8 PostcardError UInt64
  deserializeOption : {α : Type} → Reader UInt8 PostcardError α →
    Reader UInt8 PostcardError (Option α)

/-- The most digits that a number of 64 bits has. -/
def varintMax : Nat := 10

def boolByte (x : Bool) : UInt8 := if x then 1 else 0

/-- What the documentation of the crate promises. -/
structure Postcard.Documented (p : Postcard) : Prop where
  writesU8 : ∀ byte, p.serializeU8 byte = [byte]
  writesBool : ∀ x, p.serializeBool x = [boolByte x]
  writesVarint : ∀ n, p.serializeVarint n = writeVarint varintMax n.toNat
  writesNone : p.serializeNone = [0]
  writesSome : ∀ b, p.serializeSome b = 1 :: b
  readsU8 : ∀ byte rest, p.deserializeU8 (byte :: rest) = .ok (byte, rest)
  readsBool : ∀ x rest, p.deserializeBool (boolByte x :: rest) = .ok (x, rest)
  readsVarint : ∀ n rest,
    p.deserializeVarint (writeVarint varintMax n.toNat ++ rest) = .ok (n, rest)
  readsNone : ∀ {α : Type} (read : Reader UInt8 PostcardError α) (rest : Bytes),
    p.deserializeOption read (0 :: rest) = .ok (none, rest)
  readsSome : ∀ {α : Type} (read : Reader UInt8 PostcardError α) (rest : Bytes),
    p.deserializeOption read (1 :: rest) = (read rest).map fun (a, rest) => (some a, rest)
  /-- An option has a tag, so that there is none at the end of the bytes. -/
  ends : ∀ {α : Type} (read : Reader UInt8 PostcardError α),
    p.deserializeOption read [] = .error .deserializeUnexpectedEnd

namespace Postcard

section Source

variable (p : Postcard)

/-- Arrays have a fixed length, which is not written. -/
def serializeBytes32 (b : Bytes32) : Bytes := b.1.flatMap p.serializeU8

def deserializeBytes32 : Reader UInt8 PostcardError Bytes32 := readVector p.deserializeU8 32

def serializeVecU8 (b : VecU8) : Bytes :=
  p.serializeVarint (.ofNat b.1.length) ++ b.1.flatMap p.serializeU8

def deserializeVecU8 : Reader UInt8 PostcardError VecU8 := fun b => do
  let (length, b) ← p.deserializeVarint b
  let (v, b) ← readVector p.deserializeU8 length.toNat b
  .ok (⟨v.1, v.2.trans_lt length.toNat_lt⟩, b)

def serializeOption {α : Type} (write : α → Bytes) : Option α → Bytes
  | none => p.serializeNone
  | some a => p.serializeSome (write a)

/-- The value at the front of the bytes. What follows it is ignored. -/
def fromBytes {α : Type} (read : Reader UInt8 PostcardError α) (b : Bytes) :
    Except PostcardError α := do
  let (a, _) ← read b
  .ok a

end Source

theorem fromBytes_write {α : Type} {write : α → Bytes} {read : Reader UInt8 PostcardError α}
    (h : SelfDelimiting write read) (a : α) : fromBytes read (write a) = .ok a := by
  rw [fromBytes, h.read_write, Except.ok_bind]

namespace Documented

variable {p : Postcard} (h : p.Documented)

include h

theorem u8 : SelfDelimiting p.serializeU8 p.deserializeU8 := by
  intro byte rest
  rw [h.writesU8, List.singleton_append, h.readsU8]

theorem bool : SelfDelimiting p.serializeBool p.deserializeBool := by
  intro x rest
  rw [h.writesBool, List.singleton_append, h.readsBool]

theorem varint : SelfDelimiting p.serializeVarint p.deserializeVarint := by
  intro n rest
  rw [h.writesVarint, h.readsVarint]

theorem bytes32 : SelfDelimiting p.serializeBytes32 p.deserializeBytes32 := h.u8.vector 32

theorem vecU8 : SelfDelimiting p.serializeVecU8 p.deserializeVecU8 := by
  intro b rest
  have hlength : (UInt64.ofNat b.1.length).toNat = b.1.length := by
    rw [UInt64.toNat_ofNat', Nat.mod_eq_of_lt b.2]
  have hv := h.u8.vector (UInt64.ofNat b.1.length).toNat ⟨b.1, hlength.symm⟩ rest
  rw [serializeVecU8, List.append_assoc, deserializeVecU8, h.varint, Except.ok_bind]
  dsimp only at hv ⊢
  rw [hv, Except.ok_bind]

theorem option {α : Type} {write : α → Bytes} {read : Reader UInt8 PostcardError α}
    (hread : SelfDelimiting write read) :
    SelfDelimiting (p.serializeOption write) (p.deserializeOption read) := by
  intro x rest
  cases x with
  | none => rw [serializeOption, h.writesNone, List.singleton_append, h.readsNone]
  | some a =>
      rw [serializeOption, h.writesSome, List.cons_append, h.readsSome, hread]
      rfl

end Documented

/-- Takes one byte. -/
def popByte : Reader UInt8 PostcardError UInt8
  | [] => .error .deserializeUnexpectedEnd
  | byte :: rest => .ok (byte, rest)

def reference : Postcard where
  serializeU8 byte := [byte]
  serializeBool x := [boolByte x]
  serializeVarint n := writeVarint varintMax n.toNat
  serializeNone := [0]
  serializeSome b := 1 :: b
  deserializeU8 := popByte
  deserializeBool b := do
    let (byte, b) ← popByte b
    if byte = 0 then .ok (false, b) else if byte = 1 then .ok (true, b)
    else .error .deserializeBadBool
  deserializeVarint b := do
    let (n, b) ← readVarint .deserializeUnexpectedEnd .deserializeBadVarint varintMax b
    if n < 2 ^ 64 then .ok (.ofNat n, b) else .error .deserializeBadVarint
  deserializeOption read b := do
    let (byte, b) ← popByte b
    if byte = 0 then .ok (none, b)
    else if byte = 1 then (read b).map fun (a, rest) => (some a, rest)
    else .error .deserializeBadOption

theorem reference_documented : reference.Documented where
  writesU8 _ := rfl
  writesBool _ := rfl
  writesVarint _ := rfl
  writesNone := rfl
  writesSome _ := rfl
  readsU8 _ _ := rfl
  readsBool x _ := by cases x <;> rfl
  readsVarint n rest := by
    have hlt : n.toNat < 128 ^ 10 := n.toNat_lt.trans (by decide)
    simp only [reference, varintMax]
    rw [readVarint_writeVarint _ _ hlt, Except.ok_bind]
    dsimp only
    rw [if_pos n.toNat_lt, UInt64.ofNat_toNat]
  readsNone _ _ := rfl
  readsSome _ _ := rfl
  ends _ := rfl

end Postcard

end Komms
