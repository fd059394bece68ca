import Komms.Cli.Postcard
import Komms.Crypto.FasterHex

/-!
# Rows of the index

The table of events that the indexer keeps, by transaction. Rows have had two layouts, of
which the newer one has one more field at the end, and nothing in a row says which one it has:
a row is read with the newer layout, and if that fails with the older one. The newer layout
fails on every older row, because it looks for the tag of its last field where the row ends.
-/

namespace Komms

open Cbor Coding Postcard

structure KommsEventRecord where
  containingBlockHash : Bytes32
  containingDaa : UInt64
  eventType : UInt8
  enc : Bool
  sid : Option Bytes32
  cid : Option Bytes32
  did : Option Bytes32
  pid : Option Bytes32
  mid : Option Bytes32
  refBytes : Option VecU8
  ts : Option UInt64
  n : Option UInt64
  sig : Option VecU8
  creatorAddressBody : Option VecU8
  deriving DecidableEq

structure KommsEventRecordV1 where
  containingBlockHash : Bytes32
  containingDaa : UInt64
  eventType : UInt8
  enc : Bool
  sid : Option Bytes32
  cid : Option Bytes32
  did : Option Bytes32
  pid : Option Bytes32
  mid : Option Bytes32
  refBytes : Option VecU8
  ts : Option UInt64
  n : Option UInt64
  sig : Option VecU8
  deriving DecidableEq

section Source

variable (p : Postcard)

def KommsEventRecord.serialize (r : KommsEventRecord) : Bytes :=
  p.serializeBytes32 r.containingBlockHash ++ p.serializeVarint r.containingDaa ++
    p.serializeU8 r.eventType ++ p.serializeBool r.enc ++
    p.serializeOption p.serializeBytes32 r.sid ++ p.serializeOption p.serializeBytes32 r.cid ++
    p.serializeOption p.serializeBytes32 r.did ++ p.serializeOption p.serializeBytes32 r.pid ++
    p.serializeOption p.serializeBytes32 r.mid ++ p.serializeOption p.serializeVecU8 r.refBytes ++
    p.serializeOption p.serializeVarint r.ts ++ p.serializeOption p.serializeVarint r.n ++
    p.serializeOption p.serializeVecU8 r.sig ++
    p.serializeOption p.serializeVecU8 r.creatorAddressBody

/-- The default of the last field is for formats that say that a field is missing. Here all
fourteen fields are read. -/
def KommsEventRecord.deserialize : Reader UInt8 PostcardError KommsEventRecord := fun b => do
  let (containingBlockHash, b) ← p.deserializeBytes32 b
  let (containingDaa, b) ← p.deserializeVarint b
  let (eventType, b) ← p.deserializeU8 b
  let (enc, b) ← p.deserializeBool b
  let (sid, b) ← p.deserializeOption p.deserializeBytes32 b
  let (cid, b) ← p.deserializeOption p.deserializeBytes32 b
  let (did, b) ← p.deserializeOption p.deserializeBytes32 b
  let (pid, b) ← p.deserializeOption p.deserializeBytes32 b
  let (mid, b) ← p.deserializeOption p.deserializeBytes32 b
  let (refBytes, b) ← p.deserializeOption p.deserializeVecU8 b
  let (ts, b) ← p.deserializeOption p.deserializeVarint b
  let (n, b) ← p.deserializeOption p.deserializeVarint b
  let (sig, b) ← p.deserializeOption p.deserializeVecU8 b
  let (creatorAddressBody, b) ← p.deserializeOption p.deserializeVecU8 b
  .ok ({ containingBlockHash, containingDaa, eventType, enc, sid, cid, did, pid, mid, refBytes,
         ts, n, sig, creatorAddressBody }, b)

def KommsEventRecordV1.serialize (r : KommsEventRecordV1) : Bytes :=
  p.serializeBytes32 r.containingBlockHash ++ p.serializeVarint r.containingDaa ++
    p.serializeU8 r.eventType ++ p.serializeBool r.enc ++
    p.serializeOption p.serializeBytes32 r.sid ++ p.serializeOption p.serializeBytes32 r.cid ++
    p.serializeOption p.serializeBytes32 r.did ++ p.serializeOption p.serializeBytes32 r.pid ++
    p.serializeOption p.serializeBytes32 r.mid ++ p.serializeOption p.serializeVecU8 r.refBytes ++
    p.serializeOption p.serializeVarint r.ts ++ p.serializeOption p.serializeVarint r.n ++
    p.serializeOption p.serializeVecU8 r.sig

def KommsEventRecordV1.deserialize : Reader UInt8 PostcardError KommsEventRecordV1 := fun b => do
  let (containingBlockHash, b) ← p.deserializeBytes32 b
  let (containingDaa, b) ← p.deserializeVarint b
  let (eventType, b) ← p.deserializeU8 b
  let (enc, b) ← p.deserializeBool b
  let (sid, b) ← p.deserializeOption p.deserializeBytes32 b
  let (cid, b) ← p.deserializeOption p.deserializeBytes32 b
  let (did, b) ← p.deserializeOption p.deserializeBytes32 b
  let (pid, b) ← p.deserializeOption p.deserializeBytes32 b
  let (mid, b) ← p.deserializeOption p.deserializeBytes32 b
  let (refBytes, b) ← p.deserializeOption p.deserializeVecU8 b
  let (ts, b) ← p.deserializeOption p.deserializeVarint b
  let (n, b) ← p.deserializeOption p.deserializeVarint b
  let (sig, b) ← p.deserializeOption p.deserializeVecU8 b
  .ok ({ containingBlockHash, containingDaa, eventType, enc, sid, cid, did, pid, mid, refBytes,
         ts, n, sig }, b)

def decodeRecord (b : Bytes) : Except PostcardError KommsEventRecord :=
  match fromBytes (KommsEventRecord.deserialize p) b with
  | .ok rec => .ok rec
  | .error _ => do
    let v1 ← fromBytes (KommsEventRecordV1.deserialize p) b
    .ok { v1 with creatorAddressBody := none }

/-- One entry of the partition, with the errors of the iteration and of the row. -/
def loadRow (hex : FasterHex) (item : Except String (Bytes × Bytes)) :
    Except String (Bytes32 × KommsEventRecord) := do
  let (key, value) ← item.mapError fun _ => "fjall iter"
  if h : key.length = 32 then
    let rec ← (decodeRecord p value).mapError fun _ =>
      "postcard decode tx " ++ hex.hexString key
    .ok (⟨key, h⟩, rec)
  else
    .error ("komms_events_by_txid key must be 32 bytes, got " ++ toString key.length)

def loadKommsEvents (hex : FasterHex) (items : List (Except String (Bytes × Bytes))) :
    Except String (List (Bytes32 × KommsEventRecord)) :=
  items.mapM (loadRow p hex)

end Source

/-- The newer layout is the older one with a further field. -/
theorem KommsEventRecord.deserialize_eq (p : Postcard) (b : Bytes) :
    KommsEventRecord.deserialize p b =
      (do
        let ((v1, creatorAddressBody), b) ← (KommsEventRecordV1.deserialize p).andThen
          (p.deserializeOption p.deserializeVecU8) b
        .ok ({ v1 with creatorAddressBody := creatorAddressBody }, b)) := by
  simp only [KommsEventRecord.deserialize, Reader.andThen, KommsEventRecordV1.deserialize,
    bind_assoc, Except.ok_bind]

theorem KommsEventRecord.serialize_eq (p : Postcard) (r : KommsEventRecord) :
    r.serialize p = KommsEventRecordV1.serialize p { r with } ++
      p.serializeOption p.serializeVecU8 r.creatorAddressBody := rfl

namespace Postcard.Documented

variable {p : Postcard} (h : p.Documented)

include h

theorem recordV1 :
    SelfDelimiting (KommsEventRecordV1.serialize p) (KommsEventRecordV1.deserialize p) := by
  intro r rest
  simp only [KommsEventRecordV1.serialize, KommsEventRecordV1.deserialize, List.append_assoc,
    h.bytes32 _ _, h.varint _ _, h.u8 _ _, h.bool _ _, h.option h.bytes32 _ _,
    h.option h.varint _ _, h.option h.vecU8 _ _, Except.ok_bind]

/-- The newer layout finds no last field at the end of an older row. -/
theorem recordV1_misread (r : KommsEventRecordV1) :
    fromBytes (KommsEventRecord.deserialize p) (r.serialize p) =
      .error .deserializeUnexpectedEnd := by
  have hmore := h.recordV1.andThen_error (h.ends p.deserializeVecU8) r
  rw [fromBytes, KommsEventRecord.deserialize_eq, hmore, Except.error_bind, Except.error_bind]

theorem record :
    SelfDelimiting (KommsEventRecord.serialize p) (KommsEventRecord.deserialize p) := by
  intro r rest
  have hboth := h.recordV1.andThen (h.option h.vecU8) ({ r with }, r.creatorAddressBody) rest
  rw [KommsEventRecord.deserialize_eq]
  dsimp only at hboth
  rw [← KommsEventRecord.serialize_eq] at hboth
  rw [hboth, Except.ok_bind]

theorem decodeRecord_record (r : KommsEventRecord) : decodeRecord p (r.serialize p) = .ok r := by
  rw [decodeRecord, fromBytes_write h.record]

theorem decodeRecord_recordV1 (r : KommsEventRecordV1) :
    decodeRecord p (r.serialize p) = .ok { r with creatorAddressBody := none } := by
  rw [decodeRecord, h.recordV1_misread]
  dsimp only
  rw [fromBytes_write h.recordV1, Except.ok_bind]

end Postcard.Documented

/-- Rows of both layouts are read back, and an older row is never taken for a newer one. -/
theorem decodeRecord_serialize {p : Postcard} (h : p.Documented) :
    (∀ r : KommsEventRecordV1,
      decodeRecord p (r.serialize p) =
        .ok {
          containingBlockHash := r.containingBlockHash
          containingDaa := r.containingDaa
          eventType := r.eventType
          enc := r.enc
          sid := r.sid
          cid := r.cid
          did := r.did
          pid := r.pid
          mid := r.mid
          refBytes := r.refBytes
          ts := r.ts
          n := r.n
          sig := r.sig
          creatorAddressBody := none } ∧
      ∀ rec, fromBytes (KommsEventRecord.deserialize p) (r.serialize p) ≠ .ok rec) ∧
    ∀ r : KommsEventRecord, decodeRecord p (r.serialize p) = .ok r := by
  refine ⟨fun r => ⟨h.decodeRecord_recordV1 r, fun rec hrec => ?_⟩, h.decodeRecord_record⟩
  rw [h.recordV1_misread] at hrec
  cases hrec

def sampleRowV1 : KommsEventRecordV1 where
  containingBlockHash := List.Vector.replicate 32 7
  containingDaa := 300
  eventType := 4
  enc := false
  sid := none
  cid := none
  did := none
  pid := none
  mid := none
  refBytes := some ⟨[1, 2], by decide⟩
  ts := none
  n := some 128
  sig := none

theorem sampleRowV1_decoded :
    sampleRowV1.serialize .reference =
      List.replicate 32 7 ++ [0xAC, 2, 4, 0, 0, 0, 0, 0, 0, 1, 2, 1, 2, 0, 1, 0x80, 1, 0] ∧
    decodeRecord .reference (sampleRowV1.serialize .reference) =
      .ok { sampleRowV1 with creatorAddressBody := none } :=
  ⟨by decide +kernel, ((decodeRecord_serialize reference_documented).1 sampleRowV1).1⟩

/-- What a row of the table was written from. -/
inductive StoredRecord where
  | v1 (r : KommsEventRecordV1)
  | current (r : KommsEventRecord)

def StoredRecord.serialize (p : Postcard) : StoredRecord → Bytes
  | .v1 r => r.serialize p
  | .current r => r.serialize p

def StoredRecord.upgraded : StoredRecord → KommsEventRecord
  | .v1 r => { r with creatorAddressBody := none }
  | .current r => r

theorem loadRow_stored {p : Postcard} (h : p.Documented) (hex : FasterHex) (txId : Bytes32)
    (r : StoredRecord) :
    loadRow p hex (.ok (txId.1, r.serialize p)) = .ok (txId, r.upgraded) := by
  have hrec : decodeRecord p (r.serialize p) = .ok r.upgraded := by
    cases r with
    | v1 r => exact h.decodeRecord_recordV1 r
    | current r => exact h.decodeRecord_record r
  simp only [loadRow, Except.mapError, Except.ok_bind, dif_pos txId.2, hrec]
  rfl

/-- A table that holds rows of both layouts is loaded whole and in order. -/
theorem loadKommsEvents_stored {p : Postcard} (h : p.Documented) (hex : FasterHex)
    (rows : List (Bytes32 × StoredRecord)) :
    loadKommsEvents p hex (rows.map fun row => .ok (row.1.1, row.2.serialize p)) =
      .ok (rows.map fun row => (row.1, row.2.upgraded)) := by
  induction rows with
  | nil => rfl
  | cons row rows ih =>
      rw [loadKommsEvents] at ih ⊢
      simp only [List.map_cons, List.mapM_cons, loadRow_stored h, Except.ok_bind, ih]
      rfl

end Komms
