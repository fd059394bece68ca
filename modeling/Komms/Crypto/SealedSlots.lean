import Komms.Crypto.Aead
import Komms.Protocol.Sealed

/-!
# Sealed fields in payloads

Six fields of an event travel sealed, each under its own key of the map, and the key is part
of the context that the field is bound to. `slot_opens_iff` says what can be read from such a
field of a received payload: what someone sealed for this key, and nothing else. That a
decryption succeeds only on the output of an encryption is a property of the cipher
(`Aes256Gcm.Authentic`).
-/

namespace Komms

open Cbor

namespace Aead

/-- What decrypts to a message that may be encrypted is its encryption. -/
def Aes256Gcm.Authentic (gcm : Aes256Gcm) : Prop :=
  ∀ key nonce (ct aad msg : Bytes), gcm.decrypt key nonce ct aad = some msg →
    msg.length ≤ maxLen → aad.length ≤ maxLen → gcm.encrypt key nonce msg aad = some ct

theorem Aes256Gcm.reference_authentic : Aes256Gcm.reference.Authentic := by
  intro key nonce ct aad msg h hmsg haad
  obtain ⟨htag, htake⟩ := Option.ite_none_right_eq_some.mp h
  obtain rfl := Option.some.inj htake
  simp only [reference, hmsg, haad, and_self, if_true]
  rw [← htag, List.take_append_drop]

section Open

variable {gcm : Aes256Gcm} {key : Bytes32} {aad : AadContext} {plaintext : Bytes}
variable {f : SealedField}

/-- Splitting the ciphertext and the tag of a field gives the field. -/
theorem splitTag_combined : splitTag f.nonce f.combined = some f := by
  have hlength : aeadTagLen ≤ f.combined.length := by
    rw [SealedField.combined, List.length_append, f.aeadTag.2]
    omega
  obtain ⟨g, hg⟩ : ∃ g, splitTag f.nonce f.combined = some g := ⟨_, dif_pos hlength⟩
  obtain ⟨hnonce, hcombined⟩ := splitTag_eq_some hg
  have hwire : g.toWire = f.toWire := by
    rw [SealedField.toWire, SealedField.toWire, List.append_assoc, List.append_assoc, hnonce]
    exact congrArg _ hcombined
  rw [hg, toWire_injective hwire]

/-- A field opens to what it was sealed from, under the nonce that it carries. -/
theorem openField_eq_ok (hgcm : gcm.Documented) (hauth : gcm.Authentic)
    (hplain : plaintext.length ≤ Aes256Gcm.maxLen)
    (haad : aad.encode.length ≤ Aes256Gcm.maxLen) :
    openField gcm key aad f = .ok plaintext ↔
      ∃ nonce, sealField gcm key nonce aad plaintext = some f := by
  constructor
  · intro h
    have hdecrypt := Except.okOr_eq_ok.mp h
    have hencrypt := hauth _ _ _ _ _ hdecrypt hplain haad
    exact ⟨f.nonce, Option.bind_eq_some_iff.mpr ⟨_, hencrypt, splitTag_combined⟩⟩
  · rintro ⟨nonce, h⟩
    exact openField_of_sealField hgcm h

end Open

end Aead

open Aead

/-- The fields that travel sealed. -/
inductive SealedSlot where
  | memberSealed
  | encSid
  | encCid
  | encBodyRef
  | encParentMid
  | encT
  deriving DecidableEq

namespace SealedSlot

def cborKey : SealedSlot → UInt8
  | .memberSealed => 22
  | .encSid => 23
  | .encCid => 24
  | .encBodyRef => 25
  | .encParentMid => 26
  | .encT => 28

def get (slot : SealedSlot) (ev : ParsedKommsEvent) : Option VecU8 :=
  match slot with
  | .memberSealed => ev.memberSealed
  | .encSid => ev.encSid
  | .encCid => ev.encCid
  | .encBodyRef => ev.encBodyRef
  | .encParentMid => ev.encParentMid
  | .encT => ev.encT

/-- What a field of this slot is bound to. -/
def aad (slot : SealedSlot) (serverId : Bytes32) (keyEpoch : UInt64) (extra : Bytes) :
    AadContext := ⟨slot.cborKey, serverId, keyEpoch, extra⟩

variable {slot : SealedSlot} {es : List (Nat × Item)} {m : Fields} {ev : ParsedKommsEvent}
variable {scheme role : Option UInt64}

theorem mem_rows : (slot.cborKey, (slot.get ev).map .bytes) ∈ ev.toV11Fields.rows := by
  cases slot <;> simp [cborKey, get, V11Fields.rows]

/-- A slot holds a byte string exactly when its key does. -/
theorem get_eq_some_iff (hcanonical : (Item.map es).Canonical) (hdec : Decodes es m)
    (h : Carries m ev scheme role) (b : VecU8) :
    slot.get ev = some b ↔ (slot.cborKey.toNat, .bytes b.1) ∈ es := by
  have hbytes := @Decodes.get?_eq_bytes es m slot.cborKey hdec hcanonical b
  have hinj : Function.Injective Value.bytes := fun _ _ => Value.bytes.inj
  rw [(carried_rows_iff.mp h.rows).2.2.1 _ mem_rows, ← Option.map_some,
    (Option.map_injective hinj).eq_iff] at hbytes
  exact hbytes

end SealedSlot

/-- A message can be opened in a sealed field of an accepted payload exactly when the key of the
field holds what the message was sealed to, for this field, this server and this epoch. -/
theorem slot_opens_iff {c : Ciborium} (hc : c.Documented) {gcm : Aes256Gcm}
    (hgcm : gcm.Documented) (hauth : gcm.Authentic) {raw : Bytes} {ev : ParsedKommsEvent}
    {es : List (Nat × Item)} (h : parseKommsPayload c raw = .ok ev) (hraw : PayloadMap raw es)
    (slot : SealedSlot) (key serverId : Bytes32) (keyEpoch : UInt64) (extra plaintext : Bytes)
    (hplain : plaintext.length ≤ Aes256Gcm.maxLen)
    (haad : (slot.aad serverId keyEpoch extra).encode.length ≤ Aes256Gcm.maxLen) :
    (∃ b f, slot.get ev = some b ∧ SealedField.fromWire b.1 = .ok f ∧
      openField gcm key (slot.aad serverId keyEpoch extra) f = .ok plaintext) ↔
    ∃ nonce f, sealField gcm key nonce (slot.aad serverId keyEpoch extra) plaintext = some f ∧
      (slot.cborKey.toNat, .bytes f.toWire) ∈ es := by
  obtain ⟨es', m, scheme, role, hraw', hdec, hcarries, -⟩ := exists_of_parse hc h
  obtain rfl := hraw.unique hraw'
  have hslot (b : VecU8) := @SealedSlot.get_eq_some_iff slot es m ev scheme role hraw.2.1 hdec
    hcarries b
  constructor
  · rintro ⟨b, f, hget, hwire, hopen⟩
    obtain ⟨nonce, hseal⟩ := (openField_eq_ok hgcm hauth hplain haad).mp hopen
    refine ⟨nonce, f, hseal, ?_⟩
    rw [fromWire_eq_ok.mp hwire]
    exact (hslot b).mp hget
  · rintro ⟨nonce, f, hseal, hmem⟩
    obtain ⟨-, -, hes⟩ := Item.canonical_map.mp hraw.2.1
    have hlength := Item.canonical_bytes.mp (hes _ hmem).2
    exact ⟨⟨f.toWire, hlength⟩, f, (hslot _).mpr hmem, fromWire_eq_ok.mpr rfl,
      openField_of_sealField hgcm hseal⟩

/-- A key rotation whose sealed member is the sealing of one byte. -/
def sealedRotationEntries : List (Nat × Item) :=
  [(0, .uint 1), (1, .uint 25), (8, .bool true), (9, .uint 123), (10, .uint 1), (13, .uint 4),
    (22, .bytes (List.replicate 12 0x22 ++ [0x55] ++ List.replicate 16 0x11)),
    (27, .bytes (List.replicate 16 0x44)), (29, .uint 1)]

theorem sealedRotation_opened : ∃ ev,
    parseKommsPayload .reference (kommsPayloadPrefix ++ (Item.map sealedRotationEntries).encode) =
      .ok ev ∧
    ∃ b f, SealedSlot.memberSealed.get ev = some b ∧ SealedField.fromWire b.1 = .ok f ∧
      openField .reference (.replicate 32 0x11)
        (SealedSlot.memberSealed.aad (.replicate 32 0x01) 1 []) f = .ok [0x55] := by
  obtain ⟨ev, hparse, -⟩ := Except.exists_ok_of_any
    (x := parseKommsPayload .reference
      (kommsPayloadPrefix ++ (Item.map sealedRotationEntries).encode))
    (p := fun _ => true) (by decide +kernel)
  refine ⟨ev, hparse, (slot_opens_iff Ciborium.reference_documented
    Aes256Gcm.reference_documented Aes256Gcm.reference_authentic hparse
    ⟨rfl, by decide +kernel, by decide +kernel⟩ .memberSealed (.replicate 32 0x11)
    (.replicate 32 0x01) 1 [] [0x55] (by decide) (by decide +kernel)).mpr
      ⟨.replicate 12 0x22, ⟨.replicate 12 0x22, [0x55], .replicate 16 0x11⟩, ?_, ?_⟩⟩
  · decide +kernel
  · exact List.mem_of_getElem? (i := 6) rfl

end Komms
