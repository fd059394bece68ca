import Komms.Control.Except
import Komms.Protocol.Event

/-!
# Sealed fields

A field is sealed with AES-256-GCM under a key, a fresh nonce and the context it is bound
to, and travels as nonce, ciphertext and tag in one byte string without lengths. The cipher
is a parameter: `Aes256Gcm.Documented` says that decryption inverts encryption, that the
output is the message and a tag, and up to which lengths a message is encrypted. The nonce
that the source draws from the operating system is an argument.
-/

namespace Komms

open Cbor

namespace Aead

/-- `NONCE_LEN`. -/
def nonceLen : Nat := 12

/-- `AEAD_TAG_LEN`. -/
def aeadTagLen : Nat := 16

/-- `MIN_SEALED_LEN`: a nonce and a tag. -/
def minSealedLen : Nat := nonceLen + aeadTagLen

abbrev Nonce := List.Vector UInt8 nonceLen

abbrev Tag := List.Vector UInt8 aeadTagLen

structure SealedField where
  nonce : Nonce
  ciphertext : Bytes
  aeadTag : Tag
  deriving DecidableEq

inductive SealedFieldError where
  | tooShort (length : Nat)
  deriving DecidableEq

inductive AeadError where
  | tag
  | tooShort
  deriving DecidableEq

namespace SealedField

def toWire (f : SealedField) : Bytes := f.nonce.1 ++ f.ciphertext ++ f.aeadTag.1

/-- The last bytes of a string that is long enough. -/
def lastTag (bytes : Bytes) (h : aeadTagLen ≤ bytes.length) : Tag :=
  ⟨bytes.drop (bytes.length - aeadTagLen), by rw [List.length_drop]; omega⟩

def fromWire (bytes : Bytes) : Except SealedFieldError SealedField :=
  if h : bytes.length < minSealedLen then .error (.tooShort bytes.length)
  else
    have hlength : nonceLen + aeadTagLen ≤ bytes.length := Nat.not_lt.mp h
    let tagOffset := bytes.length - aeadTagLen
    .ok {
      nonce := ⟨bytes.take nonceLen, by rw [List.length_take]; omega⟩
      ciphertext := (bytes.take tagOffset).drop nonceLen
      aeadTag := lastTag bytes (by omega) }

def wireLen (f : SealedField) : Nat := nonceLen + f.ciphertext.length + aeadTagLen

/-- The ciphertext with its tag, as the cipher expects it. -/
def combined (f : SealedField) : Bytes := f.ciphertext ++ f.aeadTag.1

end SealedField

/-- What a field is bound to. -/
@[ext]
structure AadContext where
  cborKey : UInt8
  serverId : Bytes32
  keyEpoch : UInt64
  extra : Bytes
  deriving DecidableEq

def aadDomain : Bytes := utf8 "komms/v1.1/aead"

/-- The associated data. The length of `extra` saturates. -/
def AadContext.encode (aad : AadContext) : Bytes :=
  aadDomain ++ [0x01] ++ [aad.cborKey] ++ [0x20] ++ aad.serverId.1 ++ [0x08] ++
    beBytes 8 aad.keyEpoch.toNat ++ beBytes 4 (min aad.extra.length (2 ^ 32 - 1)) ++ aad.extra

/-- What the `aes-gcm` crate computes: an encryption may be refused, a decryption fails when
the tag does not match. -/
structure Aes256Gcm where
  encrypt : Bytes32 → Nonce → (msg aad : Bytes) → Option Bytes
  decrypt : Bytes32 → Nonce → (msg aad : Bytes) → Option Bytes

/-- The longest message and the longest associated data of the crate. -/
def Aes256Gcm.maxLen : Nat := 2 ^ 36

/-- What the documentation of the crate promises. -/
structure Aes256Gcm.Documented (gcm : Aes256Gcm) : Prop where
  inverts : ∀ key nonce msg aad ct, gcm.encrypt key nonce msg aad = some ct →
    gcm.decrypt key nonce ct aad = some msg
  length : ∀ key nonce msg aad ct, gcm.encrypt key nonce msg aad = some ct →
    ct.length = msg.length + aeadTagLen
  encrypts : ∀ key nonce (msg aad : Bytes), msg.length ≤ maxLen → aad.length ≤ maxLen →
    (gcm.encrypt key nonce msg aad).isSome

section Source

variable (gcm : Aes256Gcm)

/-- Split the output of the cipher; `none` where the source panics. -/
def splitTag (nonce : Nonce) (ct : Bytes) : Option SealedField :=
  if h : aeadTagLen ≤ ct.length then
    let tagOffset := ct.length - aeadTagLen
    some { nonce, ciphertext := ct.take tagOffset, aeadTag := SealedField.lastTag ct h }
  else none

/-- The source expects the cipher not to refuse; `none` where it panics. -/
def sealField (key : Bytes32) (nonce : Nonce) (aad : AadContext) (plaintext : Bytes) :
    Option SealedField := do
  let ct ← gcm.encrypt key nonce plaintext aad.encode
  splitTag nonce ct

def openField (key : Bytes32) (aad : AadContext) (f : SealedField) : Except AeadError Bytes :=
  .okOr (gcm.decrypt key f.nonce f.combined aad.encode) .tag

end Source

section Wire

open SealedField

theorem toWire_injective : Function.Injective toWire := by
  intro f g h
  obtain ⟨hfront, htag⟩ := List.append_inj' h (f.aeadTag.2.trans g.aeadTag.2.symm)
  obtain ⟨hnonce, hciphertext⟩ := List.append_inj hfront (f.nonce.2.trans g.nonce.2.symm)
  obtain ⟨nonce, ciphertext, aeadTag⟩ := f
  obtain rfl := Subtype.ext hnonce
  obtain rfl := Subtype.ext htag
  obtain rfl := hciphertext
  rfl

theorem length_toWire (f : SealedField) : f.toWire.length = f.wireLen := by
  simp only [toWire, wireLen, List.length_append, List.Vector.length_val]

theorem take_append_lastTag (bytes : Bytes) (h : aeadTagLen ≤ bytes.length) :
    bytes.take (bytes.length - aeadTagLen) ++ (lastTag bytes h).1 = bytes :=
  List.take_append_drop _ bytes

/-- The two cuts are at offsets from both ends, and they do not cross. -/
theorem exists_fromWire {bytes : Bytes} (h : minSealedLen ≤ bytes.length) :
    ∃ f, fromWire bytes = .ok f ∧ f.toWire = bytes := by
  have hlength : nonceLen + aeadTagLen ≤ bytes.length := h
  refine ⟨_, dif_neg (Nat.not_lt.mpr h), ?_⟩
  have hnonce : bytes.take nonceLen = (bytes.take (bytes.length - aeadTagLen)).take nonceLen := by
    rw [List.take_take, Nat.min_eq_left (by omega)]
  simp only [toWire]
  rw [hnonce, List.take_append_drop, take_append_lastTag]

/-- A byte string is read as the field that is written as it. -/
theorem fromWire_eq_ok {bytes : Bytes} {f : SealedField} :
    fromWire bytes = .ok f ↔ f.toWire = bytes := by
  constructor
  · intro h
    have hlength : minSealedLen ≤ bytes.length := by
      by_contra hshort
      rw [fromWire, dif_pos (Nat.not_le.mp hshort)] at h
      cases h
    obtain ⟨g, hg, hwire⟩ := exists_fromWire hlength
    obtain rfl := Except.ok.inj (hg.symm.trans h)
    exact hwire
  · rintro rfl
    have hlength : minSealedLen ≤ f.toWire.length := by
      rw [length_toWire, wireLen, minSealedLen]
      omega
    obtain ⟨g, hg, hwire⟩ := exists_fromWire hlength
    rw [hg, toWire_injective hwire]

theorem fromWire_isOk_iff {bytes : Bytes} :
    (∃ f, fromWire bytes = .ok f) ↔ minSealedLen ≤ bytes.length := by
  constructor
  · rintro ⟨f, hf⟩
    rw [← fromWire_eq_ok.mp hf, length_toWire, wireLen, minSealedLen]
    omega
  · intro h
    obtain ⟨f, hf, -⟩ := exists_fromWire h
    exact ⟨f, hf⟩

end Wire

section Cipher

variable {gcm : Aes256Gcm} {key : Bytes32} {nonce : Nonce} {aad : AadContext} {plaintext : Bytes}
variable {f : SealedField}

/-- The tag that is split off is joined again. -/
theorem splitTag_eq_some {ct : Bytes} :
    splitTag nonce ct = some f → f.nonce = nonce ∧ f.combined = ct := by
  intro h
  rw [splitTag] at h
  split_ifs at h with hlength
  obtain rfl := Option.some.inj h
  exact ⟨rfl, take_append_lastTag ct hlength⟩

theorem exists_sealField (hgcm : gcm.Documented) (hplain : plaintext.length ≤ Aes256Gcm.maxLen)
    (haad : aad.encode.length ≤ Aes256Gcm.maxLen) :
    ∃ f, sealField gcm key nonce aad plaintext = some f := by
  obtain ⟨ct, hct⟩ := Option.isSome_iff_exists.mp (hgcm.encrypts key nonce _ _ hplain haad)
  have hlength : aeadTagLen ≤ ct.length := by
    rw [hgcm.length _ _ _ _ _ hct]
    omega
  exact ⟨_, Option.bind_eq_some_iff.mpr ⟨ct, hct, dif_pos hlength⟩⟩

/-- What was sealed is opened. -/
theorem openField_of_sealField (hgcm : gcm.Documented)
    (h : sealField gcm key nonce aad plaintext = some f) :
    openField gcm key aad f = .ok plaintext := by
  obtain ⟨ct, hct, hsplit⟩ := Option.bind_eq_some_iff.mp h
  obtain ⟨hnonce, hcombined⟩ := splitTag_eq_some hsplit
  rw [openField, Except.okOr_eq_ok, hnonce, hcombined]
  exact hgcm.inverts _ _ _ _ _ hct

end Cipher

/-- Everything before `extra` has a fixed width, so that the saturated length is not needed
to find the end of `extra`. -/
theorem encode_injective : Function.Injective AadContext.encode := by
  intro a b h
  simp only [AadContext.encode, List.append_assoc, List.append_cancel_left_eq, List.cons_append,
    List.nil_append, List.cons.injEq, true_and] at h
  obtain ⟨hkey, h⟩ := h
  obtain ⟨hserver, h⟩ := List.append_inj h (a.serverId.2.trans b.serverId.2.symm)
  obtain ⟨hepoch, h⟩ := List.append_inj (List.cons.inj h).2 (by rw [length_beBytes, length_beBytes])
  obtain ⟨-, hextra⟩ := List.append_inj h (by rw [length_beBytes, length_beBytes])
  exact AadContext.ext hkey (Subtype.ext hserver) (beBytes_toNat_inj.mp hepoch) hextra

/-- The first half of the key, in the place of a tag. -/
def keyTag (key : Bytes32) : Tag := ⟨key.1.take aeadTagLen, by rw [List.length_take, key.2]; rfl⟩

/-- An executable instance, which does not hide the message. -/
def Aes256Gcm.reference : Aes256Gcm where
  encrypt key _ msg aad :=
    if msg.length ≤ maxLen ∧ aad.length ≤ maxLen then some (msg ++ (keyTag key).1) else none
  decrypt key _ msg _ :=
    let tagOffset := msg.length - aeadTagLen
    if msg.drop tagOffset = (keyTag key).1 then some (msg.take tagOffset) else none

theorem Aes256Gcm.reference_documented : Aes256Gcm.reference.Documented where
  inverts key nonce msg aad ct h := by
    obtain ⟨-, hct⟩ := Option.ite_none_right_eq_some.mp h
    obtain rfl := Option.some.inj hct
    have hoffset : (msg ++ (keyTag key).1).length - aeadTagLen = msg.length := by
      rw [List.length_append, (keyTag key).2, Nat.add_sub_cancel]
    simp only [reference, hoffset, List.drop_left, List.take_left, if_true]
  length key nonce msg aad ct h := by
    obtain ⟨-, hct⟩ := Option.ite_none_right_eq_some.mp h
    rw [← Option.some.inj hct, List.length_append, (keyTag key).2]
  encrypts key nonce msg aad hmsg haad := by
    simp only [reference, hmsg, haad, and_self, if_true, Option.isSome_some]

/-- The context of an `enc_sid` field. -/
def sampleAad : AadContext := ⟨23, .replicate 32 0x01, 7, []⟩

/-- Equal associated data means equal contexts, and so a field sealed for one context is
never opened for another with the associated data that it was sealed with. -/
theorem aad_separates :
    (∀ a b : AadContext, a.encode = b.encode →
      a.cborKey = b.cborKey ∧ a.serverId = b.serverId ∧ a.keyEpoch = b.keyEpoch ∧
        a.extra = b.extra) ∧
    ∀ (gcm : Aes256Gcm) (key : Bytes32) (nonce : Nonce) (plaintext : Bytes) (f : SealedField)
        (a b : AadContext), a ≠ b → a.encode ≠ b.encode ∧
      sealField gcm key nonce a plaintext =
        (gcm.encrypt key nonce plaintext a.encode).bind (splitTag nonce) ∧
      openField gcm key b f = .okOr (gcm.decrypt key f.nonce f.combined b.encode) .tag := by
  constructor
  · intro a b h
    obtain rfl := encode_injective h
    exact ⟨rfl, rfl, rfl, rfl⟩
  · intro gcm key nonce plaintext f a b hne
    exact ⟨encode_injective.ne hne, rfl, rfl⟩

/-- An `enc_sid` field is not opened as an `enc_cid` field. -/
theorem encSid_aad_ne_encCid : sampleAad.encode ≠ { sampleAad with cborKey := 24 }.encode :=
  (aad_separates.2 .reference (.replicate 32 0x11) (.replicate 12 0x22) []
    ⟨.replicate 12 0x22, [], .replicate 16 0x11⟩ sampleAad { sampleAad with cborKey := 24 }
    (by decide)).1

/-- A byte string is a sealed field exactly when it is long enough for one, writing and
reading are inverse, and what is sealed, sent, received and opened is what was sealed. -/
theorem sealed_roundTrip (gcm : Aes256Gcm) (hgcm : gcm.Documented) :
    (∀ bytes, (∃ f, SealedField.fromWire bytes = .ok f) ↔ minSealedLen ≤ bytes.length) ∧
    (∀ bytes f, SealedField.fromWire bytes = .ok f → f.toWire = bytes ∧
      f.wireLen = bytes.length) ∧
    (∀ f : SealedField, SealedField.fromWire f.toWire = .ok f) ∧
    ∀ (key : Bytes32) (nonce : Nonce) (aad : AadContext) (plaintext : Bytes),
      (plaintext.length ≤ Aes256Gcm.maxLen → aad.encode.length ≤ Aes256Gcm.maxLen →
        ∃ f, sealField gcm key nonce aad plaintext = some f) ∧
      ∀ f, sealField gcm key nonce aad plaintext = some f →
        ∃ received, SealedField.fromWire f.toWire = .ok received ∧
          openField gcm key aad received = .ok plaintext := by
  refine ⟨fun bytes => fromWire_isOk_iff, fun bytes f h => ?_, fun f => fromWire_eq_ok.mpr rfl, ?_⟩
  · obtain rfl := fromWire_eq_ok.mp h
    exact ⟨rfl, (length_toWire f).symm⟩
  · intro key nonce aad plaintext
    refine ⟨fun hplain haad => exists_sealField hgcm hplain haad, fun f h => ?_⟩
    exact ⟨f, fromWire_eq_ok.mpr rfl, openField_of_sealField hgcm h⟩

/-- A message with a context of its own is sealed, sent, received and opened. -/
theorem sampleMessage_roundTrip : ∃ f,
    sealField .reference (.replicate 32 0x11) (.replicate 12 0x22)
        { sampleAad with extra := [0xAA, 0xBB, 0xCC] } [0x68, 0x69] = some f ∧
    ∃ received, SealedField.fromWire f.toWire = .ok received ∧
      openField .reference (.replicate 32 0x11) { sampleAad with extra := [0xAA, 0xBB, 0xCC] }
        received = .ok [0x68, 0x69] := by
  obtain ⟨hseal, hopen⟩ := (sealed_roundTrip .reference Aes256Gcm.reference_documented).2.2.2
    (.replicate 32 0x11) (.replicate 12 0x22) { sampleAad with extra := [0xAA, 0xBB, 0xCC] }
    [0x68, 0x69]
  obtain ⟨f, hf⟩ := hseal (by decide) (by decide +kernel)
  exact ⟨f, hf, hopen f hf⟩

end Aead

end Komms
