import Komms.Protocol.Payload

/-!
# Signing and verification

The signature covers `signingPayloadCbor`, the encoded map without key 11, and
`verifyEvent` checks it there. Encoding validates the event again, now without its
signature, so an event whose type requires one cannot be signed
(`signed_verifies_iff`).

Ed25519 is a parameter: `Ed25519.Documented` says that the public bytes of a key
decode, and that a key accepts what it has signed.
-/

namespace Komms

open Cbor

/-- What the protocol calls of the `ed25519-dalek` crate. -/
structure Ed25519 where
  SigningKey : Type
  VerifyingKey : Type
  verifyingKey : SigningKey → VerifyingKey
  toBytes : VerifyingKey → Bytes32
  sign : SigningKey → Bytes → Bytes64
  fromBytes : Bytes32 → Option VerifyingKey
  verifyStrict : VerifyingKey → Bytes → Bytes64 → Bool

/-- What the documentation of the crate promises for a key pair. -/
structure Ed25519.Documented (e : Ed25519) : Prop where
  decodes : ∀ sk, e.fromBytes (e.toBytes (e.verifyingKey sk)) = some (e.verifyingKey sk)
  accepts : ∀ sk message, e.verifyStrict (e.verifyingKey sk) message (e.sign sk message) = true

/-- The tag of a message under a key: the key and the first bytes of the message. -/
def tag (key : Bytes32) (message : Bytes) : Bytes64 :=
  List.Vector.ofFn fun i => (key.1 ++ message).getD i 0

/-- An executable instance, whose signatures are tags. -/
def Ed25519.reference : Ed25519 where
  SigningKey := Bytes32
  VerifyingKey := Bytes32
  verifyingKey sk := sk
  toBytes key := key
  sign := tag
  fromBytes := some
  verifyStrict key message sig := sig.1 = (tag key message).1

theorem Ed25519.reference_documented : Ed25519.reference.Documented where
  decodes _ := rfl
  accepts _ _ := decide_eq_true rfl

inductive VerifyError where
  | signatureMissing
  | invalidPubkey
  | signatureInvalid
  | encode (e : ValidationError)
  deriving DecidableEq

/-- Verify `sig` against the signing payload under a verifying key. -/
def verifyEvent (c : Ciborium) (e : Ed25519) (ev : ParsedKommsEvent) (pubkey : Bytes32) :
    Except VerifyError Unit :=
  match ev.sig with
  | none => .error .signatureMissing
  | some sigBytes => do
    let signingBytes ← (signingPayloadCbor c ev).mapError .encode
    match e.fromBytes pubkey with
    | none => .error .invalidPubkey
    | some key => .failIf (¬ e.verifyStrict key signingBytes sigBytes) .signatureInvalid

namespace ParsedKommsEvent

variable {ev : ParsedKommsEvent}

/-- The event with another signature, or with none. -/
def withSig (ev : ParsedKommsEvent) (sig : Option Bytes64) : ParsedKommsEvent :=
  { ev with sig }

/-- The types whose rules ask for a signature. -/
def requiresSig (ev : ParsedKommsEvent) : Bool :=
  match ev.t with
  | .deviceRegister | .deviceRevoke | .sealedMemberLeave => true
  | _ => false

@[simp] theorem withSig_sig (sig : Option Bytes64) : (ev.withSig sig).sig = sig := rfl

theorem validateType_withSig (h : ev.requiresSig = false) (sig : Option Bytes64) (group : Bool) :
    (ev.withSig sig).validateType group = ev.validateType group := by
  obtain ⟨⟨v, t, sid, cid, did, pid, mid, refBytes, enc, ts, n, _⟩, v1, v11, fields, ext⟩ := ev
  cases t with
  | deviceRegister | deviceRevoke | sealedMemberLeave => cases h
  | _ => rfl

/-- The types that ask for a signature are refused without one. -/
theorem requiresSig_of_validateType {group : Bool} (h : ev.validateType group = .ok ())
    (hrequires : ev.requiresSig = true) : ev.sig.isSome = true := by
  revert h hrequires
  simp only [requiresSig, validateType]
  cases ev.t <;>
    simp only [Except.check_bind_eq_ok, require_eq_ok, forbid_eq_ok, reduceCtorEq, false_implies,
      implies_true] <;>
    tauto

end ParsedKommsEvent

open ParsedKommsEvent

section Sign

variable {c : Ciborium} {e : Ed25519} {ev : ParsedKommsEvent}

/-- Acceptance does not depend on the signature, unless the type asks for one. -/
theorem validateEvent_withSig (h : ev.requiresSig = false) (sig : Option Bytes64) :
    validateEvent (ev.withSig sig) = validateEvent ev := by
  have hgeneric : (ev.withSig sig).validateGeneric = ev.validateGeneric := rfl
  have hgroup : (ev.withSig sig).groupEncrypted = ev.groupEncrypted := rfl
  rw [validateEvent, validateEvent, hgeneric, hgroup, validateType_withSig h]

/-- The signing payload is that of the event without its signature. -/
theorem signingPayloadCbor_withSig (sig : Option Bytes64) :
    signingPayloadCbor c (ev.withSig sig) = signingPayloadCbor c ev := rfl

theorem signingPayloadCbor_eq_ok {b : Bytes} : signingPayloadCbor c ev = .ok b ↔
    validateEvent (ev.withSig none) = .ok () ∧
      c.intoWriter (.map (encodePairs (ev.withSig none))) = b := encodeCborMap_eq_ok

theorem verifyEvent_sign (he : e.Documented) {b : Bytes} (hb : signingPayloadCbor c ev = .ok b)
    (sk : e.SigningKey) : verifyEvent c e (ev.withSig (some (e.sign sk b)))
      (e.toBytes (e.verifyingKey sk)) = .ok () := by
  simp only [verifyEvent, withSig_sig, signingPayloadCbor_withSig, hb, he.decodes sk]
  exact Except.failIf_eq_ok.mpr (not_not.mpr (he.accepts sk b))

/-- An accepted event can be signed and verified exactly when the rules of its type do not
ask for the signature that signing takes away. -/
theorem signed_verifies_iff (he : e.Documented) (hvalid : validateEvent ev = .ok ()) :
    (∃ b, signingPayloadCbor c ev = .ok b ∧ ∀ sk,
      validateEvent (ev.withSig (some (e.sign sk b))) = .ok () ∧
      verifyEvent c e (ev.withSig (some (e.sign sk b))) (e.toBytes (e.verifyingKey sk)) =
        .ok ()) ↔ ev.requiresSig = false := by
  constructor
  · intro h
    obtain ⟨b, hb, -⟩ := h
    have hunsigned := (validateEvent_eq_ok.mp (signingPayloadCbor_eq_ok.mp hb).1).2
    by_contra hrequires
    have hsig := requiresSig_of_validateType hunsigned (Bool.not_eq_false _ ▸ hrequires)
    simp at hsig
  · intro hrequires
    have hb : signingPayloadCbor c ev = .ok _ := signingPayloadCbor_eq_ok.mpr
      ⟨(validateEvent_withSig hrequires none).trans hvalid, rfl⟩
    refine ⟨_, hb, fun sk => ⟨?_, verifyEvent_sign he hb sk⟩⟩
    rw [validateEvent_withSig hrequires, hvalid]

/-- A device revocation, signed. -/
def deviceRevocation : ParsedKommsEvent where
  v := 1
  t := .deviceRevoke
  sig := some (List.Vector.replicate 64 0x33)
  devicePk := some (List.Vector.replicate 32 0x22)
  encScheme := some 0
  ts := some 123
  n := some 1

/-- The revocation is accepted, and there is nothing to sign or verify it over. -/
theorem deviceRevocation_unverifiable : Ciborium.reference.Documented ∧
    Ed25519.reference.Documented ∧ validateEvent deviceRevocation = .ok () ∧
    deviceRevocation.sig.isSome = true ∧
    signingPayloadCbor .reference deviceRevocation =
      .error (.missingForType .deviceRevoke "sig") ∧
    verifyEvent .reference .reference deviceRevocation (List.Vector.replicate 32 0x22) =
      .error (.encode (.missingForType .deviceRevoke "sig")) :=
  ⟨Ciborium.reference_documented, Ed25519.reference_documented, by decide +kernel, rfl,
    by decide +kernel, by decide +kernel⟩

/-- A bookmark is signed and verified. -/
theorem signed_verifies_bookmark : ∃ b,
    signingPayloadCbor .reference { deviceRevocation with
      t := .bookmarkAdd, mid := some (List.Vector.replicate 32 0x22) } = .ok b ∧
    ∀ sk, validateEvent (ParsedKommsEvent.withSig { deviceRevocation with
        t := .bookmarkAdd, mid := some (List.Vector.replicate 32 0x22) }
        (some (Ed25519.reference.sign sk b))) = .ok () ∧
      verifyEvent .reference .reference (ParsedKommsEvent.withSig { deviceRevocation with
        t := .bookmarkAdd, mid := some (List.Vector.replicate 32 0x22) }
        (some (Ed25519.reference.sign sk b)))
        (Ed25519.reference.toBytes (Ed25519.reference.verifyingKey sk)) = .ok () :=
  (signed_verifies_iff Ed25519.reference_documented (by decide +kernel)).mpr rfl

end Sign

section Cover

variable {c : Ciborium} {ev₁ ev₂ : ParsedKommsEvent} {raw₁ raw₂ b : Bytes}

/-- Parsing the signing payload of an accepted event gives the event back without its
signature, as received. -/
theorem parse_signingPayload (hc : c.Documented) {ev : ParsedKommsEvent} {raw : Bytes}
    (h : parseKommsPayload c raw = .ok ev) (hb : signingPayloadCbor c ev = .ok b) :
    parseCborMap c b = .ok (ev.withSig none).received := by
  obtain ⟨es, m, scheme, role, ⟨-, hcanonical, hdepth⟩, hdec, hcarries, -⟩ := exists_of_parse hc h
  have hext := extensionsInProfile_of_carries hcanonical hdepth hdec hcarries
  exact (@parse_encode c (ev.withSig none) b hc ⟨hext.keys, hext.values⟩ hb).2

/-- Two accepted events with one signing payload agree on every field but `sig` exactly
when they agree on the scheme of a v0 event, which is not written. -/
theorem signing_covers_iff (hc : c.Documented) (h₁ : parseKommsPayload c raw₁ = .ok ev₁)
    (h₂ : parseKommsPayload c raw₂ = .ok ev₂) (hb₁ : signingPayloadCbor c ev₁ = .ok b)
    (hb₂ : signingPayloadCbor c ev₂ = .ok b) : ev₁.withSig none = ev₂.withSig none ↔
      (ev₁.v = 0 → ev₁.encScheme = ev₂.encScheme) := by
  have hreceived : (ev₁.withSig none).received = (ev₂.withSig none).received :=
    Except.ok.inj ((parse_signingPayload hc h₁ hb₁).symm.trans (parse_signingPayload hc h₂ hb₂))
  have hv := congrArg (fun ev : ParsedKommsEvent => ev.v) hreceived
  constructor
  · intro h _
    have hscheme := congrArg (fun ev : ParsedKommsEvent => ev.encScheme) h
    exact hscheme
  · intro hscheme
    by_cases hzero : ev₁.v = 0
    · -- the scheme is all that differs between an event and what is received
      have hrestore := congrArg
        (fun ev : ParsedKommsEvent => { ev with encScheme := ev₁.encScheme }) hreceived
      have hright : { ev₂ with sig := none, encScheme := ev₁.encScheme } = ev₂.withSig none := by
        rw [hscheme hzero]
        rfl
      exact hrestore.trans hright
    · rwa [@received_of_ne (ev₁.withSig none) hzero,
        @received_of_ne (ev₂.withSig none) (hv ▸ hzero)] at hreceived

theorem v0Bookmark_signingPayload : ∃ ev, parseKommsPayload .reference v0Bookmark = .ok ev ∧
    signingPayloadCbor .reference ev = .ok (v0Bookmark.drop 4) ∧ ev.encScheme = some 0 :=
  Except.exists_ok_of_decide (by decide +kernel)

/-- The signature of the v0 bookmark does not cover its key 13. -/
theorem signing_omits_v0_scheme : Ciborium.reference.Documented ∧ ∃ ev₁ ev₂ b,
    parseKommsPayload .reference v0Bookmark = .ok ev₁ ∧
    parseKommsPayload .reference v0BookmarkScheme = .ok ev₂ ∧
    signingPayloadCbor .reference ev₁ = .ok b ∧ signingPayloadCbor .reference ev₂ = .ok b ∧
    ev₁.encScheme ≠ ev₂.encScheme := by
  refine ⟨Ciborium.reference_documented, ?_⟩
  obtain ⟨ev₁, hparse₁, hsign₁, hscheme₁⟩ := v0Bookmark_signingPayload
  obtain ⟨ev₂, hparse₂, hsign₂, hscheme₂⟩ := Except.exists_ok_of_decide
    (x := parseKommsPayload .reference v0BookmarkScheme)
    (p := fun ev => signingPayloadCbor .reference ev = .ok (v0Bookmark.drop 4) ∧
      ev.encScheme = some 7) (by decide +kernel)
  refine ⟨ev₁, ev₂, _, hparse₁, hparse₂, hsign₁, hsign₂, ?_⟩
  rw [hscheme₁, hscheme₂]
  decide

/-- The v0 bookmark with a signature under key 11. -/
def v0BookmarkSigned : Bytes :=
  kommsPayloadPrefix ++ [0xA5, 0x00, 0x00, 0x01, 0x13, 0x06, 0x58, 0x20] ++
    List.replicate 32 0x22 ++ [0x08, 0xF4, 0x0B, 0x58, 0x40] ++ List.replicate 64 0x33

theorem signing_covers_bookmark : ∃ ev₁ ev₂,
    parseKommsPayload .reference v0Bookmark = .ok ev₁ ∧
    parseKommsPayload .reference v0BookmarkSigned = .ok ev₂ ∧
    ev₁.withSig none = ev₂.withSig none := by
  obtain ⟨ev₁, hparse₁, hsign₁, hscheme₁⟩ := v0Bookmark_signingPayload
  obtain ⟨ev₂, hparse₂, hsign₂, hscheme₂⟩ := Except.exists_ok_of_decide
    (x := parseKommsPayload .reference v0BookmarkSigned)
    (p := fun ev => signingPayloadCbor .reference ev = .ok (v0Bookmark.drop 4) ∧
      ev.encScheme = some 0) (by decide +kernel)
  refine ⟨ev₁, ev₂, hparse₁, hparse₂, (signing_covers_iff Ciborium.reference_documented hparse₁
    hparse₂ hsign₁ hsign₂).mpr fun _ => ?_⟩
  rw [hscheme₁, hscheme₂]

end Cover

end Komms
