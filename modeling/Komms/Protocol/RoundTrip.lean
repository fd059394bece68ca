import Komms.Protocol.Encode
import Komms.Protocol.Payload

/-!
# Round trips

What the parser returns for an encoded event, and what the encoder emits for a
parsed one. A v1 event comes back as it was. A v0 event is written without its
`enc_scheme`, so what is validated before and after are two different events:
`needsGroupEnvelope` says when the second one is refused.
-/

namespace Komms

open Cbor
open Canonical (validateCanonical maxNestingDepth)

variable {c : Ciborium} {ev : ParsedKommsEvent} {raw : Bytes}

theorem encodeKommsPayload_of_valid (h : validateEvent ev = .ok ()) :
    encodeKommsPayload c ev =
      .ok (kommsPayloadPrefix ++ c.intoWriter (.map (encodePairs ev))) :=
  encodeKommsPayload_eq_ok.mpr ⟨_, encodeCborMap_eq_ok.mpr ⟨h, rfl⟩, rfl⟩

/-- Parsing an encoded event gives the event as received, if that one is valid. -/
theorem parse_encodeKommsPayload (hc : c.Documented) (hext : ExtensionsInProfile ev)
    (h : encodeKommsPayload c ev = .ok raw) {ev' : ParsedKommsEvent} :
    parseKommsPayload c raw = .ok ev' ↔
      ev.received = ev' ∧ validateEvent ev.received = .ok () := by
  obtain ⟨b, hencode, rfl⟩ := encodeKommsPayload_eq_ok.mp h
  obtain ⟨hcanonical, hparse⟩ := parse_encode hc hext hencode
  rw [parseKommsPayload_eq_ok]
  constructor
  · intro h
    obtain ⟨b', hb, -, hparse', hvalid⟩ := h
    obtain rfl := List.append_cancel_left hb
    obtain rfl := Except.ok.inj (hparse.symm.trans hparse')
    exact ⟨rfl, hvalid⟩
  · intro h
    obtain ⟨rfl, hvalid⟩ := h
    exact ⟨b, rfl, hcanonical, hparse, hvalid⟩

/-- A valid v1 event comes back from the wire as it was. -/
theorem parse_encode_v1 (hc : c.Documented) (hv : ev.v = 1) (hvalid : validateEvent ev = .ok ())
    (hext : ExtensionsInProfile ev) :
    ∃ raw, encodeKommsPayload c ev = .ok raw ∧ parseKommsPayload c raw = .ok ev := by
  have hencode := @encodeKommsPayload_of_valid c ev hvalid
  have hreceived : ev.received = ev :=
    ParsedKommsEvent.received_of_ne (by rw [hv]; decide)
  refine ⟨_, hencode, (parse_encodeKommsPayload hc hext hencode).mpr ⟨hreceived, ?_⟩⟩
  rw [hreceived, hvalid]

/-- A v1 bookmark with an extension field. -/
def v1Bookmark : ParsedKommsEvent where
  v := 1
  t := .bookmarkAdd
  mid := some (List.Vector.replicate 32 0x22)
  encScheme := some 0
  ts := some 123
  n := some 1
  extensionFields := SortedMap.empty.insert 33 (.uint 7)

theorem v1Bookmark_extensions : ExtensionsInProfile v1Bookmark where
  keys := by decide
  values := by
    intro e he
    obtain rfl := List.mem_singleton.mp he
    exact (Value.profileWithin_uint 7).mono (Nat.zero_le _)

theorem parse_encode_v1Bookmark : ∃ raw, encodeKommsPayload .reference v1Bookmark = .ok raw ∧
    parseKommsPayload .reference raw = .ok v1Bookmark :=
  parse_encode_v1 Ciborium.reference_documented rfl (by decide +kernel) v1Bookmark_extensions

namespace ParsedKommsEvent

/-- The event is valid for its type only under a group envelope: it leaves out a
plaintext field for its encrypted counterpart, is encrypted although its type is not
otherwise, or has a type that requires the envelope. -/
def needsGroupEnvelope (ev : ParsedKommsEvent) : Bool :=
  match ev.t with
  | .serverCreate | .serverUpdate | .roleAssign | .roleRevoke | .moderationAction =>
    ev.sid.isNone || ev.enc
  | .channelCreate | .channelUpdate | .messageDelete | .reactionAdd | .reactionRemove
  | .pinMessage | .unpinMessage => ev.sid.isNone || ev.cid.isNone || ev.enc
  | .messagePost | .messageEdit =>
    ev.sid.isNone || ev.cid.isNone || ev.refBytes.isNone || ev.enc
  | .memberJoin | .memberLeave | .deviceRegister | .deviceRevoke | .bookmarkAdd
  | .bookmarkRemove => ev.enc
  | .sealedMemberJoin | .keyRotate | .sealedEvent => true
  | .dmMessagePost | .sealedMemberLeave | .reserved _ => false

/-- Without the envelope the rules of the type lose exactly these events. -/
theorem validateType_false_eq_ok (h : ev.validateType true = .ok ()) :
    ev.validateType false = .ok () ↔ ev.needsGroupEnvelope = false := by
  revert h
  simp only [validateType, needsGroupEnvelope]
  cases ev.t <;>
    simp only [Except.check_bind_eq_ok, require_eq_ok, forbid_eq_ok, Except.failIf_eq_ok,
      Bool.true_and, Bool.false_and, Bool.or_false, Bool.not_true, Bool.not_false, Bool.and_true,
      Bool.and_false, Bool.or_eq_false_iff, Option.isNone_eq_false_iff, Bool.not_eq_true,
      reduceCtorEq] <;>
    tauto

end ParsedKommsEvent

/-- The common rules hold of a v0 event as received: its scheme is no group envelope. -/
theorem genericRules_received (hv : ev.v = 0) (h : GenericRules ev) :
    GenericRules ev.received ∧ ev.received.groupEncrypted = false := by
  have hscheme : ev.received.encScheme ≠ some 4 := by
    have hne : ∀ enc : Bool, some (if enc then (1 : UInt64) else 0) ≠ some 4 := by decide
    rw [ParsedKommsEvent.received_of_eq hv]
    exact hne ev.enc
  have hposture : ¬ 1 ≤ ev.v := by
    rw [hv]
    decide
  refine ⟨⟨h.version, h.onChain, h.ref, h.refType, h.mime, h.reactionKey,
    fun hle => absurd hle hposture, h.replay, h.unsealed, fun h4 => absurd h4 hscheme⟩, ?_⟩
  exact decide_eq_false hscheme

/-- A valid v0 event is valid as received, unless it is valid only as a group envelope. -/
theorem valid_received_iff (hv : ev.v = 0) (hvalid : validateEvent ev = .ok ()) :
    validateEvent ev.received = .ok () ↔
      ¬ (ev.encScheme = some 4 ∧ ev.needsGroupEnvelope = true) := by
  obtain ⟨hrules, htype⟩ := validateEvent_eq_ok.mp hvalid
  obtain ⟨hrules', hgroup⟩ := genericRules_received hv hrules
  rw [validateEvent_eq_ok, and_iff_right hrules', hgroup]
  have hsame : ev.received.validateType false = ev.validateType false := rfl
  rw [hsame]
  by_cases h4 : ev.encScheme = some 4
  · have hgroup : ev.groupEncrypted = true := decide_eq_true h4
    rw [hgroup] at htype
    rw [ParsedKommsEvent.validateType_false_eq_ok htype, not_and, Bool.not_eq_true]
    exact ⟨fun h _ => h, fun h => h h4⟩
  · have hgroup : ev.groupEncrypted = false := decide_eq_false h4
    rw [hgroup] at htype
    exact ⟨fun _ h => h4 h.1, fun _ => htype⟩

/-- A valid v0 event comes back with the scheme that `enc` stands for, unless it is valid
only as a group envelope. -/
theorem parse_encode_v0_iff (hc : c.Documented) (hv : ev.v = 0)
    (hvalid : validateEvent ev = .ok ()) (hext : ExtensionsInProfile ev) :
    (∃ raw, encodeKommsPayload c ev = .ok raw ∧
      parseKommsPayload c raw = .ok { ev with encScheme := some (if ev.enc then 1 else 0) }) ↔
      ¬ (ev.encScheme = some 4 ∧ ev.needsGroupEnvelope = true) := by
  have hencode := @encodeKommsPayload_of_valid c ev hvalid
  rw [← valid_received_iff hv hvalid, ← ParsedKommsEvent.received_of_eq hv]
  constructor
  · intro h
    obtain ⟨raw, hraw, hparse⟩ := h
    exact ((parse_encodeKommsPayload hc hext hraw).mp hparse).2
  · intro h
    exact ⟨_, hencode, (parse_encodeKommsPayload hc hext hencode).mpr ⟨rfl, h⟩⟩

/-- A v0 event that is valid in memory as a sealed event of a group. -/
def v0Sealed : ParsedKommsEvent where
  v := 0
  t := .sealedEvent
  enc := true
  encScheme := some 4
  matchTag := some (List.Vector.replicate 16 0x11)
  encT := some ⟨[0x05], by decide⟩
  keyEpoch := some 1

/-- The encoder writes the sealed event without its scheme, and the parser refuses it. -/
theorem parse_encode_v0Sealed : Ciborium.reference.Documented ∧ v0Sealed.v = 0 ∧
    validateEvent v0Sealed = .ok () ∧ ExtensionsInProfile v0Sealed ∧
    ∃ raw, encodeKommsPayload .reference v0Sealed = .ok raw ∧
      parseKommsPayload .reference raw =
        .error (.validation (.missingForType .sealedEvent "enc_scheme=4")) := by
  refine ⟨Ciborium.reference_documented, rfl, by decide +kernel,
    ⟨List.forall_mem_nil _, List.forall_mem_nil _⟩, ?_⟩
  obtain ⟨raw, hencode, hparse⟩ := Except.exists_ok_of_decide
    (x := encodeKommsPayload .reference v0Sealed)
    (p := fun raw => (parseKommsPayload .reference raw).getError? =
      some (.validation (.missingForType .sealedEvent "enc_scheme=4"))) (by decide +kernel)
  exact ⟨raw, hencode, Except.getError?_eq_some.mp hparse⟩

/-- The bookmark as a v0 event comes back. -/
theorem parse_encode_v0Bookmark : ∃ raw,
    encodeKommsPayload .reference { v1Bookmark with v := 0 } = .ok raw ∧
      parseKommsPayload .reference raw =
        .ok { v1Bookmark with v := 0, encScheme := some (if v1Bookmark.enc then 1 else 0) } :=
  (@parse_encode_v0_iff .reference { v1Bookmark with v := 0 } Ciborium.reference_documented rfl
    (by decide +kernel) ⟨v1Bookmark_extensions.keys, v1Bookmark_extensions.values⟩).mpr
    (by decide)

namespace ParsedKommsEvent

/-- Which core keys the event is written with. -/
def corePresence (ev : ParsedKommsEvent) : List (UInt8 × Bool) :=
  [(0, true), (1, true), (2, ev.sid.isSome), (3, ev.cid.isSome), (4, ev.did.isSome),
    (5, ev.pid.isSome), (6, ev.mid.isSome), (7, ev.refBytes.isSome), (8, true),
    (9, ev.ts.isSome), (10, ev.n.isSome), (11, ev.sig.isSome), (12, ev.parentMid.isSome),
    (13, ev.v ≠ 0 && ev.encScheme.isSome), (14, ev.kind.isSome), (15, ev.mime.isSome),
    (16, ev.refType.isSome), (17, ev.devicePk.isSome), (18, ev.sigScheme.isSome),
    (19, ev.reactionKey.isSome), (20, ev.paymentHint.isSome), (21, ev.memberTag.isSome),
    (22, ev.memberSealed.isSome), (23, ev.encSid.isSome), (24, ev.encCid.isSome),
    (25, ev.encBodyRef.isSome), (26, ev.encParentMid.isSome), (27, ev.matchTag.isSome),
    (28, ev.encT.isSome), (29, ev.keyEpoch.isSome), (30, ev.sealedSigner.isSome),
    (31, ev.role.isSome), (32, ev.target.isSome)]

theorem corePresence_eq (ev : ParsedKommsEvent) : ev.corePresence =
    (ev.rows ev.wireEncScheme ev.wireRole).map fun row => (row.1, row.2.isSome) := by
  have hscheme : ev.wireEncScheme.isSome = (ev.v ≠ 0 && ev.encScheme.isSome) := by
    rw [wireEncScheme]
    split_ifs with hv <;> simp [hv]
  simp only [corePresence, rows, V0Fields.rows, V1Fields.rows, V11Fields.rows, RoleFields.rows,
    List.cons_append, List.nil_append, List.map_cons, List.map_nil, Option.isSome_map,
    Option.isSome_some, hscheme, wireRole]

end ParsedKommsEvent

/-- The extension entries come after every core key that is written, and their values are
in the profile below the root map. -/
structure ExtensionsAfterCore (ev : ParsedKommsEvent) : Prop where
  keys : ∀ k, (k, true) ∈ ev.corePresence → ∀ e ∈ ev.extensionFields.entries, k < e.1
  values : ∀ e ∈ ev.extensionFields.entries, e.2.ProfileWithin (maxNestingDepth - 1)

theorem mem_corePresence {k : UInt8} : (k, true) ∈ ev.corePresence ↔
    ∃ v, (k, v) ∈ present (ev.rows ev.wireEncScheme ev.wireRole) := by
  simp only [ParsedKommsEvent.corePresence_eq, List.mem_map, Prod.mk.injEq, Prod.exists,
    Option.isSome_iff_exists, mem_present]
  constructor
  · intro h
    obtain ⟨_, x, hrow, rfl, v, rfl⟩ := h
    exact ⟨v, hrow⟩
  · intro h
    obtain ⟨v, hrow⟩ := h
    exact ⟨k, _, hrow, rfl, v, rfl⟩

/-- What the encoder emits is canonical exactly when the extension entries come after the
core and have values of the profile. Lengths in memory fit in 64 bits. -/
theorem validateCanonical_encode_iff (hc : c.Documented) {b : Bytes}
    (hfits : ∀ e ∈ ev.extensionFields.entries, e.2.Fits) (h : encodeCborMap c ev = .ok b) :
    validateCanonical b = .ok () ↔ ExtensionsAfterCore ev := by
  obtain ⟨hvalid, rfl⟩ := encodeCborMap_eq_ok.mp h
  have hrules := (validateEvent_eq_ok.mp hvalid).1
  rw [validateCanonical_intoWriter hc (fits_encodePairs hrules hfits),
    profileWithin_encodePairs hrules]
  constructor
  · intro h
    refine ⟨fun k hk e he => ?_, h.2⟩
    obtain ⟨v, hmem⟩ := mem_corePresence.mp hk
    exact h.1 (k, v) hmem e he
  · intro h
    exact ⟨fun e he e' he' => h.keys e.1 (mem_corePresence.mpr ⟨e.2, he⟩) e' he', h.values⟩

/-- The extension field of the bookmark comes after its core keys. -/
theorem validateCanonical_v1Bookmark : ∃ b, encodeCborMap .reference v1Bookmark = .ok b ∧
    (validateCanonical b = .ok () ↔ ExtensionsAfterCore v1Bookmark) := by
  obtain ⟨b, hencode, -⟩ := Except.exists_ok_of_any
    (x := encodeCborMap .reference v1Bookmark) (p := fun _ => true) (by decide +kernel)
  have hfits : ∀ e ∈ v1Bookmark.extensionFields.entries, e.2.Fits :=
    fun e he => (v1Bookmark_extensions.values e he).profile.fits
  exact ⟨b, hencode, validateCanonical_encode_iff Ciborium.reference_documented hfits hencode⟩

/-- An extension field under key 7 is written after key 10. -/
theorem validateCanonical_extension_in_core : Ciborium.reference.Documented ∧
    ∃ b, encodeCborMap .reference
        { v1Bookmark with extensionFields := SortedMap.empty.insert 7 .null } = .ok b ∧
      validateCanonical b ≠ .ok () := by
  refine ⟨Ciborium.reference_documented, ?_⟩
  obtain ⟨b, hencode, hcanonical⟩ := Except.exists_ok_of_decide
    (x := encodeCborMap .reference
      { v1Bookmark with extensionFields := SortedMap.empty.insert 7 .null })
    (p := fun b => validateCanonical b ≠ .ok ()) (by decide +kernel)
  exact ⟨b, hencode, hcanonical⟩

/-- A payload that re-encoding reproduces: without `undefined`, with no key 13 in a v0
map, and with a role that is a byte. -/
structure Lossless (es : List (Nat × Item)) : Prop where
  noUndefined : (Item.map es).noUndefined = true
  scheme : (0, .uint 0) ∈ es → ∀ i, (13, i) ∉ es
  role : ∀ n, (31, .uint n) ∈ es → n ≤ 255

section Reencode

variable {m : Fields} {es : List (Nat × Item)} {scheme role : Option UInt64}

/-- The fields are those that go out exactly when nothing is dropped or clamped. -/
theorem encodePairs_eq_iff (h : Carries m ev scheme role) : encodePairs ev = fieldPairs m ↔
    scheme = ev.wireEncScheme ∧ role = ev.wireRole := by
  obtain ⟨hentries, hext⟩ := carried_iff_entries.mp ⟨h.rows, h.extensionFields⟩
  constructor
  · intro heq
    have hpair : Function.Injective fun e : UInt8 × Value => (bk e.1, e.2) := by
      intro e e' hee
      exact Prod.ext (bk_inj.mp (Prod.mk.inj hee).1) (Prod.mk.inj hee).2
    have hwire : m.entries = wireEntries ev ev.wireEncScheme ev.wireRole :=
      (List.map_injective_iff.mpr hpair heq).symm
    obtain ⟨hrows, -⟩ := carried_iff_entries.mpr ⟨hwire, hext⟩
    have hscheme := (carried_scheme h.rows).symm.trans (carried_scheme hrows)
    have hrole := (carried_role h.rows).symm.trans (carried_role hrows)
    have hinj : Function.Injective Value.uint := fun _ _ => Value.uint_inj.mp
    exact ⟨Option.map_injective hinj hscheme, Option.map_injective hinj hrole⟩
  · intro heq
    rw [encodePairs, fieldPairs, hentries, ← heq.1, ← heq.2]

/-- Only a v0 event loses the scheme of the wire. -/
theorem scheme_eq_wire_iff (h : Carries m ev scheme role) :
    scheme = ev.wireEncScheme ↔ (ev.v = 0 → scheme = none) := by
  by_cases hv : ev.v = 0
  · rw [ParsedKommsEvent.wireEncScheme, if_neg (not_not.mpr hv), forall_prop_of_true hv]
  · have hscheme : ev.wireEncScheme = scheme := by
      rw [ParsedKommsEvent.wireEncScheme, if_pos hv, h.encScheme, synthEncScheme,
        if_neg fun hand => hv hand.1]
    exact ⟨fun _ hzero => absurd hzero hv, fun _ => hscheme.symm⟩

theorem clampRole_eq_iff {n : UInt64} : n = (clampRole n).toUInt64 ↔ n ≤ 255 := by
  constructor
  · intro h
    rw [h]
    exact toUInt64_le _
  · intro h
    rw [clampRole, if_neg (UInt64.not_lt.mpr h), toUInt64_toUInt8 h]

/-- Only a role beyond a byte is clamped. -/
theorem role_eq_wire_iff (h : Carries m ev scheme role) :
    role = ev.wireRole ↔ ∀ n, role = some n → n ≤ 255 := by
  rw [ParsedKommsEvent.wireRole, h.role]
  cases role with
  | none => simp
  | some n =>
      rw [Option.map_some, Option.map_some, Option.some.injEq, clampRole_eq_iff]
      exact ⟨fun hle _ hn => Option.some.inj hn ▸ hle, fun hall => hall n rfl⟩

theorem encodePairs_eq_iff_lossless (hcanonical : (Item.map es).Canonical)
    (hdec : Decodes es m) (h : Carries m ev scheme role) : encodePairs ev = fieldPairs m ↔
      ((0, .uint 0) ∈ es → ∀ i, (13, i) ∉ es) ∧ ∀ n, (31, .uint n) ∈ es → n ≤ 255 := by
  rw [encodePairs_eq_iff h, scheme_eq_wire_iff h, role_eq_wire_iff h,
    v_eq_zero_iff hcanonical hdec h, scheme_eq_none_iff hdec h]
  refine and_congr_right fun _ => ⟨fun hall n hn => ?_, fun hall n hn => ?_⟩
  · obtain ⟨-, -, hes⟩ := Item.canonical_map.mp hcanonical
    have hlt := Item.canonical_uint.mp (hes _ hn).2
    rw [← UInt64.toNat_ofNat_of_lt' hlt] at hn ⊢
    exact UInt64.le_iff_toNat_le.mp (hall _ ((role_eq_some_iff hcanonical hdec h _).mpr hn))
  · exact UInt64.le_iff_toNat_le.mpr (hall _ ((role_eq_some_iff hcanonical hdec h n).mp hn))

/-- Re-encoding an accepted payload reproduces it exactly when the payload is lossless. -/
theorem encode_parse_iff (hc : c.Documented) (h : parseKommsPayload c raw = .ok ev) :
    encodeKommsPayload c ev = .ok raw ↔ ∃ es, PayloadMap raw es ∧ Lossless es := by
  obtain ⟨es, m, scheme, role, hraw, hdec, hcarries, hvalid⟩ := exists_of_parse hc h
  obtain ⟨henc, hcanonical, hdepth⟩ := id hraw
  have hext := extensionsInProfile_of_carries hcanonical hdepth hdec hcarries
  have hrules := (validateEvent_eq_ok.mp hvalid).1
  have hitem := (decodes_iff hcanonical).mp hdec
  have hencode := encodePairs_eq_iff_lossless hcanonical hdec hcarries
  have hbytes : encodeKommsPayload c ev = .ok raw ↔
      c.intoWriter (.map (encodePairs ev)) = (Item.map es).encode := by
    rw [encodeKommsPayload_of_valid hvalid, henc, Except.ok.injEq, List.append_cancel_left_eq]
  rw [hbytes]
  constructor
  · intro hwrite
    obtain ⟨float, hfloat, hwrites⟩ := hc.writes
    have hfits := fits_encodePairs hrules fun e he => (hext.values e he).profile.fits
    rw [hwrites _ hfits] at hwrite
    have htoItem := Value.toItem_of_encode hfloat hfits hcanonical hwrite
    have hpairs : encodePairs ev = fieldPairs m := by
      have hback := Value.ofItem_of_toItem htoItem
      rw [hitem] at hback
      exact (Value.map.inj (Option.some.inj hback)).symm
    obtain ⟨hscheme, hrole⟩ := hencode.mp hpairs
    exact ⟨es, hraw, Value.noUndefined_of_toItem htoItem, hscheme, hrole⟩
  · intro hlossless
    obtain ⟨es', hraw', hlossless⟩ := hlossless
    obtain rfl := hraw.unique hraw'
    rw [hencode.mpr ⟨hlossless.scheme, hlossless.role⟩]
    exact intoWriter_of_toItem hc
      (Value.toItem_of_ofItem hcanonical hlossless.noUndefined hitem) hcanonical

/-- A v0 payload with key 13 is accepted, and re-encoded without it. -/
theorem encode_parse_v0BookmarkScheme : Ciborium.reference.Documented ∧
    ∃ ev, parseKommsPayload .reference v0BookmarkScheme = .ok ev ∧
      encodeKommsPayload .reference ev ≠ .ok v0BookmarkScheme := by
  refine ⟨Ciborium.reference_documented, ?_⟩
  obtain ⟨ev, hparse, hencode⟩ := Except.exists_ok_of_decide
    (x := parseKommsPayload .reference v0BookmarkScheme)
    (p := fun ev => encodeKommsPayload .reference ev ≠ .ok v0BookmarkScheme) (by decide +kernel)
  exact ⟨ev, hparse, hencode⟩

theorem encode_parse_v0Bookmark : ∃ ev, parseKommsPayload .reference v0Bookmark = .ok ev ∧
    encodeKommsPayload .reference ev = .ok v0Bookmark := by
  obtain ⟨ev, hparse, -⟩ := Except.exists_ok_of_any
    (x := parseKommsPayload .reference v0Bookmark) (p := fun _ => true) (by decide +kernel)
  refine ⟨ev, hparse, (encode_parse_iff Ciborium.reference_documented hparse).mpr
    ⟨v0BookmarkEntries, v0Bookmark_payloadMap, by decide, ?_, ?_⟩⟩
  · simp [v0BookmarkEntries]
  · simp [v0BookmarkEntries]

end Reencode

end Komms
