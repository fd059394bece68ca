import Komms.Protocol.RoundTrip
import Komms.Protocol.Signing

/-!
# What a signature authenticates on the wire

The verifier rebuilds the signed bytes from the parsed event. For a payload that re-encoding
reproduces they are the bytes that arrived, without the entry of key 11
(`signingPayloadCbor_of_wire`), so that verification is a statement about the entries of the
payload (`verifyEvent_wire_iff`). What is signed and sent is verified by the receiver, if it is
accepted there (`signed_wire_iff`).
-/

namespace Komms

open Cbor
open ParsedKommsEvent (withSig)

inductive SignerPubkey where
  | inBand (pubkey : Bytes32)
  | outOfBand
  deriving DecidableEq

/-- The key that an event carries, if it carries one. -/
def signerPubkeyFromEvent (ev : ParsedKommsEvent) : SignerPubkey :=
  match ev.devicePk with
  | some devicePk => .inBand devicePk
  | none => .outOfBand

/-- The entries that are signed: all but key 11. -/
def unsignedEntries (es : List (Nat × Item)) : List (Nat × Item) := es.filter fun e => e.1 ≠ 11

section Entries

variable {es : List (Nat × Item)} {m : Fields} {ev : ParsedKommsEvent}
variable {scheme role : Option UInt64} {e : Nat × Item}

theorem mem_of_mem_unsignedEntries (h : e ∈ unsignedEntries es) : e ∈ es :=
  List.mem_of_mem_filter h

theorem canonical_unsignedEntries (h : (Item.map es).Canonical) :
    (Item.map (unsignedEntries es)).Canonical := by
  obtain ⟨hlength, hsorted, hes⟩ := Item.canonical_map.mp h
  exact Item.canonical_map.mpr ⟨(List.length_filter_le _ _).trans_lt hlength, hsorted.filter _,
    fun e he => hes e (mem_of_mem_unsignedEntries he)⟩

theorem Lossless.unsignedEntries (h : Lossless es) : Lossless (unsignedEntries es) where
  noUndefined := Item.noUndefined_map.mpr fun e he =>
    Item.noUndefined_map.mp h.noUndefined e (mem_of_mem_unsignedEntries he)
  scheme hzero i hi :=
    h.scheme (mem_of_mem_unsignedEntries hzero) i (mem_of_mem_unsignedEntries hi)
  role n hn := h.role n (mem_of_mem_unsignedEntries hn)

/-- The entries without key 11 decode to the fields without key 11. -/
theorem Decodes.unsignedEntries (h : Decodes es m) :
    Decodes (unsignedEntries es) (m.remove 11) := by
  refine List.rel_filter (fun i e hie => ?_) h
  have hkey : i.1 = 11 ↔ e.1 = 11 := by
    rw [hie.1, ← UInt8.toNat_inj]
    rfl
  simpa using not_congr hkey

theorem carried_remove {rows : List (UInt8 × Option Value)} {k : UInt8}
    (h : ∀ row ∈ rows, row.1 ∉ [k]) : Carried (m.remove k) rows ↔ Carried m rows :=
  @carried_removeAll m rows [k] h

/-- Without key 11 a map carries the event without its signature. -/
theorem Carries.withoutSig (h : Carries m ev scheme role) :
    Carries (m.remove 11) (ev.withSig none) scheme role where
  rows := by
    obtain ⟨hv0, hv1, hv11, hrole⟩ := carried_rows_iff.mp h.rows
    refine carried_rows_iff.mpr ⟨?_, (carried_remove ?_).mpr hv1, (carried_remove ?_).mpr hv11,
      (carried_remove ?_).mpr hrole⟩
    · simp only [Carried, V0Fields.rows, List.forall_mem_cons] at hv0
      simp only [Carried, V0Fields.rows, List.forall_mem_cons, SortedMap.get?_remove, withSig]
      simp only [hv0]
      simp
    · simp only [V1Fields.rows, List.forall_mem_cons]
      decide
    · simp only [V11Fields.rows, List.forall_mem_cons]
      decide
    · simp only [RoleFields.rows, List.forall_mem_cons]
      decide
  code := h.code
  encScheme := h.encScheme
  role := h.role
  extensionFields := by
    refine h.extensionFields.trans (SortedMap.ext_get? fun k => ?_)
    rw [SortedMap.get?_atLeast, SortedMap.get?_atLeast]
    split_ifs with hk
    · rw [SortedMap.get?_remove_of_ne]
      rintro rfl
      exact absurd hk (by decide)
    · rfl

/-- A field of fixed width has a value exactly when its key has these bytes. -/
theorem fixed_eq_some_iff (hcanonical : (Item.map es).Canonical) (hdec : Decodes es m) {n : Nat}
    (hn : n < 2 ^ 64) {k : UInt8} {x : Option (List.Vector UInt8 n)}
    (hx : m.get? k = x.map (Value.fixed hn)) (b : List.Vector UInt8 n) :
    x = some b ↔ (k.toNat, .bytes b.1) ∈ es := by
  have hbytes := @Decodes.get?_eq_bytes es m k hdec hcanonical ⟨b.1, b.2.trans_lt hn⟩
  have hinj : Function.Injective (Value.fixed hn) := fun b b' h =>
    Subtype.ext (Subtype.mk.inj (Value.bytes.inj h))
  rw [hx] at hbytes
  rw [← hbytes, ← (Option.map_injective hinj).eq_iff]
  rfl

theorem Carries.get?_sig (h : Carries m ev scheme role) :
    m.get? 11 = ev.sig.map .bytes64 :=
  (carried_rows_iff.mp h.rows).1 (11, ev.sig.map .bytes64) (by simp [V0Fields.rows])

theorem Carries.get?_devicePk (h : Carries m ev scheme role) :
    m.get? 17 = ev.devicePk.map .bytes32 :=
  (carried_rows_iff.mp h.rows).2.1 (17, ev.devicePk.map .bytes32) (by simp [V1Fields.rows])

end Entries

section Wire

variable {c : Ciborium} {e : Ed25519} {raw b : Bytes} {ev : ParsedKommsEvent}
variable {es : List (Nat × Item)}

/-- What is signed is what arrived without key 11, unless the type asks for the signature. -/
theorem signingPayloadCbor_of_wire (hc : c.Documented) (h : parseKommsPayload c raw = .ok ev)
    (hraw : PayloadMap raw es) (hlossless : Lossless es) :
    signingPayloadCbor c ev = .ok b ↔
      ev.requiresSig = false ∧ b = (Item.map (unsignedEntries es)).encode := by
  obtain ⟨es', m, scheme, role, hraw', hdec, hcarries, hvalid⟩ := exists_of_parse hc h
  obtain rfl := hraw.unique hraw'
  have hcanonical := canonical_unsignedEntries hraw.2.1
  have hkept := hlossless.unsignedEntries
  have hpairs : encodePairs (ev.withSig none) = fieldPairs (m.remove 11) :=
    (encodePairs_eq_iff_lossless hcanonical hdec.unsignedEntries hcarries.withoutSig).mpr
      ⟨hkept.scheme, hkept.role⟩
  have hitem := (decodes_iff hcanonical).mp hdec.unsignedEntries
  have hbytes : c.intoWriter (.map (encodePairs (ev.withSig none))) =
      (Item.map (unsignedEntries es)).encode := by
    rw [hpairs]
    exact intoWriter_of_toItem hc (Value.toItem_of_ofItem hcanonical hkept.noUndefined hitem)
      hcanonical
  rw [signingPayloadCbor_eq_ok, hbytes, eq_comm (a := b)]
  refine and_congr_left fun _ => ?_
  constructor
  · intro hunsigned
    by_contra hrequires
    have hsig := ParsedKommsEvent.requiresSig_of_validateType
      (validateEvent_eq_ok.mp hunsigned).2 (Bool.not_eq_false _ ▸ hrequires)
    simp at hsig
  · intro hrequires
    rw [validateEvent_withSig hrequires, hvalid]

theorem verifyEvent_eq_ok {pubkey : Bytes32} : verifyEvent c e ev pubkey = .ok () ↔
    ∃ sig b key, ev.sig = some sig ∧ signingPayloadCbor c ev = .ok b ∧
      e.fromBytes pubkey = some key ∧ e.verifyStrict key b sig = true := by
  rw [verifyEvent]
  cases hsig : ev.sig with
  | none => simp
  | some sig =>
      simp only [Except.bind_eq_ok, Except.mapError_eq_ok, Option.some.injEq]
      cases hkey : e.fromBytes pubkey with
      | none => simp
      | some key => simp

/-- The key of a received event is the one on the wire, and a received event verifies exactly
when its type does not ask for the signature, and the key accepts the signature on the wire for
the rest of what is on the wire. -/
theorem verifyEvent_wire_iff (hc : c.Documented) (e : Ed25519) (pubkey : Bytes32)
    (h : parseKommsPayload c raw = .ok ev) (hraw : PayloadMap raw es) (hlossless : Lossless es) :
    (signerPubkeyFromEvent ev = .inBand pubkey ↔ (17, .bytes pubkey.1) ∈ es) ∧
    (verifyEvent c e ev pubkey = .ok () ↔ ev.requiresSig = false ∧
      ∃ sig key, (11, .bytes sig.1) ∈ es ∧ e.fromBytes pubkey = some key ∧
        e.verifyStrict key (Item.map (unsignedEntries es)).encode sig = true) := by
  obtain ⟨es', m, scheme, role, hraw', hdec, hcarries, -⟩ := exists_of_parse hc h
  obtain rfl := hraw.unique hraw'
  have hpubkey : ev.devicePk = some pubkey ↔ (17, .bytes pubkey.1) ∈ es :=
    fixed_eq_some_iff hraw.2.1 hdec (by decide) hcarries.get?_devicePk pubkey
  have hsig (sig : Bytes64) : ev.sig = some sig ↔ (11, .bytes sig.1) ∈ es :=
    fixed_eq_some_iff hraw.2.1 hdec (by decide) hcarries.get?_sig sig
  have hsigned {b : Bytes} := @signingPayloadCbor_of_wire c raw b ev es hc h hraw hlossless
  constructor
  · rw [← hpubkey, signerPubkeyFromEvent]
    cases ev.devicePk with
    | none => simp
    | some devicePk => simp
  · simp only [verifyEvent_eq_ok, hsig, hsigned]
    constructor
    · rintro ⟨sig, b, key, hmem, ⟨hrequires, rfl⟩, hkey, hverify⟩
      exact ⟨hrequires, sig, key, hmem, hkey, hverify⟩
    · rintro ⟨hrequires, sig, key, hmem, hkey, hverify⟩
      exact ⟨sig, _, key, hmem, ⟨hrequires, rfl⟩, hkey, hverify⟩

/-- The v0 bookmark with the tag of its other entries under key 11. -/
def taggedBookmarkEntries : List (Nat × Item) :=
  v0BookmarkEntries ++
    [(11, .bytes (tag (List.Vector.replicate 32 0x44) (Item.map v0BookmarkEntries).encode).1)]

theorem taggedBookmark_verified : ∃ ev,
    parseKommsPayload .reference
      (kommsPayloadPrefix ++ (Item.map taggedBookmarkEntries).encode) = .ok ev ∧
    verifyEvent .reference .reference ev (List.Vector.replicate 32 0x44) = .ok () := by
  obtain ⟨ev, hparse, hrequires⟩ := Except.exists_ok_of_decide
    (x := parseKommsPayload .reference
      (kommsPayloadPrefix ++ (Item.map taggedBookmarkEntries).encode))
    (p := fun ev => ev.requiresSig = false) (by decide +kernel)
  have hlossless : Lossless taggedBookmarkEntries :=
    ⟨by decide, by simp [taggedBookmarkEntries, v0BookmarkEntries],
      by simp [taggedBookmarkEntries, v0BookmarkEntries]⟩
  refine ⟨ev, hparse, (verifyEvent_wire_iff Ciborium.reference_documented .reference _ hparse
    ⟨rfl, by decide +kernel, by decide +kernel⟩ hlossless).2.mpr
      ⟨hrequires, _, _, List.mem_append_right _ List.mem_cons_self, rfl, ?_⟩⟩
  decide +kernel

end Wire

section Send

variable {c : Ciborium} {e : Ed25519} {ev : ParsedKommsEvent} {b : Bytes}

/-- What is written for an event is what is written for it as received. -/
theorem encodePairs_received : encodePairs ev.received = encodePairs ev := by
  by_cases hv : ev.v = 0
  · have hscheme : ev.received.wireEncScheme = ev.wireEncScheme := by
      have hv' : ev.received.v = 0 := hv
      rw [ParsedKommsEvent.wireEncScheme, ParsedKommsEvent.wireEncScheme,
        if_neg (not_not.mpr hv), if_neg (not_not.mpr hv')]
    rw [encodePairs, hscheme]
    rfl
  · rw [ParsedKommsEvent.received_of_ne hv]

/-- A valid event is valid as received, unless it is a v0 event that needs a group envelope. -/
theorem valid_received (hvalid : validateEvent ev = .ok ()) :
    validateEvent ev.received = .ok () ↔
      (ev.v = 0 → ¬ (ev.encScheme = some 4 ∧ ev.needsGroupEnvelope = true)) := by
  by_cases hv : ev.v = 0
  · rw [valid_received_iff hv hvalid, forall_prop_of_true hv]
  · rw [ParsedKommsEvent.received_of_ne hv]
    exact iff_of_true hvalid fun h => absurd h hv

/-- The receiver signs the bytes that the sender signed. -/
theorem signingPayloadCbor_received (hb : signingPayloadCbor c ev = .ok b)
    (hrequires : ev.requiresSig = false) (hreceived : validateEvent ev.received = .ok ()) :
    signingPayloadCbor c ev.received = .ok b := by
  obtain ⟨-, hbytes⟩ := signingPayloadCbor_eq_ok.mp hb
  have hsame := @validateEvent_withSig ev.received hrequires none
  refine signingPayloadCbor_eq_ok.mpr ⟨hsame.trans hreceived, ?_⟩
  have hpairs := @encodePairs_received (ev.withSig none)
  rw [← hbytes, ← hpairs]
  rfl

/-- An event whose type does not ask for a signature can be signed, written to the wire, read
and verified, exactly when it is not a v0 event that needs a group envelope. -/
theorem signed_wire_iff (hc : c.Documented) (he : e.Documented) (sk : e.SigningKey)
    (hvalid : validateEvent ev = .ok ()) (hext : ExtensionsInProfile ev)
    (hrequires : ev.requiresSig = false) :
    (∃ b raw ev', signingPayloadCbor c ev = .ok b ∧
      encodeKommsPayload c (ev.withSig (some (e.sign sk b))) = .ok raw ∧
      parseKommsPayload c raw = .ok ev' ∧
      verifyEvent c e ev' (e.toBytes (e.verifyingKey sk)) = .ok ()) ↔
    (ev.v = 0 → ¬ (ev.encScheme = some 4 ∧ ev.needsGroupEnvelope = true)) := by
  rw [← valid_received hvalid]
  have hsigned (sig : Bytes64) : validateEvent (ev.withSig (some sig)) = .ok () := by
    rw [validateEvent_withSig hrequires, hvalid]
  have hsame := @validateEvent_withSig ev.received hrequires
  have hwire (sig : Bytes64) := @encodeKommsPayload_of_valid c _ (hsigned sig)
  have hparse (sig : Bytes64) := fun ev' => @parse_encodeKommsPayload c (ev.withSig (some sig))
    _ hc ⟨hext.keys, hext.values⟩ (hwire sig) ev'
  constructor
  · rintro ⟨b, raw, ev', -, hencode, hread, -⟩
    obtain rfl := Except.ok.inj ((hwire _).symm.trans hencode)
    exact (hsame _).symm.trans ((hparse _ ev').mp hread).2
  · intro hreceived
    have hb : signingPayloadCbor c ev = .ok _ := signingPayloadCbor_eq_ok.mpr
      ⟨(validateEvent_withSig hrequires none).trans hvalid, rfl⟩
    refine ⟨_, _, _, hb, hwire _, (hparse _ _).mpr ⟨rfl, (hsame _).trans hreceived⟩, ?_⟩
    exact verifyEvent_sign he (signingPayloadCbor_received hb hrequires hreceived) sk

/-- The bookmark with its extension field is signed, sent and verified. -/
theorem v1Bookmark_signed_wire : ∃ b raw ev', signingPayloadCbor .reference v1Bookmark = .ok b ∧
    encodeKommsPayload .reference (v1Bookmark.withSig
      (some (Ed25519.reference.sign (List.Vector.replicate 32 0x44) b))) = .ok raw ∧
    parseKommsPayload .reference raw = .ok ev' ∧
    verifyEvent .reference .reference ev' (List.Vector.replicate 32 0x44) = .ok () :=
  (@signed_wire_iff .reference .reference v1Bookmark Ciborium.reference_documented
    Ed25519.reference_documented (List.Vector.replicate 32 0x44) (by decide +kernel)
    v1Bookmark_extensions rfl).mpr fun h => absurd h (by decide)

end Send

end Komms
