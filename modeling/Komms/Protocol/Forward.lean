import Komms.Protocol.Payload

/-!
# Events from the future

What `parseKommsPayloadWithFuture` makes of a version or an event type that it does
not know. The version is looked at after every core field has been read with its v1
type, so a future payload is kept only if it has the shape of a v1 one (`V1Shaped`).
The arm of reserved types comes after the common checks, so a reserved event is kept
only if it passes them.
-/

namespace Komms

open Cbor
open Canonical (validateCanonical validateCanonical_ok_iff)

/-- The type that a v1 reader expects of the value at a key. -/
def CoreShape (k : UInt8) (v : Value) : Prop :=
  match k.toNat with
  | 0 | 9 | 10 | 13 | 14 | 16 | 18 | 29 | 31 => ∃ n, v = .uint n
  | 1 => ∃ n, v = .uint n ∧ n ≤ 255
  | 2 | 3 | 4 | 5 | 6 | 12 | 17 => ∃ b, v = .bytes32 b
  | 21 | 27 => ∃ b, v = .bytes16 b
  | 11 => ∃ b, v = .bytes64 b
  | 7 | 19 | 20 | 22 | 23 | 24 | 25 | 26 | 28 | 30 | 32 => ∃ b, v = .bytes b
  | 8 => ∃ b, v = .bool b
  | 15 => ∃ s, v = .text s
  | _ => True

/-- The entries of a map that a v1 reader gets through: the keys are bytes, `t` and `enc`
are there, and every core key has a value of its v1 type. -/
structure V1Shaped (entries : List (Value × Value)) : Prop where
  keys : ∀ e ∈ entries, ∃ k, e.1 = bk k
  typed : ∀ k v, (bk k, v) ∈ entries → CoreShape k v
  code : ∃ v, (bk 1, v) ∈ entries
  enc : ∃ v, (bk 8, v) ∈ entries

section Shape

variable {α : Type} {k : UInt8} {m : Fields} {ev : ParsedKommsEvent}
variable {scheme role : Option UInt64} {entries : List (Value × Value)}

/-- What a slot of the table holds has the type of its key. -/
def ShapedRow (row : UInt8 × Option Value) : Prop := ∀ v, row.2 = some v → CoreShape row.1 v

theorem shapedRow_map {write : α → Value} (h : ∀ a, CoreShape k (write a)) (x : Option α) :
    ShapedRow (k, x.map write) := by
  intro v hv
  obtain ⟨a, -, rfl⟩ := Option.map_eq_some_iff.mp hv
  exact h a

theorem shapedRow_some {v : Value} (h : CoreShape k v) : ShapedRow (k, some v) := by
  intro v' hv
  obtain rfl := Option.some.inj hv
  exact h

theorem shapedRow_of_mem_rows : ∀ row ∈ ev.rows scheme role, ShapedRow row := by
  simp only [ParsedKommsEvent.rows, V0Fields.rows, V1Fields.rows, V11Fields.rows,
    RoleFields.rows, List.cons_append, List.nil_append, List.forall_mem_cons]
  refine ⟨shapedRow_some ⟨_, rfl⟩, shapedRow_some ⟨_, rfl, toUInt64_le _⟩, ?_, ?_, ?_, ?_, ?_, ?_,
    shapedRow_some ⟨_, rfl⟩, ?_, ?_, ?_, ?_, ?_, ?_, ?_, ?_, ?_, ?_, ?_, ?_, ?_, ?_, ?_, ?_, ?_,
    ?_, ?_, ?_, ?_, ?_, ?_, ?_, List.forall_mem_nil _⟩
  all_goals
    apply shapedRow_map
    intro a
    exact ⟨a, rfl⟩

/-- Nothing is expected of an extension value. -/
theorem coreShape_ext (hk : extensionKeyMin ≤ k) (v : Value) : CoreShape k v := by
  have hle : 33 ≤ k.toNat := UInt8.le_iff_toNat_le.mp hk
  simp only [CoreShape]
  split <;> first | trivial | omega

/-- A slot that is empty or has a value of its type is that of a field. -/
theorem exists_slot {write : α → Value} (h : ∀ v, m.get? k = some v → ∃ a, v = write a) :
    ∃ x : Option α, m.get? k = x.map write := by
  cases hget : m.get? k with
  | none => exact ⟨none, rfl⟩
  | some v =>
      obtain ⟨a, rfl⟩ := h v hget
      exact ⟨some a, rfl⟩

theorem exists_v0Fields (h : ∀ k v, m.get? k = some v → CoreShape k v) (hv : m.get? 0 ≠ none)
    (hcode : m.get? 1 ≠ none) (henc : m.get? 8 ≠ none) :
    ∃ f : V0Fields, Carried m f.rows ∧ .fromU8 f.t.asU8 = f.t := by
  obtain ⟨_, hv⟩ := Option.ne_none_iff_exists'.mp hv
  obtain ⟨v, rfl⟩ := h 0 _ hv
  obtain ⟨_, hcode⟩ := Option.ne_none_iff_exists'.mp hcode
  obtain ⟨n, rfl, hle⟩ := h 1 _ hcode
  obtain ⟨_, henc⟩ := Option.ne_none_iff_exists'.mp henc
  obtain ⟨enc, rfl⟩ := h 8 _ henc
  obtain ⟨sid, hsid⟩ := exists_slot (h 2)
  obtain ⟨cid, hcid⟩ := exists_slot (h 3)
  obtain ⟨did, hdid⟩ := exists_slot (h 4)
  obtain ⟨pid, hpid⟩ := exists_slot (h 5)
  obtain ⟨mid, hmid⟩ := exists_slot (h 6)
  obtain ⟨refBytes, href⟩ := exists_slot (h 7)
  obtain ⟨ts, hts⟩ := exists_slot (h 9)
  obtain ⟨nonce, hnonce⟩ := exists_slot (h 10)
  obtain ⟨sig, hsig⟩ := exists_slot (h 11)
  have hcode : m.get? 1 = some (.uint (EventType.fromU8 n.toUInt8).asU8.toUInt64) := by
    rw [hcode, EventType.asU8_fromU8, toUInt64_toUInt8 hle]
  refine ⟨⟨v, .fromU8 n.toUInt8, sid, cid, did, pid, mid, refBytes, enc, ts, nonce, sig⟩, ?_, ?_⟩
  · simp only [Carried, V0Fields.rows, List.forall_mem_cons]
    exact ⟨hv, hcode, hsid, hcid, hdid, hpid, hmid, href, henc, hts, hnonce, hsig,
      List.forall_mem_nil _⟩
  · rw [EventType.asU8_fromU8]

theorem exists_v1Fields (h : ∀ k v, m.get? k = some v → CoreShape k v) :
    ∃ (f : V1Fields) (scheme : Option UInt64), Carried m (f.rows scheme) := by
  obtain ⟨parentMid, hparent⟩ := exists_slot (h 12)
  obtain ⟨scheme, hscheme⟩ := exists_slot (h 13)
  obtain ⟨kind, hkind⟩ := exists_slot (h 14)
  obtain ⟨mime, hmime⟩ := exists_slot (h 15)
  obtain ⟨refType, htype⟩ := exists_slot (h 16)
  obtain ⟨devicePk, hpk⟩ := exists_slot (h 17)
  obtain ⟨sigScheme, hsig⟩ := exists_slot (h 18)
  obtain ⟨reactionKey, hkey⟩ := exists_slot (h 19)
  obtain ⟨paymentHint, hhint⟩ := exists_slot (h 20)
  refine ⟨⟨parentMid, scheme, kind, mime, refType, devicePk, sigScheme, reactionKey, paymentHint⟩,
    scheme, ?_⟩
  simp only [Carried, V1Fields.rows, List.forall_mem_cons]
  exact ⟨hparent, hscheme, hkind, hmime, htype, hpk, hsig, hkey, hhint, List.forall_mem_nil _⟩

theorem exists_v11Fields (h : ∀ k v, m.get? k = some v → CoreShape k v) :
    ∃ f : V11Fields, Carried m f.rows := by
  obtain ⟨memberTag, htag⟩ := exists_slot (h 21)
  obtain ⟨memberSealed, hsealed⟩ := exists_slot (h 22)
  obtain ⟨encSid, hsid⟩ := exists_slot (h 23)
  obtain ⟨encCid, hcid⟩ := exists_slot (h 24)
  obtain ⟨encBodyRef, hbody⟩ := exists_slot (h 25)
  obtain ⟨encParentMid, hparent⟩ := exists_slot (h 26)
  obtain ⟨matchTag, hmatch⟩ := exists_slot (h 27)
  obtain ⟨encT, ht⟩ := exists_slot (h 28)
  obtain ⟨keyEpoch, hepoch⟩ := exists_slot (h 29)
  obtain ⟨sealedSigner, hsigner⟩ := exists_slot (h 30)
  refine ⟨⟨memberTag, memberSealed, encSid, encCid, encBodyRef, encParentMid, matchTag, encT,
    keyEpoch, sealedSigner⟩, ?_⟩
  simp only [Carried, V11Fields.rows, List.forall_mem_cons]
  exact ⟨htag, hsealed, hsid, hcid, hbody, hparent, hmatch, ht, hepoch, hsigner,
    List.forall_mem_nil _⟩

/-- A map carries an event exactly when it has `v`, `t` and `enc`, and every core key has a
value of its type. -/
theorem exists_carries_iff : (∃ ev scheme role, Carries m ev scheme role) ↔
    (∀ k v, m.get? k = some v → CoreShape k v) ∧
      m.get? 0 ≠ none ∧ m.get? 1 ≠ none ∧ m.get? 8 ≠ none := by
  constructor
  · intro h
    obtain ⟨ev, scheme, role, h⟩ := h
    have hrows := (carried_rows_iff.mp h.rows).1
    simp only [Carried, V0Fields.rows, List.forall_mem_cons] at hrows
    obtain ⟨hv, hcode, -, -, -, -, -, -, henc, -⟩ := hrows
    refine ⟨fun k v hget => ?_, ?_, ?_, ?_⟩
    · rcases lt_or_ge k extensionKeyMin with hk | hk
      · obtain ⟨x, hrow⟩ := @exists_mem_rows ev scheme role k hk
        exact shapedRow_of_mem_rows _ hrow v ((h.rows _ hrow).symm.trans hget)
      · exact coreShape_ext hk v
    · exact Option.ne_none_iff_exists'.mpr ⟨_, hv⟩
    · exact Option.ne_none_iff_exists'.mpr ⟨_, hcode⟩
    · exact Option.ne_none_iff_exists'.mpr ⟨_, henc⟩
  · intro h
    obtain ⟨htyped, hv, hcode, henc⟩ := h
    obtain ⟨v0, hv0, hcode⟩ := exists_v0Fields htyped hv hcode henc
    obtain ⟨v1, scheme, hv1⟩ := exists_v1Fields htyped
    obtain ⟨v11, hv11⟩ := exists_v11Fields htyped
    obtain ⟨role, hrole⟩ := exists_slot (htyped 31)
    obtain ⟨target, htarget⟩ := exists_slot (htyped 32)
    let ev : ParsedKommsEvent := { v0, v1, v11 with
      encScheme := synthEncScheme v0.v v0.enc scheme
      role := role.map clampRole
      target
      extensionFields := m.atLeast extensionKeyMin }
    have hfields : Carried m (ev.toRoleFields.rows role) := by
      simp only [Carried, RoleFields.rows, List.forall_mem_cons]
      exact ⟨hrole, htarget, List.forall_mem_nil _⟩
    exact ⟨ev, scheme, role, carried_rows_iff.mpr ⟨hv0, hv1, hv11, hfields⟩, hcode, rfl, rfl, rfl⟩

theorem exists_fieldPairs (hsorted : KeysAscend entries) (h : ∀ e ∈ entries, ∃ k, e.1 = bk k) :
    ∃ m, entries = fieldPairs m := by
  obtain ⟨m, hperm⟩ := exists_fieldPairs_perm h hsorted.nodup
  exact ⟨m, hsorted.eq_of_perm hperm⟩

/-- The entries of a canonical map that has a version parse exactly when they have the shape
of a v1 event. -/
theorem exists_parseEntries_iff (hsorted : KeysAscend entries) {v : Value}
    (hv : (bk 0, v) ∈ entries) : (∃ ev, parseEntries entries = .ok ev) ↔ V1Shaped entries := by
  constructor
  · intro h
    obtain ⟨ev, hparse⟩ := h
    obtain ⟨m, scheme, role, hcollect, hcarries⟩ := parseEntries_eq_ok.mp hparse
    obtain rfl := (collectFields_eq_ok hsorted).mp hcollect
    obtain ⟨htyped, -, hcode, henc⟩ := exists_carries_iff.mp ⟨ev, scheme, role, hcarries⟩
    obtain ⟨code, hcode⟩ := Option.ne_none_iff_exists'.mp hcode
    obtain ⟨enc, henc⟩ := Option.ne_none_iff_exists'.mp henc
    refine ⟨fun e he => ?_, fun k v hmem => htyped k v (mem_fieldPairs.mp hmem),
      ⟨code, mem_fieldPairs.mpr hcode⟩, ⟨enc, mem_fieldPairs.mpr henc⟩⟩
    obtain ⟨e', -, rfl⟩ := List.mem_map.mp he
    exact ⟨e'.1, rfl⟩
  · intro h
    obtain ⟨m, rfl⟩ := exists_fieldPairs hsorted h.keys
    obtain ⟨code, hcode⟩ := h.code
    obtain ⟨enc, henc⟩ := h.enc
    obtain ⟨ev, scheme, role, hcarries⟩ := exists_carries_iff.mpr
      ⟨fun k v hget => h.typed k v (mem_fieldPairs.mpr hget),
        Option.ne_none_iff_exists'.mpr ⟨v, mem_fieldPairs.mp hv⟩,
        Option.ne_none_iff_exists'.mpr ⟨code, mem_fieldPairs.mp hcode⟩,
        Option.ne_none_iff_exists'.mpr ⟨enc, mem_fieldPairs.mp henc⟩⟩
    exact ⟨ev, parseEntries_eq_ok.mpr
      ⟨m, scheme, role, (collectFields_eq_ok hsorted).mpr rfl, hcarries⟩⟩

/-- The version of a parsed event is the one under key 0. -/
theorem v_of_parseEntries (hsorted : KeysAscend entries) {v : UInt64}
    (hv : (bk 0, .uint v) ∈ entries) (h : parseEntries entries = .ok ev) : ev.v = v := by
  obtain ⟨m, scheme, role, hcollect, hcarries⟩ := parseEntries_eq_ok.mp h
  obtain rfl := (collectFields_eq_ok hsorted).mp hcollect
  have hget := hcarries.get?_v.symm.trans (mem_fieldPairs.mp hv)
  exact Value.uint_inj.mp (Option.some.inj hget)

end Shape

section Payload

variable {c : Ciborium} {b : Bytes} {ev : ParsedKommsEvent}

theorem parseEnvelope_of_parse (hb : validateCanonical b = .ok ())
    (hparse : parseCborMap c b = .ok ev) :
    parseEnvelope c (kommsPayloadPrefix ++ b) = .ok (b, ev) :=
  parseEnvelope_eq_ok.mpr ⟨rfl, hb, hparse⟩

theorem keysAscend_of_fromReader (hc : c.Documented) {entries : List (Value × Value)}
    (hb : validateCanonical b = .ok ()) (hread : c.fromReader b = .ok (.map entries)) :
    KeysAscend entries := by
  obtain ⟨i, hi⟩ := validateCanonical_ok_iff.mp hb
  have hitem := (fromReader_of_denotes hc hi).mp hread
  obtain ⟨es, rfl⟩ := exists_map_of_ofItem hitem
  exact keysAscend_of_ofItem hi.2.1 hitem

/-- A canonical map of a future version is reported as such exactly when its entries have
the shape of a v1 event. -/
theorem future_iff (hc : c.Documented) {entries : List (Value × Value)} {v : UInt64}
    (hb : validateCanonical b = .ok ()) (hread : c.fromReader b = .ok (.map entries))
    (hkey : (bk 0, .uint v) ∈ entries) (hv : v > maxKnownVersion) :
    (parseKommsPayloadWithFuture c (kommsPayloadPrefix ++ b) = .ok (.future v b) ∧
      parseKommsPayload c (kommsPayloadPrefix ++ b) = .error (.unsupportedVersion v)) ↔
      V1Shaped entries := by
  have hsorted := keysAscend_of_fromReader hc hb hread
  rw [← exists_parseEntries_iff hsorted hkey]
  constructor
  · intro h
    obtain ⟨⟨b', ev⟩, henvelope, -⟩ := Except.bind_eq_ok.mp h.1
    obtain ⟨hraw, -, hparse⟩ := parseEnvelope_eq_ok.mp henvelope
    obtain rfl := List.append_cancel_left hraw
    obtain ⟨entries', hread', hparse⟩ := parseCborMap_eq_ok.mp hparse
    obtain rfl := Value.map.inj (Except.ok.inj (hread.symm.trans hread'))
    exact ⟨ev, hparse⟩
  · intro h
    obtain ⟨ev, hparse⟩ := h
    obtain rfl := v_of_parseEntries hsorted hkey hparse
    have henvelope := parseEnvelope_of_parse hb (parseCborMap_eq_ok.mpr ⟨entries, hread, hparse⟩)
    constructor
    · simp only [parseKommsPayloadWithFuture, henvelope, Except.ok_bind, if_pos hv]
    · simp only [parseKommsPayload, henvelope, Except.ok_bind, Except.failIf_bind_of hv]

/-- A payload of version 2 in which the type is a text is dropped. -/
theorem future_retyped_dropped : Ciborium.reference.Documented ∧
    validateCanonical [0xA2, 0x00, 0x02, 0x01, 0x61, 0x78] = .ok () ∧
    parseKommsPayloadWithFuture .reference
      (kommsPayloadPrefix ++ [0xA2, 0x00, 0x02, 0x01, 0x61, 0x78]) =
        .error (.parse (.expectedUint "t")) :=
  ⟨Ciborium.reference_documented, by decide +kernel,
    Except.getError?_eq_some.mp (by decide +kernel)⟩

/-- A payload of version 2 with the shape of v1 is kept. -/
theorem future_kept : parseKommsPayloadWithFuture .reference
      (kommsPayloadPrefix ++ [0xA3, 0x00, 0x02, 0x01, 0x00, 0x08, 0xF4]) =
        .ok (.future 2 [0xA3, 0x00, 0x02, 0x01, 0x00, 0x08, 0xF4]) ∧
    parseKommsPayload .reference
      (kommsPayloadPrefix ++ [0xA3, 0x00, 0x02, 0x01, 0x00, 0x08, 0xF4]) =
        .error (.unsupportedVersion 2) := by
  have hread : Ciborium.reference.fromReader [0xA3, 0x00, 0x02, 0x01, 0x00, 0x08, 0xF4] =
      .ok (.map [(bk 0, .uint 2), (bk 1, .uint 0), (bk 8, .bool false)]) := rfl
  have htype : (bk 1, Value.uint 0) ∈
      [(bk 0, .uint 2), (bk 1, .uint 0), (bk 8, .bool false)] :=
    List.mem_cons_of_mem _ List.mem_cons_self
  have henc : (bk 8, Value.bool false) ∈
      [(bk 0, .uint 2), (bk 1, .uint 0), (bk 8, .bool false)] :=
    List.mem_cons_of_mem _ (List.mem_cons_of_mem _ List.mem_cons_self)
  refine (future_iff Ciborium.reference_documented (by decide +kernel) hread List.mem_cons_self
    (by decide)).mpr ⟨?_, ?_, ⟨_, htype⟩, ⟨_, henc⟩⟩
  · simp only [List.forall_mem_cons]
    exact ⟨⟨0, rfl⟩, ⟨1, rfl⟩, ⟨8, rfl⟩, List.forall_mem_nil _⟩
  · intro k v hmem
    simp only [List.mem_cons, Prod.mk.injEq, bk_inj, List.not_mem_nil, or_false] at hmem
    obtain ⟨rfl, rfl⟩ | ⟨rfl, rfl⟩ | ⟨rfl, rfl⟩ := hmem
    · exact ⟨2, rfl⟩
    · exact ⟨0, rfl, by decide⟩
    · exact ⟨false, rfl⟩

/-- A canonical map with an event of a reserved type is kept exactly when the event passes
the common checks. -/
theorem reserved_kept_iff {n : UInt8} (hb : validateCanonical b = .ok ())
    (hparse : parseCborMap c b = .ok ev) (hv : ev.v ≤ maxKnownVersion)
    (ht : ev.t = .reserved n) :
    parseKommsPayloadWithFuture c (kommsPayloadPrefix ++ b) = .ok (.opaqueEvent ev b) ↔
      GenericRules ev := by
  have henvelope := parseEnvelope_of_parse hb hparse
  have hknown : ¬ ev.v > maxKnownVersion := UInt64.not_lt.mpr hv
  rw [← validateEvent_eq_reserved_iff ht]
  simp only [parseKommsPayloadWithFuture, henvelope, Except.ok_bind, if_neg hknown]
  constructor
  · intro h
    split at h
    · cases h
    · rename_i t hvalid
      exact ⟨t, hvalid⟩
    · cases h
  · intro h
    obtain ⟨t, hvalid⟩ := h
    rw [hvalid]

/-- A v1 event of a reserved type without `enc_scheme` is dropped. -/
theorem reserved_dropped : validateCanonical [0xA3, 0x00, 0x01, 0x01, 0x18, 0xC8, 0x08, 0xF4] =
      .ok () ∧
    (∃ ev, parseCborMap .reference [0xA3, 0x00, 0x01, 0x01, 0x18, 0xC8, 0x08, 0xF4] = .ok ev ∧
      ev.v ≤ maxKnownVersion ∧ ev.t = .reserved 200) ∧
    parseKommsPayloadWithFuture .reference
      (kommsPayloadPrefix ++ [0xA3, 0x00, 0x01, 0x01, 0x18, 0xC8, 0x08, 0xF4]) =
        .error (.validation (.v1MissingField "enc_scheme")) := by
  refine ⟨by decide +kernel, ?_, Except.getError?_eq_some.mp (by decide +kernel)⟩
  obtain ⟨ev, hparse, h⟩ := Except.exists_ok_of_decide
    (x := parseCborMap .reference [0xA3, 0x00, 0x01, 0x01, 0x18, 0xC8, 0x08, 0xF4])
    (p := fun ev => ev.v ≤ maxKnownVersion ∧ ev.t = .reserved 200) (by decide +kernel)
  exact ⟨ev, hparse, h⟩

/-- A v0 event of a reserved type is kept. -/
theorem reserved_kept :
    ∃ ev, parseCborMap .reference [0xA3, 0x00, 0x00, 0x01, 0x18, 0xC8, 0x08, 0xF4] = .ok ev ∧
      parseKommsPayloadWithFuture .reference
        (kommsPayloadPrefix ++ [0xA3, 0x00, 0x00, 0x01, 0x18, 0xC8, 0x08, 0xF4]) =
          .ok (.opaqueEvent ev [0xA3, 0x00, 0x00, 0x01, 0x18, 0xC8, 0x08, 0xF4]) := by
  obtain ⟨ev, hparse, ⟨hv, ht⟩, hgeneric⟩ := Except.exists_ok_of_decide
    (x := parseCborMap .reference [0xA3, 0x00, 0x00, 0x01, 0x18, 0xC8, 0x08, 0xF4])
    (p := fun ev => (ev.v ≤ maxKnownVersion ∧ ev.t = .reserved 200) ∧
      ev.validateGeneric = .ok ()) (by decide +kernel)
  exact ⟨ev, hparse, (reserved_kept_iff (by decide +kernel) hparse hv ht).mpr
    (ParsedKommsEvent.validateGeneric_eq_ok.mp hgeneric)⟩

end Payload

end Komms
