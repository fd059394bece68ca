import Komms.Protocol.Forward
import Komms.Protocol.TypeRules

/-!
# The language of payloads

What the two entry points accept, and as what, in terms of the entries of the map in the
payload (`parse_iff`). The parser reads the entries by decoding a value, collecting fields and
popping them; here an event is what the entries represent (`Represents`), and whether they
represent one is decided by their keys and the shapes of their items (`EventShaped`). The rules
are the common ones (`GenericRules`) and those of the type (`TypeRules`).
-/

namespace Komms

open Cbor
open Canonical (validateCanonical validateCanonical_ok_iff Denotes)

/-- The event that the entries of a map stand for. -/
def Represents (es : List (Nat × Item)) (ev : ParsedKommsEvent) : Prop :=
  ∃ m scheme role, Decodes es m ∧ Carries m ev scheme role

/-- The keys are bytes, every text is UTF-8, every core key has an item of its type, and the
version, the type and `enc` are there. -/
structure EventShaped (es : List (Nat × Item)) : Prop where
  typed : ∀ e ∈ es, ∃ (k : UInt8) (v : Value), e.1 = k.toNat ∧ Value.ofItem e.2 = some v ∧
    CoreShape k v
  version : ∃ i, (0, i) ∈ es
  code : ∃ i, (1, i) ∈ es
  enc : ∃ i, (8, i) ∈ es

section Represents

variable {es : List (Nat × Item)} {ev ev' : ParsedKommsEvent} {m : Fields}

/-- A map whose keys are bytes and whose values decode has fields. -/
theorem exists_decodes (hcanonical : (Item.map es).Canonical)
    (h : ∀ e ∈ es, ∃ (k : UInt8) (v : Value), e.1 = k.toNat ∧ Value.ofItem e.2 = some v) :
    ∃ m, Decodes es m := by
  have hvalues : ∀ e ∈ es, ∃ e' : Value × Value,
      e'.1 = .uint (UInt64.ofNat e.1) ∧ Value.ofItem e.2 = some e'.2 := by
    intro e he
    obtain ⟨-, v, -, hv⟩ := h e he
    exact ⟨(_, v), rfl, hv⟩
  obtain ⟨entries, hentries⟩ := List.exists_forall₂ hvalues
  have hitem : Value.ofItem (.map es) = some (.map entries) := by
    rw [Value.ofItem, Option.map_eq_some_iff]
    exact ⟨entries, Value.entriesOfItem_eq_some_iff.mpr hentries, rfl⟩
  have hkeys : ∀ e ∈ entries, ∃ k, e.1 = bk k := by
    refine List.forall_right_of_mem ?_ hentries
    intro e he e' hee'
    obtain ⟨k, -, hk, -⟩ := h e he
    rw [hee'.1, hk, UInt64.ofNat_uInt8ToNat]
    exact ⟨k, rfl⟩
  obtain ⟨m, rfl⟩ := exists_fieldPairs (keysAscend_of_ofItem hcanonical hitem) hkeys
  exact ⟨m, (decodes_iff hcanonical).mpr hitem⟩

theorem Decodes.get?_ne_none_iff (h : Decodes es m) {k : UInt8} :
    m.get? k ≠ none ↔ ∃ i, (k.toNat, i) ∈ es := by
  rw [Ne, h.get?_eq_none_iff, not_forall_not]

/-- Entries represent an event exactly when they have the shape of one. -/
theorem exists_represents_iff (hcanonical : (Item.map es).Canonical) :
    (∃ ev, Represents es ev) ↔ EventShaped es := by
  constructor
  · rintro ⟨ev, m, scheme, role, hdec, hcarries⟩
    obtain ⟨htyped, hversion, hcode, henc⟩ := exists_carries_iff.mp ⟨ev, scheme, role, hcarries⟩
    refine ⟨fun e he => ?_, hdec.get?_ne_none_iff.mp hversion, hdec.get?_ne_none_iff.mp hcode,
      hdec.get?_ne_none_iff.mp henc⟩
    obtain ⟨⟨k, v⟩, hkv, hkey, hval⟩ := List.exists_right_of_mem hdec he
    exact ⟨k, v, hkey, hval, htyped k v (SortedMap.get?_eq_some_iff.mpr hkv)⟩
  · intro h
    obtain ⟨m, hdec⟩ := exists_decodes hcanonical fun e he => by
      obtain ⟨k, v, hkey, hval, -⟩ := h.typed e he
      exact ⟨k, v, hkey, hval⟩
    have htyped : ∀ k v, m.get? k = some v → CoreShape k v := by
      intro k v hget
      obtain ⟨i, hi, hval⟩ := hdec.get?_eq_some hget
      obtain ⟨k', v', hkey, hval', hshape⟩ := h.typed _ hi
      obtain rfl := UInt8.toNat_inj.mp hkey
      obtain rfl := Option.some.inj (hval.symm.trans hval')
      exact hshape
    obtain ⟨ev, scheme, role, hcarries⟩ := exists_carries_iff.mpr
      ⟨htyped, hdec.get?_ne_none_iff.mpr h.version, hdec.get?_ne_none_iff.mpr h.code,
        hdec.get?_ne_none_iff.mpr h.enc⟩
    exact ⟨ev, m, scheme, role, hdec, hcarries⟩

/-- The version of the event is the item under key 0. -/
theorem Represents.version_iff (h : Represents es ev) (hcanonical : (Item.map es).Canonical)
    (v : UInt64) : ev.v = v ↔ (0, .uint v.toNat) ∈ es := by
  obtain ⟨m, scheme, role, hdec, hcarries⟩ := h
  have huint := @Decodes.get?_eq_uint es m 0 v hdec hcanonical
  rw [hcarries.get?_v, Option.some.injEq, Value.uint_inj] at huint
  exact huint

end Represents

namespace ParsedKommsEvent

variable {ev : ParsedKommsEvent} {t : EventType}

theorem require_ne_reserved {cond : Bool} {field : String} :
    ev.require cond field ≠ .error (.opaqueEventType t) := by
  rw [require]
  split <;> simp

theorem forbid_ne_reserved {present : Bool} {field : String} :
    ev.forbid present field ≠ .error (.opaqueEventType t) := by
  rw [forbid]
  split <;> simp

theorem validateRoleByte_ne_reserved {role : Option UInt8} :
    validateRoleByte role ≠ .error (.opaqueEventType t) := by
  cases role with
  | none => simp [validateRoleByte]
  | some r => exact Except.failIf_ne_error (by simp)

theorem validateTargetBytes_ne_reserved {target : Option VecU8} :
    validateTargetBytes target ≠ .error (.opaqueEventType t) := by
  cases target with
  | none => simp [validateTargetBytes]
  | some b => exact Except.failIf_ne_error (by simp)

/-- No rule of a known type fails with the error of a reserved one. -/
theorem validateType_ne_reserved {group : Bool} (h : ∀ n, ev.t ≠ .reserved n) :
    ev.validateType group ≠ .error (.opaqueEventType t) := by
  simp only [validateType]
  split
  case h_26 n ht => exact absurd ht (h n)
  -- each arm is a sequence of checks, none of which has this error
  all_goals
    repeat' first
      | exact require_ne_reserved
      | exact forbid_ne_reserved
      | exact validateRoleByte_ne_reserved
      | exact validateTargetBytes_ne_reserved
      | exact Except.failIf_ne_error (by simp)
      | apply Except.check_bind_ne_error
      | split_ifs
      | simp only [ne_eq, reduceCtorEq, not_false_eq_true]

end ParsedKommsEvent

/-- The error of a reserved type is that of an event of such a type that keeps the common rules. -/
theorem validateEvent_eq_opaque_iff {ev : ParsedKommsEvent} :
    (∃ t, validateEvent ev = .error (.opaqueEventType t)) ↔
      GenericRules ev ∧ ∃ n, ev.t = .reserved n := by
  constructor
  · rintro ⟨t, h⟩
    have hreserved : ∃ n, ev.t = .reserved n := by
      by_contra hknown
      rcases Except.bind_eq_error.mp h with hgeneric | ⟨_, -, htype⟩
      · exact ParsedKommsEvent.validateGeneric_ne_reserved hgeneric
      · exact ParsedKommsEvent.validateType_ne_reserved (not_exists.mp hknown) htype
    obtain ⟨n, hn⟩ := hreserved
    exact ⟨(validateEvent_eq_reserved_iff hn).mp ⟨t, h⟩, n, hn⟩
  · rintro ⟨hrules, n, hn⟩
    exact (validateEvent_eq_reserved_iff hn).mpr hrules

section Entry

variable {c : Ciborium} {raw cbor : Bytes} {ev : ParsedKommsEvent}

/-- Both entry points get to the event that the map in the payload represents. -/
theorem parseEnvelope_iff (hc : c.Documented) : parseEnvelope c raw = .ok (cbor, ev) ↔
    raw = kommsPayloadPrefix ++ cbor ∧ ∃ es, PayloadMap raw es ∧ Represents es ev := by
  rw [parseEnvelope_eq_ok]
  constructor
  · rintro ⟨rfl, hcanonical, hparse⟩
    refine ⟨rfl, ?_⟩
    obtain ⟨i, hi⟩ := validateCanonical_ok_iff.mp hcanonical
    obtain ⟨entries, hread, hentries⟩ := parseCborMap_eq_ok.mp hparse
    obtain ⟨m, scheme, role, hcollect, hcarries⟩ := parseEntries_eq_ok.mp hentries
    have hitem := (fromReader_of_denotes hc hi).mp hread
    obtain ⟨es, rfl⟩ := exists_map_of_ofItem hitem
    obtain ⟨rfl, hi, hdepth⟩ := hi
    obtain rfl := (collectFields_eq_ok (keysAscend_of_ofItem hi hitem)).mp hcollect
    exact ⟨es, ⟨rfl, hi, hdepth⟩, m, scheme, role, (decodes_iff hi).mpr hitem, hcarries⟩
  · rintro ⟨rfl, es, ⟨hraw, hi, hdepth⟩, m, scheme, role, hdec, hcarries⟩
    obtain rfl := List.append_cancel_left hraw
    have hdenotes : Denotes (Item.map es).encode (.map es) := ⟨rfl, hi, hdepth⟩
    have hitem := (decodes_iff hi).mp hdec
    refine ⟨rfl, validateCanonical_ok_iff.mpr ⟨_, hdenotes⟩, parseCborMap_eq_ok.mpr
      ⟨fieldPairs m, (fromReader_of_denotes hc hdenotes).mpr hitem, ?_⟩⟩
    exact parseEntries_eq_ok.mpr ⟨m, scheme, role,
      (collectFields_eq_ok (keysAscend_of_ofItem hi hitem)).mpr rfl, hcarries⟩

theorem parse_eq_future_iff {v : UInt64} :
    parseKommsPayloadWithFuture c raw = .ok (.future v cbor) ↔
      ∃ ev, parseEnvelope c raw = .ok (cbor, ev) ∧ maxKnownVersion < v ∧ ev.v = v := by
  simp only [parseKommsPayloadWithFuture, Except.bind_eq_ok, Prod.exists]
  constructor
  · rintro ⟨cbor', ev, henvelope, h⟩
    split_ifs at h with hfuture
    · cases h
      exact ⟨ev, henvelope, hfuture, rfl⟩
    · split at h <;> cases h
  · rintro ⟨ev, henvelope, hfuture, rfl⟩
    exact ⟨cbor, ev, henvelope, if_pos hfuture⟩

theorem parse_eq_opaque_iff : parseKommsPayloadWithFuture c raw = .ok (.opaqueEvent ev cbor) ↔
    parseEnvelope c raw = .ok (cbor, ev) ∧ GenericRules ev ∧ ∃ n, ev.t = .reserved n := by
  simp only [parseKommsPayloadWithFuture, Except.bind_eq_ok, Prod.exists]
  constructor
  · rintro ⟨cbor', ev', henvelope, h⟩
    split_ifs at h
    · cases h
    · split at h
      case h_2 t hvalid =>
        cases h
        exact ⟨henvelope, validateEvent_eq_opaque_iff.mp ⟨t, hvalid⟩⟩
      all_goals cases h
  · rintro ⟨henvelope, hrules, hreserved⟩
    obtain ⟨t, hvalid⟩ := validateEvent_eq_opaque_iff.mpr ⟨hrules, hreserved⟩
    refine ⟨cbor, ev, henvelope, ?_⟩
    rw [if_neg (UInt64.not_lt.mpr hrules.version), hvalid]

theorem parse_eq_known_iff : parseKommsPayloadWithFuture c raw = .ok (.known ev) ↔
    ∃ cbor, parseEnvelope c raw = .ok (cbor, ev) ∧ validateEvent ev = .ok () := by
  simp only [parseKommsPayloadWithFuture, Except.bind_eq_ok, Prod.exists]
  constructor
  · rintro ⟨cbor, ev', henvelope, h⟩
    split_ifs at h
    · cases h
    · split at h
      case h_1 hvalid =>
        cases h
        exact ⟨cbor, henvelope, hvalid⟩
      all_goals cases h
  · rintro ⟨cbor, henvelope, hvalid⟩
    refine ⟨cbor, ev, henvelope, ?_⟩
    rw [if_neg (UInt64.not_lt.mpr (validateEvent_eq_ok.mp hvalid).1.version), hvalid]

theorem parse_eq_ok_iff : parseKommsPayload c raw = .ok ev ↔
    ∃ cbor, parseEnvelope c raw = .ok (cbor, ev) ∧ validateEvent ev = .ok () := by
  simp only [parseKommsPayload_eq_ok, parseEnvelope_eq_ok, and_assoc]

end Entry

/-- What the two entry points accept, and as what. The map in the payload must represent an
event, which it does exactly if it has the shape of one. If the event keeps the rules, it is
accepted by both; if it keeps the common rules and has a reserved type, it is kept with the
bytes of the map; and so is whatever has the shape of an event and a later version. -/
theorem parse_iff {c : Ciborium} (hc : c.Documented) (raw : Bytes) :
    (∀ ev, parseKommsPayload c raw = .ok ev ↔ ∃ es, PayloadMap raw es ∧ Represents es ev ∧
      GenericRules ev ∧ TypeRules ev) ∧
    (∀ ev, parseKommsPayloadWithFuture c raw = .ok (.known ev) ↔
      parseKommsPayload c raw = .ok ev) ∧
    (∀ ev cbor, parseKommsPayloadWithFuture c raw = .ok (.opaqueEvent ev cbor) ↔
      raw = kommsPayloadPrefix ++ cbor ∧ ∃ es, PayloadMap raw es ∧ Represents es ev ∧
        GenericRules ev ∧ ∃ n, ev.t = .reserved n) ∧
    (∀ v cbor, parseKommsPayloadWithFuture c raw = .ok (.future v cbor) ↔
      raw = kommsPayloadPrefix ++ cbor ∧ maxKnownVersion < v ∧ ∃ es, PayloadMap raw es ∧
        EventShaped es ∧ (0, .uint v.toNat) ∈ es) ∧
    ∀ es, PayloadMap raw es → ((∃ ev, Represents es ev) ↔ EventShaped es) := by
  refine ⟨fun ev => ?_, fun ev => parse_eq_known_iff.trans parse_eq_ok_iff.symm,
    fun ev cbor => ?_, fun v cbor => ?_, fun es hraw => exists_represents_iff hraw.2.1⟩
  · rw [parse_eq_ok_iff]
    simp only [parseEnvelope_iff hc, validateEvent_eq_ok, ParsedKommsEvent.validateType_eq_ok]
    constructor
    · rintro ⟨cbor, ⟨-, es, hraw, hev⟩, hrules, htype⟩
      exact ⟨es, hraw, hev, hrules, htype⟩
    · rintro ⟨es, hraw, hev, hrules, htype⟩
      exact ⟨_, ⟨hraw.1, es, hraw, hev⟩, hrules, htype⟩
  · rw [parse_eq_opaque_iff, parseEnvelope_iff hc]
    constructor
    · rintro ⟨⟨henvelope, es, hraw, hev⟩, hrules, hreserved⟩
      exact ⟨henvelope, es, hraw, hev, hrules, hreserved⟩
    · rintro ⟨henvelope, es, hraw, hev, hrules, hreserved⟩
      exact ⟨⟨henvelope, es, hraw, hev⟩, hrules, hreserved⟩
  · rw [parse_eq_future_iff]
    simp only [parseEnvelope_iff hc]
    constructor
    · rintro ⟨ev, ⟨henvelope, es, hraw, hev⟩, hfuture, hv⟩
      exact ⟨henvelope, hfuture, es, hraw, (exists_represents_iff hraw.2.1).mp ⟨ev, hev⟩,
        (hev.version_iff hraw.2.1 v).mp hv⟩
    · rintro ⟨henvelope, hfuture, es, hraw, hshaped, hv⟩
      obtain ⟨ev, hev⟩ := (exists_represents_iff hraw.2.1).mpr hshaped
      exact ⟨ev, ⟨henvelope, es, hraw, hev⟩, hfuture, (hev.version_iff hraw.2.1 v).mpr hv⟩

/-- A map of version 2 with nothing but what every version has. -/
def futureEntries : List (Nat × Item) := [(0, .uint 2), (1, .uint 0), (8, .bool false)]

theorem futureEntries_kept : parseKommsPayloadWithFuture .reference
    (kommsPayloadPrefix ++ (Item.map futureEntries).encode) =
      .ok (.future 2 (Item.map futureEntries).encode) := by
  have hraw : PayloadMap (kommsPayloadPrefix ++ (Item.map futureEntries).encode) futureEntries :=
    ⟨rfl, by decide +kernel, by decide +kernel⟩
  have hshaped : EventShaped futureEntries := by
    refine ⟨?_, ⟨_, List.mem_of_getElem? (i := 0) rfl⟩, ⟨_, List.mem_of_getElem? (i := 1) rfl⟩,
      ⟨_, List.mem_of_getElem? (i := 2) rfl⟩⟩
    simp only [futureEntries, List.forall_mem_cons]
    exact ⟨⟨0, .uint 2, rfl, rfl, 2, rfl⟩, ⟨1, .uint 0, rfl, rfl, 0, rfl, by decide⟩,
      ⟨8, .bool false, rfl, rfl, false, rfl⟩, List.forall_mem_nil _⟩
  obtain ⟨-, -, -, hfuture, -⟩ := parse_iff Ciborium.reference_documented
    (kommsPayloadPrefix ++ (Item.map futureEntries).encode)
  exact (hfuture 2 _).mpr ⟨rfl, by decide, futureEntries, hraw, hshaped,
    List.mem_of_getElem? (i := 0) rfl⟩

end Komms
