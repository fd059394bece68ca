import Komms.Protocol.Profile

/-!
# Encoding

`encodeCborMap` validates the event, pushes its fields in the order of the key
table, appends the extension entries and writes the map. `encode_parse` says what
the parser makes of the result: the event, with the `enc_scheme` that a parser
gives it.
-/

namespace Komms

open Cbor
open Canonical (CanonicalError validateCanonical maxNestingDepth)

namespace ParsedKommsEvent

/-- The `enc_scheme` that goes out: v0 events never carry key 13. -/
def wireEncScheme (ev : ParsedKommsEvent) : Option UInt64 :=
  if ev.v ≠ 0 then ev.encScheme else none

def wireRole (ev : ParsedKommsEvent) : Option UInt64 := ev.role.map UInt8.toUInt64

end ParsedKommsEvent

/-- The fields that are pushed: those that are present. -/
def present (rows : List (UInt8 × Option Value)) : List (UInt8 × Value) :=
  rows.filterMap fun row => row.2.map (row.1, ·)

/-- The core fields in key order, then the extension entries. -/
def wireEntries (ev : ParsedKommsEvent) (scheme role : Option UInt64) : List (UInt8 × Value) :=
  present (ev.rows scheme role) ++ ev.extensionFields.entries

def encodePairs (ev : ParsedKommsEvent) : List (Value × Value) :=
  (wireEntries ev ev.wireEncScheme ev.wireRole).map fun e => (bk e.1, e.2)

/-- Encode the event map, without the `KOMM` prefix. -/
def encodeCborMap (c : Ciborium) (ev : ParsedKommsEvent) : Except ValidationError Bytes := do
  validateEvent ev
  match ev.refBytes with
  | none => .ok ()
  | some r => validateRef r.1
  .ok (c.intoWriter (.map (encodePairs ev)))

/-- The bytes covered by `sig`: the map without key 11. -/
def signingPayloadCbor (c : Ciborium) (ev : ParsedKommsEvent) : Except ValidationError Bytes :=
  encodeCborMap c { ev with sig := none }

def encodeKommsPayload (c : Ciborium) (ev : ParsedKommsEvent) : Except ValidationError Bytes := do
  let cbor ← encodeCborMap c ev
  .ok (kommsPayloadPrefix ++ cbor)

section Encode

variable {c : Ciborium} {ev : ParsedKommsEvent} {b : Bytes}

/-- The second check of `ref` never fails: validation has made it already. -/
theorem encodeCborMap_eq_ok : encodeCborMap c ev = .ok b ↔
    validateEvent ev = .ok () ∧ c.intoWriter (.map (encodePairs ev)) = b := by
  rw [encodeCborMap, Except.check_bind_eq_ok]
  refine and_congr_right fun hvalid => ?_
  have href := (validateEvent_eq_ok.mp hvalid).1.ref
  cases hr : ev.refBytes with
  | none => simp only [Except.ok_bind, Except.ok.injEq]
  | some r => simp only [validateRef_eq_ok.mpr (href r hr), Except.ok_bind, Except.ok.injEq]

theorem encodeKommsPayload_eq_ok {raw : Bytes} : encodeKommsPayload c ev = .ok raw ↔
    ∃ cbor, encodeCborMap c ev = .ok cbor ∧ kommsPayloadPrefix ++ cbor = raw := by
  simp only [encodeKommsPayload, Except.bind_eq_ok, Except.ok.injEq]

end Encode

section Rows

variable {ev : ParsedKommsEvent} {scheme role : Option UInt64} {k : UInt8} {v : Value}
variable {x : Option Value} {rows : List (UInt8 × Option Value)}

theorem mem_present : (k, v) ∈ present rows ↔ (k, some v) ∈ rows := by
  simp [present]

theorem present_sorted (h : (rows.map Prod.fst).Pairwise (· < ·)) :
    (present rows).Pairwise fun e e' => e.1 < e'.1 := by
  rw [present, List.pairwise_filterMap]
  refine (List.pairwise_map.mp h).imp ?_
  intro row row' hlt e he e' he'
  obtain ⟨v, -, rfl⟩ := Option.map_eq_some_iff.mp he
  obtain ⟨v', -, rfl⟩ := Option.map_eq_some_iff.mp he'
  exact hlt

theorem rows_sorted : ((ev.rows scheme role).map Prod.fst).Pairwise (· < ·) := by
  rw [rows_keys]
  decide

theorem lt_of_mem_rows (h : (k, x) ∈ ev.rows scheme role) : k < extensionKeyMin := by
  have hmem : k ∈ (List.range 33).map UInt8.ofNat := rows_keys ▸ List.mem_map_of_mem h
  have hall : ∀ k ∈ (List.range 33).map UInt8.ofNat, k < extensionKeyMin := by decide +kernel
  exact hall k hmem

theorem exists_mem_rows (h : k < extensionKeyMin) : ∃ x, (k, x) ∈ ev.rows scheme role := by
  have hmem : k ∈ (List.range 33).map UInt8.ofNat :=
    List.mem_map.mpr ⟨k.toNat, List.mem_range.mpr (UInt8.lt_iff_toNat_lt.mp h), UInt8.ofNat_toNat⟩
  rw [← @rows_keys ev scheme role] at hmem
  obtain ⟨⟨k, x⟩, hrow, rfl⟩ := List.mem_map.mp hmem
  exact ⟨x, hrow⟩

theorem mem_rows_unique {x' : Option Value} (h : (k, x) ∈ ev.rows scheme role)
    (h' : (k, x') ∈ ev.rows scheme role) : x = x' := by
  have hnodup : ((ev.rows scheme role).map Prod.fst).Nodup := rows_sorted.imp ne_of_lt
  exact (Prod.mk.inj (List.inj_on_of_nodup_map hnodup h h' rfl)).2

/-- At a core key the entries hold what the table has there. -/
theorem mem_wireEntries_core (hext : ∀ e ∈ ev.extensionFields.entries, extensionKeyMin ≤ e.1)
    (h : (k, x) ∈ ev.rows scheme role) : (k, v) ∈ wireEntries ev scheme role ↔ x = some v := by
  rw [wireEntries, List.mem_append, mem_present]
  constructor
  · intro hmem
    rcases hmem with hmem | hmem
    · exact mem_rows_unique h hmem
    · exact absurd (lt_of_mem_rows h) (not_lt.mpr (hext _ hmem))
  · intro hx
    exact .inl (hx ▸ h)

/-- From key 33 on the entries are the extension entries. -/
theorem mem_wireEntries_ext (h : extensionKeyMin ≤ k) :
    (k, v) ∈ wireEntries ev scheme role ↔ (k, v) ∈ ev.extensionFields.entries := by
  rw [wireEntries, List.mem_append, mem_present, or_iff_right]
  intro hmem
  exact absurd (lt_of_mem_rows hmem) (not_lt.mpr h)

theorem wireEntries_sorted_iff : (wireEntries ev scheme role).Pairwise (fun e e' => e.1 < e'.1) ↔
    ∀ e ∈ present (ev.rows scheme role), ∀ e' ∈ ev.extensionFields.entries, e.1 < e'.1 := by
  rw [wireEntries, List.pairwise_append]
  exact ⟨fun h => h.2.2, fun h => ⟨present_sorted rows_sorted, ev.extensionFields.sorted, h⟩⟩

theorem wireEntries_sorted (hext : ∀ e ∈ ev.extensionFields.entries, extensionKeyMin ≤ e.1) :
    (wireEntries ev scheme role).Pairwise fun e e' => e.1 < e'.1 := by
  refine wireEntries_sorted_iff.mpr fun e he e' he' => ?_
  exact lt_of_lt_of_le (lt_of_mem_rows (mem_present.mp he)) (hext e' he')

/-- A map holds the core fields and the extension fields of an event when its entries
are those that the event is written with. -/
theorem carried_iff_entries {m : Fields} :
    Carried m (ev.rows scheme role) ∧ ev.extensionFields = m.atLeast extensionKeyMin ↔
      m.entries = wireEntries ev scheme role ∧
        ∀ e ∈ ev.extensionFields.entries, extensionKeyMin ≤ e.1 := by
  constructor
  · intro h
    obtain ⟨hrows, hfields⟩ := h
    have hext : ∀ e ∈ ev.extensionFields.entries, extensionKeyMin ≤ e.1 := by
      intro e he
      rw [hfields] at he
      simpa using (List.mem_filter.mp he).2
    refine ⟨SortedMap.entries_eq_of_mem_iff m.sorted (wireEntries_sorted hext) ?_, hext⟩
    intro e
    obtain ⟨k, v⟩ := e
    rw [← SortedMap.get?_eq_some_iff]
    rcases lt_or_ge k extensionKeyMin with hk | hk
    · obtain ⟨x, hrow⟩ := exists_mem_rows hk
      rw [mem_wireEntries_core hext hrow, hrows _ hrow]
    · rw [mem_wireEntries_ext hk, hfields, ← SortedMap.get?_eq_some_iff, SortedMap.get?_atLeast,
        if_pos hk]
  · intro h
    obtain ⟨hentries, hext⟩ := h
    constructor
    · intro row hrow
      apply Option.ext
      intro v
      rw [SortedMap.get?_eq_some_iff, hentries, mem_wireEntries_core hext hrow]
    · apply SortedMap.ext_get?
      intro k
      apply Option.ext
      intro v
      rw [SortedMap.get?_atLeast]
      split_ifs with hk
      · rw [SortedMap.get?_eq_some_iff, SortedMap.get?_eq_some_iff, hentries,
          mem_wireEntries_ext hk]
      · refine iff_of_false (fun hmem => hk ?_) (by simp)
        exact hext _ (SortedMap.get?_eq_some_iff.mp hmem)

end Rows

section CoreValues

/-- What is in the slot of a core field is a value of the profile without levels below it. -/
def InProfile (x : Option Value) : Prop := ∀ v, x = some v → v.ProfileWithin 0

theorem inProfile_some {v : Value} (h : v.ProfileWithin 0) : InProfile (some v) := by
  intro v' hv
  obtain rfl := Option.some.inj hv
  exact h

theorem inProfile_map {α : Type} {write : α → Value} (h : ∀ a, (write a).ProfileWithin 0)
    (x : Option α) : InProfile (x.map write) := by
  intro v hv
  obtain ⟨a, -, rfl⟩ := Option.map_eq_some_iff.mp hv
  exact h a

theorem inProfile_uint (x : Option UInt64) : InProfile (x.map .uint) :=
  inProfile_map Value.profileWithin_uint x

theorem inProfile_bytes (x : Option VecU8) : InProfile (x.map .bytes) :=
  inProfile_map Value.profileWithin_bytes x

theorem inProfile_bytes16 (x : Option Bytes16) : InProfile (x.map .bytes16) :=
  inProfile_map (fun _ => Value.profileWithin_bytes _) x

theorem inProfile_bytes32 (x : Option Bytes32) : InProfile (x.map .bytes32) :=
  inProfile_map (fun _ => Value.profileWithin_bytes _) x

theorem inProfile_bytes64 (x : Option Bytes64) : InProfile (x.map .bytes64) :=
  inProfile_map (fun _ => Value.profileWithin_bytes _) x

/-- `mime` is the one text field; validation bounds its length. -/
theorem inProfile_mime {ev : ParsedKommsEvent} (h : GenericRules ev) :
    InProfile (ev.mime.map .text) := by
  intro v hv
  obtain ⟨m, hm, rfl⟩ := Option.map_eq_some_iff.mp hv
  have hlength := (h.mime m hm).2.1
  exact Value.profileWithin_text (by omega)

theorem inProfile_of_mem_rows {ev : ParsedKommsEvent} (h : GenericRules ev)
    {scheme role : Option UInt64} : ∀ row ∈ ev.rows scheme role, InProfile row.2 := by
  simp only [ParsedKommsEvent.rows, V0Fields.rows, V1Fields.rows, V11Fields.rows,
    RoleFields.rows, List.cons_append, List.nil_append, List.forall_mem_cons, inProfile_uint,
    inProfile_bytes, inProfile_bytes16, inProfile_bytes32, inProfile_bytes64, inProfile_mime h,
    inProfile_some (Value.profileWithin_uint _), inProfile_some (Value.profileWithin_bool _),
    true_and]
  exact List.forall_mem_nil _

end CoreValues

/-- The extension entries of an event that a parser can return: their keys are those
of the extension range, and their values are in the profile below the root map. -/
structure ExtensionsInProfile (ev : ParsedKommsEvent) : Prop where
  keys : ∀ e ∈ ev.extensionFields.entries, extensionKeyMin ≤ e.1
  values : ∀ e ∈ ev.extensionFields.entries, e.2.ProfileWithin (maxNestingDepth - 1)

section Wire

variable {ev : ParsedKommsEvent}

theorem profileWithin_of_mem_present (h : GenericRules ev) {scheme role : Option UInt64}
    {e : UInt8 × Value} (he : e ∈ present (ev.rows scheme role)) : e.2.ProfileWithin 0 :=
  inProfile_of_mem_rows h _ (mem_present.mp he) _ rfl

/-- The map that goes out is in the profile when the extension entries come after the
core ones and have values of the profile. -/
theorem profileWithin_encodePairs (h : GenericRules ev) :
    (Value.map (encodePairs ev)).ProfileWithin maxNestingDepth ↔
      (∀ e ∈ present (ev.rows ev.wireEncScheme ev.wireRole), ∀ e' ∈ ev.extensionFields.entries,
        e.1 < e'.1) ∧
      ∀ e ∈ ev.extensionFields.entries, e.2.ProfileWithin (maxNestingDepth - 1) := by
  rw [encodePairs, maxNestingDepth, Value.profileWithin_map, wireEntries_sorted_iff, wireEntries,
    List.forall_mem_append]
  refine and_congr_right fun _ => and_iff_right ?_
  intro e he
  exact (profileWithin_of_mem_present h he).mono (Nat.zero_le _)

theorem fits_encodePairs (h : GenericRules ev)
    (hfits : ∀ e ∈ ev.extensionFields.entries, e.2.Fits) : (Value.map (encodePairs ev)).Fits := by
  have hcore : (present (ev.rows ev.wireEncScheme ev.wireRole)).length ≤ 33 :=
    List.length_filterMap_le _ _
  have hext := Value.length_le_of_keys_ascend ev.extensionFields.sorted
  refine Value.fits_map.mpr ⟨?_, ?_⟩
  · rw [encodePairs, List.length_map, wireEntries, List.length_append]
    omega
  · intro e he
    obtain ⟨e, hmem, rfl⟩ := List.mem_map.mp he
    refine ⟨rfl, ?_⟩
    rcases List.mem_append.mp hmem with hmem | hmem
    · exact (profileWithin_of_mem_present h hmem).profile.fits
    · exact hfits e hmem

end Wire

theorem clampRole_toUInt64 (r : UInt8) : clampRole r.toUInt64 = r := by
  rw [clampRole, if_neg (UInt64.not_lt.mpr (toUInt64_le r)), UInt8.toUInt8_toUInt64]

namespace ParsedKommsEvent

/-- The event as a parser returns it: with the `enc_scheme` that is on the wire, or is
put in its place. -/
def received (ev : ParsedKommsEvent) : ParsedKommsEvent :=
  { ev with encScheme := synthEncScheme ev.v ev.enc ev.wireEncScheme }

theorem received_of_ne {ev : ParsedKommsEvent} (h : ev.v ≠ 0) : ev.received = ev := by
  rw [received, synthEncScheme, wireEncScheme, if_pos h, if_neg (fun hv => h hv.1)]

theorem received_of_eq {ev : ParsedKommsEvent} (h : ev.v = 0) :
    ev.received = { ev with encScheme := some (if ev.enc then 1 else 0) } := by
  rw [received, synthEncScheme, wireEncScheme, if_neg (not_not.mpr h), if_pos ⟨h, rfl⟩]

end ParsedKommsEvent

section RoundTrip

variable {c : Ciborium} {ev : ParsedKommsEvent} {b : Bytes}

theorem parseEntries_encodePairs (hcode : .fromU8 ev.t.asU8 = ev.t)
    (hext : ∀ e ∈ ev.extensionFields.entries, extensionKeyMin ≤ e.1) :
    parseEntries (encodePairs ev) = .ok ev.received := by
  let m : Fields := ⟨wireEntries ev ev.wireEncScheme ev.wireRole, wireEntries_sorted hext⟩
  obtain ⟨hrows, hfields⟩ := carried_iff_entries.mpr ⟨(rfl : m.entries = _), hext⟩
  have hcollect : collectFields (encodePairs ev) .empty = .ok m :=
    (collectFields_eq_ok (keysAscend_fieldPairs m)).mpr rfl
  have hrole : ev.role = ev.wireRole.map clampRole := by
    cases hrole : ev.role with
    | none => simp [ParsedKommsEvent.wireRole, hrole]
    | some r => simp [ParsedKommsEvent.wireRole, hrole, clampRole_toUInt64]
  exact parseEntries_eq_ok.mpr ⟨m, ev.wireEncScheme, ev.wireRole, hcollect,
    hrows, hcode, rfl, hrole, hfields⟩

/-- What the encoder emits for an event with extensions of the profile is canonical, and
parses to the event as received. -/
theorem parse_encode (hc : c.Documented) (hext : ExtensionsInProfile ev)
    (h : encodeCborMap c ev = .ok b) :
    validateCanonical b = .ok () ∧ parseCborMap c b = .ok ev.received := by
  obtain ⟨hvalid, rfl⟩ := encodeCborMap_eq_ok.mp h
  have hrules := (validateEvent_eq_ok.mp hvalid).1
  have hprofile : (Value.map (encodePairs ev)).ProfileWithin maxNestingDepth := by
    refine (profileWithin_encodePairs hrules).mpr ⟨fun e he e' he' => ?_, hext.values⟩
    exact lt_of_lt_of_le (lt_of_mem_rows (mem_present.mp he)) (hext.keys e' he')
  constructor
  · exact (validateCanonical_intoWriter hc hprofile.profile.fits).mpr hprofile
  · have hcode : .fromU8 ev.t.asU8 = ev.t :=
      EventType.fromU8_asU8 (not_reserved_of_validateEvent hvalid)
    exact parseCborMap_eq_ok.mpr ⟨encodePairs ev, fromReader_intoWriter hc hprofile,
      parseEntries_encodePairs hcode hext.keys⟩

end RoundTrip

end Komms
