import Komms.Protocol.Encode

/-!
# Accepted payloads and their items

An accepted payload is the prefix followed by the encoding of one canonical map
(`PayloadMap`), and the fields that the event is popped from are the entries of that
map (`Decodes`). Conditions on a payload are stated on the entries of its item.
-/

namespace Komms

open Cbor
open Canonical (validateCanonical validateCanonical_ok_iff Denotes maxNestingDepth)

/-- The payload is the envelope of a canonical map with these entries. -/
def PayloadMap (raw : Bytes) (es : List (Nat × Item)) : Prop :=
  raw = kommsPayloadPrefix ++ (Item.map es).encode ∧ (Item.map es).Canonical ∧
    (Item.map es).depth ≤ maxNestingDepth

theorem PayloadMap.unique {raw : Bytes} {es es' : List (Nat × Item)} (h : PayloadMap raw es)
    (h' : PayloadMap raw es') : es = es' := by
  have henc := List.append_cancel_left (h.1.symm.trans h'.1)
  exact Item.map.inj (Item.encode_injective h.2.1 h'.2.1 henc)

/-- The fields are what the entries of the item decode to. -/
def Decodes (es : List (Nat × Item)) (m : Fields) : Prop :=
  List.Forall₂ (fun i e => i.1 = e.1.toNat ∧ Value.ofItem i.2 = some e.2) es m.entries

section Decodes

variable {es : List (Nat × Item)} {m : Fields} {k : UInt8} {i : Item} {n : UInt64}

theorem decodes_iff (h : (Item.map es).Canonical) :
    Decodes es m ↔ Value.ofItem (.map es) = some (.map (fieldPairs m)) := by
  obtain ⟨-, -, hes⟩ := Item.canonical_map.mp h
  rw [Value.ofItem, Option.map_eq_some_iff]
  simp only [Value.map.injEq, exists_eq_right, Value.entriesOfItem_eq_some_iff, fieldPairs,
    List.forall₂_map_right_iff, Decodes]
  have hkey : ∀ i ∈ es, ∀ e : UInt8 × Value,
      i.1 = e.1.toNat ↔ bk e.1 = .integer (.unsigned (UInt64.ofNat i.1)) := by
    intro i hi e
    have hwide : UInt64.ofNat i.1 = e.1.toUInt64 ↔ i.1 = e.1.toNat := by
      rw [← UInt64.toNat_inj, UInt64.toNat_ofNat_of_lt' (hes i hi).1, UInt8.toNat_toUInt64]
    rw [← hwide, bk, Value.uint, Value.integer.injEq, Integer.unsigned.injEq, eq_comm]
  constructor
  · exact List.forall₂_of_mem fun i hi e he => ⟨(hkey i hi e).mp he.1, he.2⟩
  · exact List.forall₂_of_mem fun i hi e he => ⟨(hkey i hi e).mpr he.1, he.2⟩

theorem Decodes.get?_eq_some (h : Decodes es m) {v : Value} (hv : m.get? k = some v) :
    ∃ i, (k.toNat, i) ∈ es ∧ Value.ofItem i = some v := by
  obtain ⟨⟨k', i⟩, hi, hkey, hval⟩ :=
    List.exists_right_of_mem h.flip (SortedMap.get?_eq_some_iff.mp hv)
  simp only at hkey
  exact ⟨i, hkey ▸ hi, hval⟩

theorem Decodes.get?_of_mem (h : Decodes es m) (hi : (k.toNat, i) ∈ es) :
    ∃ v, m.get? k = some v ∧ Value.ofItem i = some v := by
  obtain ⟨⟨k', v⟩, he, hkey, hval⟩ := List.exists_right_of_mem h hi
  have hk : k = k' := UInt8.toNat_inj.mp hkey
  exact ⟨v, SortedMap.get?_eq_some_iff.mpr (hk ▸ he), hval⟩

theorem Decodes.get?_eq_none_iff (h : Decodes es m) :
    m.get? k = none ↔ ∀ i, (k.toNat, i) ∉ es := by
  constructor
  · intro hnone i hi
    obtain ⟨v, hv, -⟩ := h.get?_of_mem hi
    rw [hnone] at hv
    cases hv
  · intro hall
    by_contra hne
    obtain ⟨v, hv⟩ := Option.ne_none_iff_exists'.mp hne
    obtain ⟨i, hi, -⟩ := h.get?_eq_some hv
    exact hall i hi

/-- An item without `undefined` decodes only to the value that stands for it. -/
theorem eq_of_ofItem {v : Value} {j : Item} (hi : i.Canonical) (hund : i.noUndefined = true)
    (hv : v.toItem = some j) (h : Value.ofItem i = some v) : i = j :=
  Option.some.inj ((Value.toItem_of_ofItem hi hund h).symm.trans hv)

theorem ofItem_eq_uint (hi : i.Canonical) :
    Value.ofItem i = some (.uint n) ↔ i = .uint n.toNat := by
  constructor
  · intro h
    have hund : i.noUndefined = true := by
      cases i <;> first | rfl | simp [Value.ofItem, Value.uint] at h
    exact eq_of_ofItem hi hund rfl h
  · intro h
    subst h
    exact Value.ofItem_of_toItem rfl

theorem ofItem_eq_bool {b : Bool} (hi : i.Canonical) :
    Value.ofItem i = some (.bool b) ↔ i = .bool b := by
  constructor
  · intro h
    have hund : i.noUndefined = true := by
      cases i <;> first | rfl | simp [Value.ofItem] at h
    exact eq_of_ofItem hi hund rfl h
  · intro h
    subst h
    rfl

theorem ofItem_eq_bytes {b : VecU8} (hi : i.Canonical) :
    Value.ofItem i = some (.bytes b) ↔ i = .bytes b.1 := by
  constructor
  · intro h
    have hund : i.noUndefined = true := by
      cases i <;> first | rfl | simp [Value.ofItem] at h
    exact eq_of_ofItem hi hund rfl h
  · intro h
    subst h
    exact Value.ofItem_of_toItem rfl

theorem exists_map_of_ofItem {entries : List (Value × Value)}
    (h : Value.ofItem i = some (.map entries)) : ∃ es, i = .map es := by
  cases i with
  | map es => exact ⟨es, rfl⟩
  | _ => simp [Value.ofItem] at h

/-- A field has a value exactly when its key has the one item that decodes to it. -/
theorem Decodes.get?_eq_iff (h : Decodes es m) (hc : (Item.map es).Canonical) {v : Value}
    (hv : ∀ {j : Item}, j.Canonical → (Value.ofItem j = some v ↔ j = i)) :
    m.get? k = some v ↔ (k.toNat, i) ∈ es := by
  obtain ⟨-, -, hes⟩ := Item.canonical_map.mp hc
  constructor
  · intro hget
    obtain ⟨j, hj, hval⟩ := h.get?_eq_some hget
    exact (hv (hes _ hj).2).mp hval ▸ hj
  · intro hmem
    obtain ⟨v', hget, hval⟩ := h.get?_of_mem hmem
    rw [hget, ← hval, (hv (hes _ hmem).2).mpr rfl]

theorem Decodes.get?_eq_uint (h : Decodes es m) (hc : (Item.map es).Canonical) :
    m.get? k = some (.uint n) ↔ (k.toNat, .uint n.toNat) ∈ es :=
  h.get?_eq_iff hc ofItem_eq_uint

theorem Decodes.get?_eq_bytes (h : Decodes es m) (hc : (Item.map es).Canonical) {b : VecU8} :
    m.get? k = some (.bytes b) ↔ (k.toNat, .bytes b.1) ∈ es :=
  h.get?_eq_iff hc ofItem_eq_bytes

theorem Decodes.get?_eq_bool (h : Decodes es m) (hc : (Item.map es).Canonical) {b : Bool} :
    m.get? k = some (.bool b) ↔ (k.toNat, .bool b) ∈ es :=
  h.get?_eq_iff hc ofItem_eq_bool

end Decodes

/-- An accepted payload is that of a canonical map, whose fields carry the event. -/
theorem exists_of_parse {c : Ciborium} (hc : c.Documented) {raw : Bytes} {ev : ParsedKommsEvent}
    (h : parseKommsPayload c raw = .ok ev) : ∃ es m scheme role, PayloadMap raw es ∧
      Decodes es m ∧ Carries m ev scheme role ∧ validateEvent ev = .ok () := by
  obtain ⟨b, rfl, hcanonical, hparse, hvalid⟩ := parseKommsPayload_eq_ok.mp h
  obtain ⟨i, hi⟩ := validateCanonical_ok_iff.mp hcanonical
  obtain ⟨entries, hread, hentries⟩ := parseCborMap_eq_ok.mp hparse
  obtain ⟨m, scheme, role, hcollect, hcarries⟩ := parseEntries_eq_ok.mp hentries
  have hitem := (fromReader_of_denotes hc hi).mp hread
  obtain ⟨es, rfl⟩ := exists_map_of_ofItem hitem
  obtain ⟨rfl, hi, hdepth⟩ := hi
  obtain rfl := (collectFields_eq_ok (keysAscend_of_ofItem hi hitem)).mp hcollect
  exact ⟨es, m, scheme, role, ⟨rfl, hi, hdepth⟩, (decodes_iff hi).mpr hitem, hcarries, hvalid⟩

section Carries

variable {m : Fields} {ev : ParsedKommsEvent} {scheme role : Option UInt64}
variable {es : List (Nat × Item)}

theorem Carries.get?_v (h : Carries m ev scheme role) : m.get? 0 = some (.uint ev.v) :=
  (carried_rows_iff.mp h.rows).1 _ List.mem_cons_self

theorem Carries.get?_enc (h : Carries m ev scheme role) : m.get? 8 = some (.bool ev.enc) :=
  (carried_rows_iff.mp h.rows).1 (8, some (.bool ev.enc)) (by simp [V0Fields.rows])

/-- A core field is absent exactly when its key is not in the map. -/
theorem row_eq_none_iff (hdec : Decodes es m) (h : Carries m ev scheme role) {k : UInt8}
    {x : Option Value} (hrow : (k, x) ∈ ev.rows scheme role) :
    x = none ↔ ∀ i, (k.toNat, i) ∉ es := by
  rw [← hdec.get?_eq_none_iff, h.rows _ hrow]

/-- An id is absent exactly when its key is. -/
theorem id_eq_none_iff (hdec : Decodes es m) (h : Carries m ev scheme role) {k : UInt8}
    {x : Option Bytes32} (hrow : (k, x.map .bytes32) ∈ ev.rows scheme role) :
    x = none ↔ ∀ i, (k.toNat, i) ∉ es := by
  rw [← row_eq_none_iff hdec h hrow, Option.map_eq_none_iff]

/-- An event has a type exactly when key 1 has the discriminant of the type. -/
theorem type_eq_iff (hcanonical : (Item.map es).Canonical) (hdec : Decodes es m)
    (h : Carries m ev scheme role) {t : EventType} (ht : .fromU8 t.asU8 = t) :
    ev.t = t ↔ (1, .uint t.asU8.toNat) ∈ es := by
  have huint := @Decodes.get?_eq_uint es m 1 t.asU8.toUInt64 hdec hcanonical
  have hrow : (1, some (.uint ev.t.asU8.toUInt64)) ∈ ev.rows scheme role :=
    List.mem_append_left _ (List.mem_cons_of_mem _ List.mem_cons_self)
  rw [h.rows _ hrow, Option.some.injEq, Value.uint_inj, UInt8.toUInt64_inj,
    UInt8.toNat_toUInt64] at huint
  have hmem : (1, .uint t.asU8.toNat) ∈ es ↔ ev.t.asU8 = t.asU8 := huint.symm
  rw [hmem]
  constructor
  · intro heq
    rw [heq]
  · intro hcode
    rw [← h.code, hcode, ht]

theorem carried_scheme (h : Carried m (ev.rows scheme role)) : m.get? 13 = scheme.map .uint :=
  (carried_rows_iff.mp h).2.1 _ (List.mem_cons_of_mem _ List.mem_cons_self)

theorem carried_target (h : Carried m (ev.rows scheme role)) :
    m.get? 32 = ev.target.map .bytes :=
  (carried_rows_iff.mp h).2.2.2 _ (List.mem_cons_of_mem _ List.mem_cons_self)

theorem carried_role (h : Carried m (ev.rows scheme role)) : m.get? 31 = role.map .uint :=
  (carried_rows_iff.mp h).2.2.2 _ List.mem_cons_self

theorem v_eq_zero_iff (hcanonical : (Item.map es).Canonical) (hdec : Decodes es m)
    (h : Carries m ev scheme role) : ev.v = 0 ↔ (0, .uint 0) ∈ es := by
  have huint := @Decodes.get?_eq_uint es m 0 0 hdec hcanonical
  rw [h.get?_v, Option.some.injEq, Value.uint_inj] at huint
  exact huint

theorem scheme_eq_none_iff (hdec : Decodes es m) (h : Carries m ev scheme role) :
    scheme = none ↔ ∀ i, (13, i) ∉ es := by
  have hnone := hdec.get?_eq_none_iff (k := 13)
  rw [carried_scheme h.rows, Option.map_eq_none_iff] at hnone
  exact hnone

theorem role_eq_some_iff (hcanonical : (Item.map es).Canonical) (hdec : Decodes es m)
    (h : Carries m ev scheme role) (n : UInt64) : role = some n ↔ (31, .uint n.toNat) ∈ es := by
  have huint := @Decodes.get?_eq_uint es m 31 n hdec hcanonical
  have hinj : Function.Injective Value.uint := fun _ _ => Value.uint_inj.mp
  rw [carried_role h.rows, ← Option.map_some, (Option.map_injective hinj).eq_iff] at huint
  exact huint

theorem target_eq_some_iff (hcanonical : (Item.map es).Canonical) (hdec : Decodes es m)
    (h : Carries m ev scheme role) (b : VecU8) : ev.target = some b ↔ (32, .bytes b.1) ∈ es := by
  have hbytes := @Decodes.get?_eq_bytes es m 32 hdec hcanonical b
  have hinj : Function.Injective Value.bytes := fun _ _ => Value.bytes.inj
  rw [carried_target h.rows, ← Option.map_some, (Option.map_injective hinj).eq_iff] at hbytes
  exact hbytes

/-- The extension fields of a parsed event have keys of the extension range and values
of the profile. -/
theorem extensionsInProfile_of_carries
    (hcanonical : (Item.map es).Canonical) (hdepth : (Item.map es).depth ≤ maxNestingDepth)
    (hdec : Decodes es m) (h : Carries m ev scheme role) : ExtensionsInProfile ev := by
  obtain ⟨-, hext⟩ := carried_iff_entries.mp ⟨h.rows, h.extensionFields⟩
  refine ⟨hext, fun e he => ?_⟩
  have hget : m.get? e.1 = some e.2 := by
    rw [h.extensionFields] at he
    exact SortedMap.get?_eq_some_iff.mpr (List.mem_of_mem_filter he)
  obtain ⟨i, hi, hval⟩ := hdec.get?_eq_some hget
  obtain ⟨-, -, hes⟩ := Item.canonical_map.mp hcanonical
  have hlt := Item.depth_map_lt.mp (Nat.lt_succ_of_le hdepth) _ hi
  exact Value.profileWithin_of_ofItem (hes _ hi).2 (Nat.le_pred_of_lt hlt) hval

end Carries

/-- A v0 bookmark. -/
def v0Bookmark : Bytes :=
  kommsPayloadPrefix ++ [0xA4, 0x00, 0x00, 0x01, 0x13, 0x06, 0x58, 0x20] ++
    List.replicate 32 0x22 ++ [0x08, 0xF4]

/-- The same bookmark with `enc_scheme` 7 under key 13. -/
def v0BookmarkScheme : Bytes :=
  kommsPayloadPrefix ++ [0xA5, 0x00, 0x00, 0x01, 0x13, 0x06, 0x58, 0x20] ++
    List.replicate 32 0x22 ++ [0x08, 0xF4, 0x0D, 0x07]

/-- The entries of `v0Bookmark`. -/
def v0BookmarkEntries : List (Nat × Item) :=
  [(0, .uint 0), (1, .uint 19), (6, .bytes (List.replicate 32 0x22)), (8, .bool false)]

theorem v0Bookmark_payloadMap : PayloadMap v0Bookmark v0BookmarkEntries :=
  ⟨by decide +kernel, by decide +kernel, by decide +kernel⟩

end Komms
