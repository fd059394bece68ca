import Komms.Protocol.Canonical
import Komms.Protocol.Pop
import Komms.Protocol.Validate

/-!
# Parsing

`parseCborMap` decodes the map with ciborium, collects its entries by key and
pops the fields off. `parseKommsPayload` is the entry point for on-chain bytes.
-/

namespace Komms

open Cbor
open Canonical (CanonicalError validateCanonical)

def keyToU8 : Value → Except ParseError UInt8
  | .integer (.unsigned n) => if n ≤ 255 then .ok n.toUInt8 else .error .invalidKey
  | _ => .error .invalidKey

/-- Collect the entries by key, failing on the second one with a key. -/
def collectFields : List (Value × Value) → Fields → Except ParseError Fields
  | [], fields => .ok fields
  | (k, v) :: entries, fields => do
    let key ← keyToU8 k
    match fields.get? key with
    | some _ => .error (.duplicateKey key)
    | none => collectFields entries (fields.insert key v)

def parseEntries (entries : List (Value × Value)) : Except ParseError ParsedKommsEvent := do
  let fields ← collectFields entries .empty
  let (ev, _) ← popEvent.run fields
  .ok ev

/-- Decode the CBOR map, without validation. -/
def parseCborMap (c : Ciborium) (cbor : Bytes) : Except ParseError ParsedKommsEvent :=
  match c.fromReader cbor with
  | .error message => .error (.cbor message)
  | .ok (.map entries) => parseEntries entries
  | .ok _ => .error .notAMap

/-- The bytes after the `KOMM` prefix. -/
def stripKommsEnvelope (raw : Bytes) : Option Bytes :=
  if kommsPayloadPrefix <+: raw then some (raw.drop kommsPayloadPrefix.length) else none

inductive KommsPayloadError where
  | missingPrefix
  | canonical (e : CanonicalError)
  | parse (e : ParseError)
  | validation (e : ValidationError)
  | unsupportedVersion (v : UInt64)
  deriving DecidableEq

/-- What callers that persist unknown events receive. -/
inductive ParsedPayload where
  | known (event : ParsedKommsEvent)
  | opaqueEvent (event : ParsedKommsEvent) (rawCbor : Bytes)
  | future (v : UInt64) (rawCbor : Bytes)

/-- The steps both entry points share: strip the prefix, enforce canonical CBOR, decode. -/
def parseEnvelope (c : Ciborium) (raw : Bytes) :
    Except KommsPayloadError (Bytes × ParsedKommsEvent) :=
  match stripKommsEnvelope raw with
  | none => .error .missingPrefix
  | some cbor => do
    (Canonical.validateCanonical cbor).mapError .canonical
    let ev ← (parseCborMap c cbor).mapError .parse
    .ok (cbor, ev)

def parseKommsPayload (c : Ciborium) (raw : Bytes) :
    Except KommsPayloadError ParsedKommsEvent := do
  let (_, ev) ← parseEnvelope c raw
  .failIf (ev.v > maxKnownVersion) (.unsupportedVersion ev.v)
  (validateEvent ev).mapError .validation
  .ok ev

def parseKommsPayloadWithFuture (c : Ciborium) (raw : Bytes) :
    Except KommsPayloadError ParsedPayload := do
  let (cbor, ev) ← parseEnvelope c raw
  if ev.v > maxKnownVersion then .ok (.future ev.v cbor)
  else
    match validateEvent ev with
    | .ok () => .ok (.known ev)
    | .error (.opaqueEventType _) => .ok (.opaqueEvent ev cbor)
    | .error other => .error (.validation other)

theorem keyToU8_eq_ok {k : Value} {key : UInt8} : keyToU8 k = .ok key ↔ k = bk key := by
  simp only [keyToU8]
  split
  · rename_i n
    rw [bk, Value.uint, Value.integer.injEq, Integer.unsigned.injEq]
    split_ifs with hn
    · rw [Except.ok.injEq]
      constructor
      · intro h
        rw [← h, toUInt64_toUInt8 hn]
      · intro h
        rw [h, UInt8.toUInt8_toUInt64]
    · refine iff_of_false (by simp) fun h => hn ?_
      rw [h]
      exact toUInt64_le key
  · rename_i hnot
    exact iff_of_false (by simp) (hnot _)

/-- The entries a map of fields has as a value. -/
def fieldPairs (fields : Fields) : List (Value × Value) :=
  fields.entries.map fun e => (bk e.1, e.2)

/-- The keys are unsigned integers in strictly ascending order. -/
def KeysAscend (entries : List (Value × Value)) : Prop :=
  entries.Pairwise fun e e' => ∃ n n' : UInt64, e.1 = .uint n ∧ e'.1 = .uint n' ∧ n < n'

section Collect

variable {acc m : Fields} {entries : List (Value × Value)} {key : UInt8} {v : Value}

theorem mem_fieldPairs : (bk key, v) ∈ fieldPairs m ↔ m.get? key = some v := by
  rw [SortedMap.get?_eq_some_iff, fieldPairs, List.mem_map]
  constructor
  · intro h
    obtain ⟨⟨k', v'⟩, he, heq⟩ := h
    obtain ⟨hk, rfl⟩ := Prod.mk.inj heq
    exact bk_inj.mp hk ▸ he
  · intro h
    exact ⟨(key, v), h, rfl⟩

theorem exists_key_of_mem_fieldPairs {e : Value × Value} (h : e ∈ fieldPairs m) :
    ∃ k, e.1 = bk k := by
  obtain ⟨e', -, rfl⟩ := List.mem_map.mp h
  exact ⟨e'.1, rfl⟩

theorem keysAscend_fieldPairs (m : Fields) : KeysAscend (fieldPairs m) := by
  refine List.pairwise_map.mpr (m.sorted.imp fun {e e'} hlt => ?_)
  exact ⟨_, _, rfl, rfl, toUInt64_lt_toUInt64.mpr hlt⟩

theorem KeysAscend.nodup (h : KeysAscend entries) : (entries.map Prod.fst).Nodup := by
  refine List.pairwise_map.mpr (h.imp fun {e e'} hlt heq => ?_)
  obtain ⟨n, n', hn, hn', hnn⟩ := hlt
  rw [hn, hn', Value.uint_inj] at heq
  exact UInt64.lt_irrefl n (heq ▸ hnn)

/-- Ascending entries that are those of a map are in the order of the map. -/
theorem KeysAscend.eq_of_perm (h : KeysAscend entries) (hperm : entries.Perm (fieldPairs m)) :
    entries = fieldPairs m := by
  refine List.Perm.eq_of_pairwise ?_ h (keysAscend_fieldPairs m) hperm
  intro e e' _ _ hlt hgt
  obtain ⟨n, n', hn, hn', hnn⟩ := hlt
  obtain ⟨i, i', hi, hi', hii⟩ := hgt
  obtain rfl := Value.uint_inj.mp (hn.symm.trans hi')
  obtain rfl := Value.uint_inj.mp (hn'.symm.trans hi)
  exact absurd hii (UInt64.lt_asymm hnn)

theorem fieldPairs_insert_perm (h : acc.get? key = none) :
    (fieldPairs (acc.insert key v)).Perm ((bk key, v) :: fieldPairs acc) :=
  (SortedMap.entries_insert_perm h).map fun e : UInt8 × Value => (bk e.1, e.2)

/-- Entries with distinct keys that are bytes are those of a map. -/
theorem exists_fieldPairs_perm (hbytes : ∀ e ∈ entries, ∃ k, e.1 = bk k)
    (hnodup : (entries.map Prod.fst).Nodup) : ∃ m, entries.Perm (fieldPairs m) := by
  induction entries with
  | nil => exact ⟨.empty, .refl _⟩
  | cons e entries ih =>
      obtain ⟨x, v⟩ := e
      obtain ⟨⟨k, hk⟩, htail⟩ := List.forall_mem_cons.mp hbytes
      obtain rfl : x = bk k := hk
      obtain ⟨hnot, hnodup⟩ := List.nodup_cons.mp hnodup
      obtain ⟨m, hperm⟩ := ih htail hnodup
      have hfresh : m.get? k = none := by
        refine Option.eq_none_iff_forall_ne_some.mpr fun w hw => hnot ?_
        have hmem : (bk k, w) ∈ entries := hperm.mem_iff.mpr (mem_fieldPairs.mpr hw)
        exact List.mem_map.mpr ⟨_, hmem, rfl⟩
      exact ⟨m.insert k v, (hperm.cons _).trans (fieldPairs_insert_perm hfresh).symm⟩

/-- The loop succeeds when the entries that are left and those that it has are together, in
whatever order, the ones of a map, and gives this map. -/
theorem collectFields_eq_ok_iff_perm :
    collectFields entries acc = .ok m ↔ (entries ++ fieldPairs acc).Perm (fieldPairs m) := by
  induction entries generalizing acc with
  | nil =>
      rw [collectFields, Except.ok.injEq, List.nil_append]
      constructor
      · rintro rfl
        rfl
      · intro h
        apply SortedMap.ext_get?
        intro k
        apply Option.ext
        intro v
        rw [← mem_fieldPairs, ← mem_fieldPairs, h.mem_iff]
  | cons e entries ih =>
      obtain ⟨x, v⟩ := e
      have hmove {key : UInt8} (hfresh : acc.get? key = none) :
          ((bk key, v) :: entries ++ fieldPairs acc).Perm
            (entries ++ fieldPairs (acc.insert key v)) :=
        List.perm_middle.symm.trans ((fieldPairs_insert_perm hfresh).symm.append_left entries)
      rw [collectFields, Except.bind_eq_ok]
      constructor
      · intro h
        obtain ⟨key, hkey, h⟩ := h
        obtain rfl := keyToU8_eq_ok.mp hkey
        cases hfresh : acc.get? key with
        | some w => simp [hfresh] at h
        | none =>
            rw [hfresh] at h
            exact (hmove hfresh).trans (ih.mp h)
      · intro h
        obtain ⟨key, hkey⟩ := exists_key_of_mem_fieldPairs (h.subset List.mem_cons_self)
        obtain rfl : x = bk key := hkey
        have hnodup := (h.map Prod.fst).nodup_iff.mpr (keysAscend_fieldPairs m).nodup
        have hfresh : acc.get? key = none := by
          refine Option.eq_none_iff_forall_ne_some.mpr fun w hw => ?_
          have hmem : (bk key, w) ∈ entries ++ fieldPairs acc :=
            List.mem_append_right entries (mem_fieldPairs.mpr hw)
          exact (List.nodup_cons.mp hnodup).1 (List.mem_map.mpr ⟨_, hmem, rfl⟩)
        refine ⟨key, keyToU8_eq_ok.mpr rfl, ?_⟩
        rw [hfresh]
        exact ih.mpr ((hmove hfresh).symm.trans h)

/-- Entries are collected exactly when they are those of a map. -/
theorem collectFields_empty_eq_ok :
    collectFields entries .empty = .ok m ↔ entries.Perm (fieldPairs m) := by
  have hnil : fieldPairs .empty = [] := rfl
  rw [collectFields_eq_ok_iff_perm, hnil, List.append_nil]

/-- The entries of an ascending map are collected exactly when its keys are bytes. -/
theorem collectFields_eq_ok (h : KeysAscend entries) :
    collectFields entries .empty = .ok m ↔ entries = fieldPairs m := by
  rw [collectFields_empty_eq_ok]
  constructor
  · intro hperm
    exact h.eq_of_perm hperm
  · rintro rfl
    rfl

end Collect

theorem stripKommsEnvelope_eq_some {raw cbor : Bytes} :
    stripKommsEnvelope raw = some cbor ↔ raw = kommsPayloadPrefix ++ cbor := by
  simp only [stripKommsEnvelope]
  split_ifs with h
  · obtain ⟨rest, rfl⟩ := h
    rw [List.drop_left, Option.some.injEq, List.append_cancel_left_eq]
  · refine iff_of_false (by simp) fun heq => h ?_
    exact heq ▸ List.prefix_append _ _

theorem parseEnvelope_eq_ok {c : Ciborium} {raw cbor : Bytes} {ev : ParsedKommsEvent} :
    parseEnvelope c raw = .ok (cbor, ev) ↔ raw = kommsPayloadPrefix ++ cbor ∧
      validateCanonical cbor = .ok () ∧ parseCborMap c cbor = .ok ev := by
  simp only [parseEnvelope]
  split
  · rename_i hnone
    refine iff_of_false (by simp) fun h => ?_
    rw [stripKommsEnvelope_eq_some.mpr h.1] at hnone
    cases hnone
  · rename_i b hsome
    simp only [Except.bind_eq_ok, Except.mapError_eq_ok, Except.ok.injEq, Prod.mk.injEq,
      ← stripKommsEnvelope_eq_some, hsome, Option.some.injEq]
    constructor
    · intro h
      obtain ⟨_, hcanonical, ev', hparse, rfl, rfl⟩ := h
      exact ⟨rfl, hcanonical, hparse⟩
    · intro h
      obtain ⟨rfl, hcanonical, hparse⟩ := h
      exact ⟨(), hcanonical, ev, hparse, rfl, rfl⟩

/-- A payload is accepted when its canonical map holds an event that is valid. -/
theorem parseKommsPayload_eq_ok {c : Ciborium} {raw : Bytes} {ev : ParsedKommsEvent} :
    parseKommsPayload c raw = .ok ev ↔ ∃ cbor, raw = kommsPayloadPrefix ++ cbor ∧
      validateCanonical cbor = .ok () ∧ parseCborMap c cbor = .ok ev ∧
        validateEvent ev = .ok () := by
  simp only [parseKommsPayload, Except.bind_eq_ok, Prod.exists, parseEnvelope_eq_ok,
    Except.mapError_eq_ok, Except.ok.injEq]
  constructor
  · intro h
    obtain ⟨cbor, ev', ⟨hraw, hcanonical, hparse⟩, _, -, _, hvalid, rfl⟩ := h
    exact ⟨cbor, hraw, hcanonical, hparse, hvalid⟩
  · intro h
    obtain ⟨cbor, hraw, hcanonical, hparse, hvalid⟩ := h
    have hversion := (validateEvent_eq_ok.mp hvalid).1.version
    exact ⟨cbor, ev, ⟨hraw, hcanonical, hparse⟩, (),
      Except.failIf_eq_ok.mpr (UInt64.not_lt.mpr hversion), (), hvalid, rfl⟩

theorem keysAscend_of_ofItem {es : List (Nat × Item)} {entries : List (Value × Value)}
    (hcanonical : (Item.map es).Canonical) (h : Value.ofItem (.map es) = some (.map entries)) :
    KeysAscend entries := by
  obtain ⟨_, hes, heq⟩ := Option.map_eq_some_iff.mp h
  obtain rfl := Value.map.inj heq
  obtain ⟨-, hsorted, hkeys⟩ := Item.canonical_map.mp hcanonical
  have hall := Value.entriesOfItem_eq_some_iff.mp hes
  clear h hes heq hcanonical
  induction hall with
  | nil => exact List.Pairwise.nil
  | @cons i e is es he hes ih =>
      obtain ⟨hhead, htail⟩ := List.pairwise_cons.mp hsorted
      obtain ⟨hkey, hkeys⟩ := List.forall_mem_cons.mp hkeys
      refine List.pairwise_cons.mpr ⟨?_, ih htail hkeys⟩
      refine List.forall_right_of_mem ?_ hes
      intro i' hi' e' he'
      refine ⟨_, _, he.1, he'.1, ?_⟩
      rw [UInt64.lt_iff_toNat_lt, UInt64.toNat_ofNat_of_lt' hkey.1,
        UInt64.toNat_ofNat_of_lt' (hkeys i' hi').1]
      exact hhead i' hi'

theorem parseEntries_eq_ok {entries : List (Value × Value)} {ev : ParsedKommsEvent} :
    parseEntries entries = .ok ev ↔
      ∃ m scheme role, collectFields entries .empty = .ok m ∧ Carries m ev scheme role := by
  simp only [parseEntries, Except.bind_eq_ok, Prod.exists, popEvent_eq_ok, Except.ok.injEq]
  constructor
  · intro h
    obtain ⟨m, hcollect, ev', _, ⟨⟨scheme, role, hcarries⟩, -⟩, rfl⟩ := h
    exact ⟨m, scheme, role, hcollect, hcarries⟩
  · intro h
    obtain ⟨m, scheme, role, hcollect, hcarries⟩ := h
    exact ⟨m, hcollect, ev, _, ⟨⟨scheme, role, hcarries⟩, rfl⟩, rfl⟩

theorem parseCborMap_eq_ok {c : Ciborium} {cbor : Bytes} {ev : ParsedKommsEvent} :
    parseCborMap c cbor = .ok ev ↔
      ∃ entries, c.fromReader cbor = .ok (.map entries) ∧ parseEntries entries = .ok ev := by
  simp only [parseCborMap]
  split
  · rename_i hread
    simp [hread]
  · rename_i entries hread
    simp [hread]
  · rename_i v hnot hread
    refine iff_of_false (by simp) fun h => ?_
    obtain ⟨entries, hmap, -⟩ := h
    rw [hread] at hmap
    exact absurd (Except.ok.inj hmap) (hnot entries)

end Komms
