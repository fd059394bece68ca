import Komms.Protocol.Parse

/-!
# What parsing keeps

`Holds` says, of a list of map entries, what an event has of them: each core key in its own
field, each extension key in the extension fields, and nothing else. It does not mention the
order of the entries, and an event is parsed from exactly the entries that it holds
(`parseEntries_iff_holds`).
-/

namespace Komms

open Cbor

/-- The event holds each entry in the field of its key. `scheme` and `role` are the values of
keys 13 and 31. -/
structure Holds (entries : List (Value × Value)) (ev : ParsedKommsEvent)
    (scheme role : Option UInt64) : Prop where
  bytes : ∀ e ∈ entries, ∃ k : UInt8, e.1 = bk k
  nodup : (entries.map Prod.fst).Nodup
  rows : ∀ row ∈ ev.rows scheme role, ∀ v, (bk row.1, v) ∈ entries ↔ row.2 = some v
  /-- The event type of a code is the one that the code decodes to. -/
  code : .fromU8 ev.t.asU8 = ev.t
  encScheme : ev.v ≠ 0 ∨ scheme ≠ none → ev.encScheme = scheme
  synthScheme : ev.v = 0 → scheme = none → ev.encScheme = some (if ev.enc then 1 else 0)
  role : ev.role.map UInt8.toNat = role.map fun r => min r.toNat 255
  extensionFields : ∀ k v, ev.extensionFields.get? k = some v ↔
    extensionKeyMin ≤ k ∧ (bk k, v) ∈ entries

/-- The two ways to read the scheme of an event. -/
theorem synthEncScheme_iff {x scheme : Option UInt64} {version : UInt64} {enc : Bool} :
    x = synthEncScheme version enc scheme ↔ (version ≠ 0 ∨ scheme ≠ none → x = scheme) ∧
      (version = 0 → scheme = none → x = some (if enc then 1 else 0)) := by
  rw [synthEncScheme]
  by_cases hversion : version = 0 <;> by_cases hscheme : scheme = none <;>
    simp [hversion, hscheme]

/-- Clamping is taking the minimum. -/
theorem clampRole_iff {x : Option UInt8} {role : Option UInt64} :
    x = role.map clampRole ↔ x.map UInt8.toNat = role.map fun r => min r.toNat 255 := by
  have hclamp (r : UInt64) : (clampRole r).toNat = min r.toNat 255 := by
    rw [clampRole]
    split_ifs with hr
    · have hlt : 255 < r.toNat := UInt64.lt_iff_toNat_lt.mp hr
      exact (Nat.min_eq_right hlt.le).symm
    · have hle : r.toNat ≤ 255 := Nat.not_lt.mp fun hlt => hr (UInt64.lt_iff_toNat_lt.mpr hlt)
      rw [UInt64.toNat_toUInt8, Nat.min_eq_left hle]
      omega
  cases x <;> cases role <;> simp [← hclamp, UInt8.toNat_inj]

/-- An event is parsed from exactly the entries that it holds. -/
theorem parseEntries_iff_holds {entries : List (Value × Value)} {ev : ParsedKommsEvent} :
    parseEntries entries = .ok ev ↔ ∃ scheme role, Holds entries ev scheme role := by
  have hvalue {m : Fields} (h : entries.Perm (fieldPairs m)) (k : UInt8) (v : Value) :
      (bk k, v) ∈ entries ↔ m.get? k = some v := h.mem_iff.trans mem_fieldPairs
  simp only [parseEntries_eq_ok, collectFields_empty_eq_ok]
  constructor
  · rintro ⟨m, scheme, role, hperm, hcarries⟩
    obtain ⟨hscheme, hsynth⟩ := synthEncScheme_iff.mp hcarries.encScheme
    refine ⟨scheme, role, fun e he => exists_key_of_mem_fieldPairs (hperm.subset he),
      (hperm.map Prod.fst).nodup_iff.mpr (keysAscend_fieldPairs m).nodup, fun row hrow v => ?_,
      hcarries.code, hscheme, hsynth, clampRole_iff.mp hcarries.role, fun k v => ?_⟩
    · rw [hvalue hperm, hcarries.rows row hrow]
    · rw [hvalue hperm, hcarries.extensionFields, SortedMap.get?_atLeast]
      split_ifs with hk <;> simp [hk]
  · rintro ⟨scheme, role, h⟩
    obtain ⟨m, hperm⟩ := exists_fieldPairs_perm h.bytes h.nodup
    refine ⟨m, scheme, role, hperm, fun row hrow => ?_, h.code,
      synthEncScheme_iff.mpr ⟨h.encScheme, h.synthScheme⟩, clampRole_iff.mpr h.role, ?_⟩
    · apply Option.ext
      intro v
      rw [← hvalue hperm, h.rows row hrow]
    · apply SortedMap.ext_get?
      intro k
      apply Option.ext
      intro v
      rw [h.extensionFields, SortedMap.get?_atLeast, hvalue hperm]
      split_ifs with hk <;> simp [hk]

/-- What an event holds does not depend on the order of the entries. -/
theorem Holds.perm {entries entries' : List (Value × Value)} {ev : ParsedKommsEvent}
    {scheme role : Option UInt64} (h : Holds entries ev scheme role)
    (hperm : entries'.Perm entries) : Holds entries' ev scheme role where
  bytes e he := h.bytes e (hperm.subset he)
  nodup := (hperm.map Prod.fst).nodup_iff.mpr h.nodup
  rows row hrow v := hperm.mem_iff.trans (h.rows row hrow v)
  code := h.code
  encScheme := h.encScheme
  synthScheme := h.synthScheme
  role := h.role
  extensionFields k v := by rw [h.extensionFields, hperm.mem_iff]

/-- The computation never reports a core key that is not allocated. -/
def NeverReserved {α : Type} (x : Pop α) : Prop := ∀ m k, x.run m ≠ .error (.reservedCoreKey k)

namespace NeverReserved

variable {α β : Type}

theorem pure (a : α) : NeverReserved (Pure.pure a : Pop α) := by
  intro m k h
  cases h

theorem bind {x : Pop α} {f : α → Pop β} (hx : NeverReserved x) (hf : ∀ a, NeverReserved (f a)) :
    NeverReserved (x >>= f) := by
  intro m k h
  rw [StateT.run_bind] at h
  rcases Except.bind_eq_error.mp h with h | ⟨⟨a, m'⟩, -, h⟩
  · exact hx m k h
  · exact hf a m' k h

/-- What a field reports is one of the errors of its kind. -/
theorem read_bind {kind : FieldKind α} (h : ∀ v k, kind.read v ≠ .error (.reservedCoreKey k))
    {f : α → β} (v : Value) (k : UInt8) :
    (do
      let a ← kind.read v
      .ok (f a)) ≠ Except.error (.reservedCoreKey k) := by
  intro hrun
  rcases Except.bind_eq_error.mp hrun with hread | ⟨a, -, hok⟩
  · exact h v k hread
  · cases hok

theorem popRequired {kind : FieldKind α} (h : ∀ v k, kind.read v ≠ .error (.reservedCoreKey k))
    {key : UInt8} {name : String} : NeverReserved (Komms.popRequired kind key name) := by
  intro m k hrun
  simp only [Komms.popRequired, StateT.run] at hrun
  cases hget : m.get? key with
  | none => simp [hget] at hrun
  | some val =>
      simp only [hget] at hrun
      exact read_bind h val k hrun

theorem popOpt {kind : FieldKind α} (h : ∀ v k, kind.read v ≠ .error (.reservedCoreKey k))
    {key : UInt8} : NeverReserved (Komms.popOpt kind key) := by
  intro m k hrun
  simp only [Komms.popOpt, StateT.run] at hrun
  cases hget : m.get? key with
  | none => simp [hget] at hrun
  | some val =>
      simp only [hget] at hrun
      exact read_bind h val k hrun

theorem read_uint {name : String} (v : Value) (k : UInt8) :
    (FieldKind.uint name).read v ≠ .error (.reservedCoreKey k) := by
  simp only [FieldKind.uint]
  split <;> simp

theorem read_bool {name : String} (v : Value) (k : UInt8) :
    (FieldKind.bool name).read v ≠ .error (.reservedCoreKey k) := by
  simp only [FieldKind.bool]
  split <;> simp

theorem read_bytes {name : String} (v : Value) (k : UInt8) :
    (FieldKind.bytes name).read v ≠ .error (.reservedCoreKey k) := by
  simp only [FieldKind.bytes]
  split <;> simp

theorem read_text {name : String} (v : Value) (k : UInt8) :
    (FieldKind.text name).read v ≠ .error (.reservedCoreKey k) := by
  simp only [FieldKind.text]
  split <;> simp

theorem read_fixed {n : Nat} {hn : n < 2 ^ 64} {notBytes wrongLength : ParseError}
    (hnot : ∀ k, notBytes ≠ .reservedCoreKey k) (hwrong : ∀ k, wrongLength ≠ .reservedCoreKey k)
    (v : Value) (k : UInt8) :
    (FieldKind.fixed hn notBytes wrongLength).read v ≠ .error (.reservedCoreKey k) := by
  simp only [FieldKind.fixed]
  split
  · split_ifs
    · simp
    · simpa using hwrong k
  · simpa using hnot k

variable {key : UInt8} {name : String}

theorem popUint : NeverReserved (Komms.popUint key name) := popRequired read_uint

theorem popBool : NeverReserved (Komms.popBool key name) := popRequired read_bool

theorem popUintOpt : NeverReserved (Komms.popUintOpt key name) := popOpt read_uint

theorem popTextOpt : NeverReserved (Komms.popTextOpt key name) := popOpt read_text

theorem popBytes : NeverReserved (Komms.popBytes key name) := popOpt read_bytes

theorem popBytes16 : NeverReserved (Komms.popBytes16 key name) :=
  popOpt (read_fixed (by simp) (by simp))

theorem popBytes32 : NeverReserved (Komms.popBytes32 key name) :=
  popOpt (read_fixed (by simp) (by simp))

theorem popSig : NeverReserved Komms.popSig := popOpt (read_fixed (by simp) (by simp))

theorem eventType (tRaw : UInt64) : NeverReserved (liftM (Komms.eventType tRaw)) := by
  intro m k h
  rw [Komms.eventType] at h
  split_ifs at h <;> cases h

theorem popV0Fields : NeverReserved Komms.popV0Fields :=
  popUint.bind fun _ => popUint.bind fun tRaw => (eventType tRaw).bind fun _ => popBool.bind
    fun _ => popBytes32.bind fun _ => popBytes32.bind fun _ => popBytes32.bind fun _ =>
    popBytes32.bind fun _ => popBytes32.bind fun _ => popBytes.bind fun _ => popUintOpt.bind
    fun _ => popUintOpt.bind fun _ => popSig.bind fun _ => pure _

theorem popV1Fields : NeverReserved Komms.popV1Fields :=
  popBytes32.bind fun _ => popUintOpt.bind fun _ => popUintOpt.bind fun _ => popTextOpt.bind
    fun _ => popUintOpt.bind fun _ => popBytes32.bind fun _ => popUintOpt.bind fun _ =>
    popBytes.bind fun _ => popBytes.bind fun _ => pure _

theorem popV11Fields : NeverReserved Komms.popV11Fields :=
  popBytes16.bind fun _ => popBytes.bind fun _ => popBytes.bind fun _ => popBytes.bind fun _ =>
    popBytes.bind fun _ => popBytes.bind fun _ => popBytes16.bind fun _ => popBytes.bind fun _ =>
    popUintOpt.bind fun _ => popBytes.bind fun _ => pure _

theorem popRoleFields : NeverReserved Komms.popRoleFields :=
  popUintOpt.bind fun _ => popBytes.bind fun _ => pure _

/-- When the core fields and the extension fields are off the map, nothing is left. -/
theorem popEvent : NeverReserved Komms.popEvent := by
  intro m k h
  rw [Komms.popEvent, StateT.run_bind] at h
  rcases Except.bind_eq_error.mp h with h | ⟨⟨v0, _⟩, hv0, h⟩
  · exact popV0Fields m k h
  rw [StateT.run_bind] at h
  rcases Except.bind_eq_error.mp h with h | ⟨⟨v1, _⟩, hv1, h⟩
  · exact popV1Fields _ k h
  rw [StateT.run_bind] at h
  rcases Except.bind_eq_error.mp h with h | ⟨⟨v11, _⟩, hv11, h⟩
  · exact popV11Fields _ k h
  rw [StateT.run_bind] at h
  rcases Except.bind_eq_error.mp h with h | ⟨⟨fields, m'⟩, hrole, h⟩
  · exact popRoleFields _ k h
  obtain ⟨-, -, rfl⟩ := popV0Fields_eq_ok.mp hv0
  obtain ⟨-, rfl⟩ := popV1Fields_eq_ok.mp hv1
  obtain ⟨-, rfl⟩ := popV11Fields_eq_ok.mp hv11
  obtain ⟨-, hm'⟩ := popRoleFields_eq_ok.mp hrole
  have hext := popExtensionFields_eq_ok.mpr (⟨rfl, rfl⟩ : _ ∧ m'.below extensionKeyMin = _)
  rw [StateT.run_bind, hext, hm', removeAll_coreKeys, below_removeAll_coreKeys] at h
  cases h

end NeverReserved

theorem collectFields_never_reserved (entries : List (Value × Value)) (acc : Fields) (k : UInt8) :
    collectFields entries acc ≠ .error (.reservedCoreKey k) := by
  induction entries generalizing acc with
  | nil =>
      intro h
      cases h
  | cons e entries ih =>
      obtain ⟨x, v⟩ := e
      intro h
      rw [collectFields] at h
      rcases Except.bind_eq_error.mp h with hkey | ⟨key, -, h⟩
      · rw [keyToU8.eq_def] at hkey
        split at hkey
        · split_ifs at hkey
          cases hkey
        · cases hkey
      · cases hget : acc.get? key with
        | some w => simp [hget] at h
        | none =>
            simp only [hget] at h
            exact ih _ h

theorem parseEntries_never_reserved (entries : List (Value × Value)) (k : UInt8) :
    parseEntries entries ≠ .error (.reservedCoreKey k) := by
  intro h
  rw [parseEntries] at h
  rcases Except.bind_eq_error.mp h with h | ⟨m, -, h⟩
  · exact collectFields_never_reserved entries .empty k h
  · rcases Except.bind_eq_error.mp h with h | ⟨r, -, h⟩
    · exact NeverReserved.popEvent m k h
    · cases h

/-- Whatever is decoded, the check for core keys that are not allocated passes. -/
theorem parseCborMap_never_reserved (c : Ciborium) (cbor : Bytes) (k : UInt8) :
    parseCborMap c cbor ≠ .error (.reservedCoreKey k) := by
  intro h
  rw [parseCborMap.eq_def] at h
  split at h
  · cases h
  · exact parseEntries_never_reserved _ k h
  · cases h

/-- Parsing loses, duplicates and misplaces nothing, in whatever order the entries come, and
never finds a core key that is not allocated. -/
theorem parseEntries_lossless :
    (∀ entries ev, parseEntries entries = .ok ev →
      (∃ scheme role, Holds entries ev scheme role) ∧
        ∀ entries', entries'.Perm entries → parseEntries entries' = .ok ev) ∧
    (∀ (ev : ParsedKommsEvent) (scheme role : Option UInt64),
      (ev.rows scheme role).map Prod.fst = (List.range 33).map UInt8.ofNat) ∧
    (∀ entries k, parseEntries entries ≠ .error (.reservedCoreKey k)) ∧
    ∀ c cbor k, parseCborMap c cbor ≠ .error (.reservedCoreKey k) := by
  refine ⟨fun entries ev h => ?_, fun _ _ _ => rows_keys, parseEntries_never_reserved,
    parseCborMap_never_reserved⟩
  obtain ⟨scheme, role, hholds⟩ := parseEntries_iff_holds.mp h
  refine ⟨⟨scheme, role, hholds⟩, fun entries' hperm => ?_⟩
  exact parseEntries_iff_holds.mpr ⟨scheme, role, hholds.perm hperm⟩

/-- A v0 map with its keys in no order, a role that does not fit and an extension key. -/
def shuffledEntries : List (Value × Value) :=
  [(bk 40, .null), (bk 8, .bool true), (bk 31, .uint 300), (bk 1, .uint 19), (bk 0, .uint 0)]

theorem shuffledEntries_lossless : ∃ ev, parseEntries shuffledEntries = .ok ev ∧
    ev.encScheme = some 1 ∧ ev.role = some 255 ∧
    (∃ scheme role, Holds shuffledEntries ev scheme role) ∧
    ∀ entries', entries'.Perm shuffledEntries → parseEntries entries' = .ok ev := by
  obtain ⟨ev, hparse, hscheme, hrole⟩ := Except.exists_ok_of_decide
    (x := parseEntries shuffledEntries)
    (p := fun ev => ev.encScheme = some 1 ∧ ev.role = some 255) (by decide +kernel)
  exact ⟨ev, hparse, hscheme, hrole, parseEntries_lossless.1 _ ev hparse⟩

end Komms
