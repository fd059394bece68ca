import Komms.Protocol.Payload

/-!
# Sealed events and encrypted events

A sealed event names no server, channel or participant, and outside direct messages
an encrypted event is in the group envelope. Both rules are kept by the arms of the
match on the event type, each for itself: the arm of `keyRotate` does not forbid
`pid`, and the arm of `sealedMemberLeave` does not look at `enc`.
-/

namespace Komms

open Cbor EventType

/-- The sealed types, 23 to 26. -/
def EventType.isSealed : EventType → Bool
  | sealedMemberJoin | sealedMemberLeave | keyRotate | sealedEvent => true
  | _ => false

/-- None of the plaintext identifiers is present. -/
structure IdentifiersHidden (ev : ParsedKommsEvent) : Prop where
  sid : ev.sid = none
  cid : ev.cid = none
  pid : ev.pid = none

/-- The map has none of the keys of the plaintext identifiers. -/
def IdentifierKeysAbsent (es : List (Nat × Item)) : Prop :=
  ∀ k ∈ [2, 3, 5], ∀ i, (k, i) ∉ es

/-- No pair of a map that is written has the key of a plaintext identifier. -/
def IdentifierPairsAbsent (pairs : List (Value × Value)) : Prop :=
  ∀ k ∈ ([2, 3, 5] : List UInt8), ∀ v, (bk k, v) ∉ pairs

/-- A map of a key rotation has no `pid`. -/
def RotatesWithoutPid (es : List (Nat × Item)) : Prop :=
  (1, .uint 25) ∈ es → ∀ i, (5, i) ∉ es

/-- An event that is not a direct message may be encrypted in this way only. -/
structure GroupEnveloped (ev : ParsedKommsEvent) : Prop where
  scheme : ev.encScheme = some 4
  matchTag : ev.matchTag ≠ none
  keyEpoch : ev.keyEpoch ≠ none
  content : ev.hasEncCounterpart ∨ ev.memberSealed ≠ none ∨
    ev.t = sealedMemberLeave ∧ ev.memberTag ≠ none

namespace ParsedKommsEvent

variable {ev : ParsedKommsEvent} {group : Bool}

/-- The sealed arms forbid `sid` and `cid`, and all but one forbid `pid`. -/
theorem hidden_of_validateType (h : ev.validateType group = .ok ()) (hsealed : ev.t.isSealed) :
    ev.sid = none ∧ ev.cid = none ∧ (ev.t ≠ keyRotate → ev.pid = none) := by
  revert h hsealed
  simp only [validateType]
  cases ev.t <;>
    simp only [isSealed, Except.check_bind_eq_ok, require_eq_ok, forbid_eq_ok,
      Option.isSome_eq_false_iff, Option.isNone_iff_eq_none, Bool.false_eq_true, false_implies,
      implies_true] <;>
    tauto

/-- Every arm but those of direct messages and of sealed leaves refuses `enc` outside the
group envelope, or asks for the envelope. -/
theorem group_of_validateType (h : ev.validateType group = .ok ()) (henc : ev.enc = true)
    (hdm : ev.t ≠ dmMessagePost) (hleave : ev.t ≠ sealedMemberLeave) : group = true := by
  revert h hdm hleave
  simp only [validateType, henc, Bool.true_and]
  cases ev.t <;>
    simp only [Except.check_bind_eq_ok, Except.failIf_eq_ok, require_eq_ok, forbid_eq_ok,
      Bool.not_eq_true', Bool.not_eq_false', Bool.not_eq_false, reduceCtorEq, ne_eq,
      not_true_eq_false, false_implies, implies_true] <;>
    tauto

/-- The types that the envelope exempts from a counterpart ask for what they carry. -/
theorem content_of_validateType (h : ev.validateType group = .ok ())
    (hmember : ev.isSealedMemberEvent = true) :
    ev.memberSealed ≠ none ∨ ev.t = sealedMemberLeave ∧ ev.memberTag ≠ none := by
  revert h hmember
  simp only [validateType, isSealedMemberEvent]
  cases ev.t <;>
    simp only [Except.check_bind_eq_ok, require_eq_ok, Option.isSome_iff_ne_none,
      Bool.false_eq_true, false_implies, implies_true] <;>
    tauto

end ParsedKommsEvent

open ParsedKommsEvent

section Rules

variable {ev : ParsedKommsEvent}

theorem identifiersHidden_iff (hvalid : validateEvent ev = .ok ()) (hsealed : ev.t.isSealed) :
    IdentifiersHidden ev ↔ (ev.t = keyRotate → ev.pid = none) := by
  obtain ⟨hsid, hcid, hpid⟩ := hidden_of_validateType (validateEvent_eq_ok.mp hvalid).2 hsealed
  constructor
  · intro h _
    exact h.pid
  · intro h
    by_cases hrotate : ev.t = keyRotate
    · exact ⟨hsid, hcid, h hrotate⟩
    · exact ⟨hsid, hcid, hpid hrotate⟩

/-- On the entries of the item: no key of an identifier. -/
theorem identifierKeysAbsent_iff {es : List (Nat × Item)} {m : Fields}
    {scheme role : Option UInt64} (hdec : Decodes es m) (h : Carries m ev scheme role) :
    IdentifierKeysAbsent es ↔ IdentifiersHidden ev := by
  have hsid := id_eq_none_iff (k := 2) (x := ev.sid) hdec h
    (by simp [ParsedKommsEvent.rows, V0Fields.rows])
  have hcid := id_eq_none_iff (k := 3) (x := ev.cid) hdec h
    (by simp [ParsedKommsEvent.rows, V0Fields.rows])
  have hpid := id_eq_none_iff (k := 5) (x := ev.pid) hdec h
    (by simp [ParsedKommsEvent.rows, V0Fields.rows])
  rw [IdentifierKeysAbsent, List.forall_mem_cons, List.forall_mem_cons, List.forall_mem_singleton]
  constructor
  · intro habsent
    obtain ⟨h2, h3, h5⟩ := habsent
    exact ⟨hsid.mpr h2, hcid.mpr h3, hpid.mpr h5⟩
  · intro hidden
    exact ⟨hsid.mp hidden.sid, hcid.mp hidden.cid, hpid.mp hidden.pid⟩

/-- On the pairs that are written: no key of an identifier, unless an extension has one. -/
theorem identifierPairsAbsent_iff
    (hext : ∀ e ∈ ev.extensionFields.entries, extensionKeyMin ≤ e.1) :
    IdentifierPairsAbsent (encodePairs ev) ↔ IdentifiersHidden ev := by
  have habsent {k : UInt8} {x : Option Bytes32}
      (hrow : (k, x.map .bytes32) ∈ ev.rows ev.wireEncScheme ev.wireRole) :
      (∀ v, (bk k, v) ∉ encodePairs ev) ↔ x = none := by
    have hmem (v : Value) : (bk k, v) ∈ encodePairs ev ↔ x.map .bytes32 = some v := by
      rw [← mem_wireEntries_core hext hrow, encodePairs]
      simp [bk_inj]
    simp only [hmem, ← Option.eq_none_iff_forall_ne_some, Option.map_eq_none_iff]
  have hsid := @habsent 2 ev.sid (by simp [ParsedKommsEvent.rows, V0Fields.rows])
  have hcid := @habsent 3 ev.cid (by simp [ParsedKommsEvent.rows, V0Fields.rows])
  have hpid := @habsent 5 ev.pid (by simp [ParsedKommsEvent.rows, V0Fields.rows])
  rw [IdentifierPairsAbsent, List.forall_mem_cons, List.forall_mem_cons, List.forall_mem_singleton,
    hsid, hcid, hpid]
  constructor
  · rintro ⟨hsid, hcid, hpid⟩
    exact ⟨hsid, hcid, hpid⟩
  · intro hidden
    exact ⟨hidden.sid, hidden.cid, hidden.pid⟩

/-- A sealed event shows no identifier, in the map or in memory, exactly when it is not a key
rotation with a `pid`. -/
theorem sealed_hides_identifiers_iff {c : Ciborium} (hc : c.Documented) :
    (∀ raw ev, parseKommsPayload c raw = .ok ev → ev.t.isSealed →
      ((IdentifiersHidden ev ∧ ∃ es, PayloadMap raw es ∧ IdentifierKeysAbsent es) ↔
        ∃ es, PayloadMap raw es ∧ RotatesWithoutPid es)) ∧
    (∀ ev raw, encodeKommsPayload c ev = .ok raw → ev.t.isSealed →
      (IdentifiersHidden ev ↔ (ev.t = keyRotate → ev.pid = none)) ∧
      raw = kommsPayloadPrefix ++ c.intoWriter (.map (encodePairs ev)) ∧
      ((∀ e ∈ ev.extensionFields.entries, extensionKeyMin ≤ e.1) →
        (IdentifierPairsAbsent (encodePairs ev) ↔ (ev.t = keyRotate → ev.pid = none)))) := by
  constructor
  · intro raw ev hparse hsealed
    obtain ⟨es, m, scheme, role, hraw, hdec, hcarries, hvalid⟩ := exists_of_parse hc hparse
    have hidden := identifierKeysAbsent_iff hdec hcarries
    have hrotates : RotatesWithoutPid es ↔ (ev.t = keyRotate → ev.pid = none) := by
      have hcode := type_eq_iff (t := keyRotate) hraw.2.1 hdec hcarries rfl
      have hpid := id_eq_none_iff (k := 5) (x := ev.pid) hdec hcarries
        (by simp [ParsedKommsEvent.rows, V0Fields.rows])
      rw [hpid, hcode]
      rfl
    constructor
    · intro h
      exact ⟨es, hraw, hrotates.mpr fun _ => h.1.pid⟩
    · intro h
      obtain ⟨es', hraw', h⟩ := h
      obtain rfl := hraw.unique hraw'
      have hall := (identifiersHidden_iff hvalid hsealed).mpr (hrotates.mp h)
      exact ⟨hall, es, hraw, hidden.mpr hall⟩
  · intro ev raw hencode hsealed
    obtain ⟨cbor, hcbor, rfl⟩ := encodeKommsPayload_eq_ok.mp hencode
    obtain ⟨hvalid, rfl⟩ := encodeCborMap_eq_ok.mp hcbor
    have hidden := identifiersHidden_iff hvalid hsealed
    exact ⟨hidden, rfl, fun hext => (identifierPairsAbsent_iff hext).trans hidden⟩

/-- A key rotation under the group envelope. -/
def rotation : ParsedKommsEvent where
  v := 1
  t := .keyRotate
  enc := true
  ts := some 123
  n := some 1
  encScheme := some 4
  memberSealed := some ⟨[0x55], by decide⟩
  matchTag := some (List.Vector.replicate 16 0x44)
  keyEpoch := some 1

/-- The entries of `rotation`. -/
def rotationEntries : List (Nat × Item) :=
  [(0, .uint 1), (1, .uint 25), (8, .bool true), (9, .uint 123), (10, .uint 1), (13, .uint 4),
    (22, .bytes [0x55]), (27, .bytes (List.replicate 16 0x44)), (29, .uint 1)]

theorem rotation_hides_identifiers : ∃ raw ev,
    encodeKommsPayload .reference rotation = .ok raw ∧
    parseKommsPayload .reference raw = .ok ev ∧
    IdentifiersHidden rotation ∧ IdentifierPairsAbsent (encodePairs rotation) ∧
    IdentifiersHidden ev ∧ ∃ es, PayloadMap raw es ∧ IdentifierKeysAbsent es := by
  obtain ⟨_, hencode, rfl⟩ := Except.exists_ok_of_decide
    (x := encodeKommsPayload .reference rotation)
    (p := fun raw => raw = kommsPayloadPrefix ++ (Item.map rotationEntries).encode)
    (by decide +kernel)
  obtain ⟨ev, hparse, hsealed⟩ := Except.exists_ok_of_any
    (x := parseKommsPayload .reference (kommsPayloadPrefix ++ (Item.map rotationEntries).encode))
    (p := fun ev => ev.t.isSealed) (by decide +kernel)
  obtain ⟨hparsed, hencoded⟩ := sealed_hides_identifiers_iff Ciborium.reference_documented
  obtain ⟨hidden, habsent⟩ := (hparsed _ ev hparse hsealed).mpr
    ⟨rotationEntries, ⟨rfl, by decide +kernel, by decide +kernel⟩, by
      simp [RotatesWithoutPid, rotationEntries]⟩
  obtain ⟨hshown, -, hwritten⟩ := hencoded rotation _ hencode rfl
  exact ⟨_, ev, hencode, hparse, hshown.mpr fun _ => rfl,
    (hwritten (List.forall_mem_nil _)).mpr fun _ => rfl, hidden, habsent⟩

/-- The key rotation with a `pid`. -/
def rotationWithPid : ParsedKommsEvent :=
  { rotation with pid := some (List.Vector.replicate 32 0x22) }

/-- A key rotation that names a participant is encoded, and parsed from the wire. -/
theorem rotation_shows_pid : Ciborium.reference.Documented ∧ ∃ raw ev,
    encodeKommsPayload .reference rotationWithPid = .ok raw ∧
    parseKommsPayload .reference raw = .ok ev ∧
    (rotationWithPid.t.isSealed ∧ ¬ IdentifiersHidden rotationWithPid) ∧
    ev.t.isSealed ∧ ¬ IdentifiersHidden ev := by
  refine ⟨Ciborium.reference_documented, ?_⟩
  obtain ⟨raw, hencode, hraw⟩ := Except.exists_ok_of_any
    (x := encodeKommsPayload .reference rotationWithPid)
    (p := fun raw => (parseKommsPayload .reference raw).toOption.any
      fun ev : ParsedKommsEvent => ev.t.isSealed && ev.pid.isSome) (by decide +kernel)
  obtain ⟨ev, hparse, hev⟩ := Except.exists_ok_of_any hraw
  obtain ⟨hsealed, hpid⟩ := Bool.and_eq_true_iff.mp hev
  refine ⟨raw, ev, hencode, hparse, ⟨rfl, fun hidden => ?_⟩, hsealed, fun hidden => ?_⟩
  · cases hidden.pid
  · rw [hidden.pid] at hpid
    cases hpid

/-- An event with `enc_scheme` 4 is enveloped. -/
theorem groupEnveloped_of_scheme (hvalid : validateEvent ev = .ok ())
    (hscheme : ev.encScheme = some 4) : GroupEnveloped ev := by
  obtain ⟨hrules, htype⟩ := validateEvent_eq_ok.mp hvalid
  obtain ⟨htag, hepoch, hcontent⟩ := hrules.envelope hscheme
  refine ⟨hscheme, htag, hepoch, ?_⟩
  rcases hcontent with hcounterpart | hmember
  · exact .inl hcounterpart
  · exact .inr (content_of_validateType htype hmember)

/-- Outside direct messages encryption is that of the group envelope, except where a sealed
leave is encrypted under another scheme. -/
theorem groupEnveloped_iff (hvalid : validateEvent ev = .ok ()) (hdm : ev.t ≠ dmMessagePost) :
    (ev.enc = true → GroupEnveloped ev) ↔
      (ev.t = sealedMemberLeave → ev.enc = true → ev.encScheme = some 4) := by
  constructor
  · intro h _ henc
    exact (h henc).scheme
  · intro h henc
    apply groupEnveloped_of_scheme hvalid
    by_cases hleave : ev.t = sealedMemberLeave
    · exact h hleave henc
    · have htype := (validateEvent_eq_ok.mp hvalid).2
      exact of_decide_eq_true (group_of_validateType htype henc hdm hleave)

/-- A sealed leave. -/
def sealedLeave : ParsedKommsEvent where
  v := 1
  t := .sealedMemberLeave
  enc := true
  ts := some 123
  n := some 1
  sig := some (List.Vector.replicate 64 0x33)
  encScheme := some 4
  memberTag := some (List.Vector.replicate 16 0x66)
  matchTag := some (List.Vector.replicate 16 0x44)
  keyEpoch := some 1

theorem sealedLeave_groupEnveloped : sealedLeave.enc = true ∧ GroupEnveloped sealedLeave :=
  ⟨rfl, (groupEnveloped_iff (by decide +kernel) (by decide)).mpr (fun _ _ => rfl) rfl⟩

/-- A sealed leave is accepted under the scheme of direct messages. -/
theorem sealedLeave_wallet_scheme : ∃ ev, ev.v = 1 ∧ validateEvent ev = .ok () ∧
    ev.t ≠ dmMessagePost ∧ ev.enc = true ∧ ¬ GroupEnveloped ev := by
  refine ⟨{ sealedLeave with encScheme := some 1 }, rfl, by decide +kernel, by decide, rfl, ?_⟩
  intro h
  exact absurd h.scheme (by decide)

end Rules

end Komms
