import Komms.Control.Except
import Komms.Protocol.Event

/-!
# Event validation

`validateEvent` runs the checks every event type has in common, and then the arm
of the event's own type. Each early return of the source is one line: `failIf`
for `if c { return Err(e) }`, `require` and `forbid` for the closures of these
names.

`GenericRules` says in one record what the common checks establish
(`validateGeneric_eq_ok`).
-/

namespace Komms

open Cbor EventType

def isAscii (b : Bytes) : Bool := b.all (· < 128)

/-- Validate the layout of `ref` when present. -/
def validateRef (refBytes : Bytes) : Except ValidationError Unit :=
  match refBytes with
  | [] => .error .invalidRef
  | tag :: body =>
    if tag = 0x01 then .failIf (body = [] ∨ fromUtf8 body = none) .invalidRef
    else if tag = 0x02 then .failIf (refBytes.length ≠ 1 + 32) .invalidRef
    else .error .invalidRef

/-- Reject any `role` byte that is not allocated. -/
def validateRoleByte (role : Option UInt8) : Except ValidationError Unit :=
  match role with
  | none => .ok ()
  | some r => .failIf (r > roleMax) (.unknownRole r)

/-- A `target` carries a version byte and at least one byte of payload. -/
def validateTargetBytes (target : Option VecU8) : Except ValidationError Unit :=
  match target with
  | none => .ok ()
  | some bytes => .failIf (bytes.1.length < 2) (.invalidTargetLength bytes.1.length)

namespace ParsedKommsEvent

variable (ev : ParsedKommsEvent)

def checkVersion : Except ValidationError Unit :=
  .failIf (ev.v > maxKnownVersion) (.badVersion ev.v)

/-- Reject WS-only ephemeral types on chain. -/
def checkEphemeral : Except ValidationError Unit :=
  .failIf (ev.t.asU8 = 21 ∨ ev.t.asU8 = 22) (.ephemeralOnChain ev.t)

/-- `ref_type` and the inline tag of `ref_bytes` must agree when both are present. -/
def checkRef : Except ValidationError Unit :=
  match ev.refBytes with
  | none => .ok ()
  | some r => do
    validateRef r.1
    match ev.refType with
    | none => .ok ()
    | some rt => .failIf (rt > 0xFF ∨ r.1.head? ≠ some rt.toUInt8) .invalidRef

def checkMime : Except ValidationError Unit :=
  match ev.mime with
  | none => .ok ()
  | some m =>
    .failIf (utf8 m = [] ∨ (utf8 m).length > 64 ∨ !isAscii (utf8 m)) .invalidMime

def checkReactionKey : Except ValidationError Unit :=
  match ev.reactionKey with
  | none => .ok ()
  | some rk => .failIf (rk.1 = [] ∨ rk.1.length > 32) .invalidReactionKey

/-- The gate on the allocation of `enc_scheme`. -/
def checkSchemeAllocated (scheme : UInt64) : Except ValidationError Unit :=
  if scheme = 0 ∨ scheme = 1 ∨ scheme = 3 ∨ scheme = 4 then .ok ()
  else if scheme = 2 then .error .deprecatedEncSchemeMls
  else .error (.unknownEncScheme scheme)

/-- The rules for `v >= 1`: `enc_scheme` agrees with `enc`, and `ts` and `n` are there. -/
def checkV1 : Except ValidationError Unit :=
  if ev.v ≥ 1 then
    match ev.encScheme with
    | none => .error (.v1MissingField "enc_scheme")
    | some scheme => do
      .failIf (decide (scheme ≠ 0) ≠ ev.enc) (.encSchemeMismatch scheme ev.enc)
      checkSchemeAllocated scheme
      .failIf (ev.ts = none) (.v1MissingField "ts")
      .failIf (ev.n = none) (.v1MissingField "n")
  else .ok ()

def checkSealedSender : Except ValidationError Unit :=
  .failIf (ev.sigScheme = some 1 ∨ ev.sealedSigner.isSome) .sealedSenderNotImplemented

def groupEncrypted : Bool := ev.encScheme = some 4

def hasEncCounterpart : Bool :=
  ev.encSid.isSome || ev.encCid.isSome || ev.encBodyRef.isSome || ev.encParentMid.isSome ||
    ev.encT.isSome

def isSealedMemberEvent : Bool :=
  match ev.t with
  | sealedMemberJoin | sealedMemberLeave | keyRotate => true
  | _ => false

/-- The requirements of `enc_scheme = 4`. -/
def checkGroupEnvelope : Except ValidationError Unit :=
  if ev.groupEncrypted then do
    .failIf (ev.matchTag = none) (.v11MissingField "match_tag")
    .failIf (ev.keyEpoch = none) (.v11MissingField "key_epoch")
    .failIf (!ev.hasEncCounterpart && !ev.isSealedMemberEvent)
      (.v11MissingField "enc_* counterpart")
  else .ok ()

/-- The checks before the match on the event type. -/
def validateGeneric : Except ValidationError Unit := do
  ev.checkVersion
  ev.checkEphemeral
  ev.checkRef
  ev.checkMime
  ev.checkReactionKey
  ev.checkV1
  ev.checkSealedSender
  ev.checkGroupEnvelope

def require (cond : Bool) (field : String) : Except ValidationError Unit :=
  if cond then .ok () else .error (.missingForType ev.t field)

def forbid (present : Bool) (field : String) : Except ValidationError Unit :=
  if present then .error (.forbiddenField ev.t field) else .ok ()

/-- The arms of the match on the event type. `group` is the `group_encrypted` of
the source, under which an encrypted counterpart stands in for `sid`, `cid` or
`ref`. -/
def validateType (group : Bool) : Except ValidationError Unit :=
  let hasSid := ev.sid.isSome || (group && ev.encSid.isSome)
  let hasCid := ev.cid.isSome || (group && ev.encCid.isSome)
  let hasRef := ev.refBytes.isSome || (group && ev.encBodyRef.isSome)
  let plaintextEncMisuse := ev.enc && !group
  match ev.t with
  | serverCreate | serverUpdate => do
    ev.require hasSid "sid|enc_sid"
    ev.forbid (ev.cid.isSome || ev.encCid.isSome) "cid"
    ev.forbid ev.did.isSome "did"
    .failIf plaintextEncMisuse .invalidEnc
  | channelCreate | channelUpdate => do
    ev.require hasSid "sid|enc_sid"
    ev.require hasCid "cid|enc_cid"
    ev.forbid ev.did.isSome "did"
    .failIf plaintextEncMisuse .invalidEnc
  | messagePost => do
    ev.require hasSid "sid|enc_sid"
    ev.require hasCid "cid|enc_cid"
    ev.require hasRef "ref|enc_body_ref"
    ev.forbid plaintextEncMisuse "enc"
  | messageEdit => do
    ev.require hasSid "sid|enc_sid"
    ev.require hasCid "cid|enc_cid"
    ev.require ev.mid.isSome "mid"
    ev.require hasRef "ref|enc_body_ref"
    ev.forbid plaintextEncMisuse "enc"
  | messageDelete => do
    ev.require hasSid "sid|enc_sid"
    ev.require hasCid "cid|enc_cid"
    ev.require ev.mid.isSome "mid"
    ev.forbid plaintextEncMisuse "enc"
  | dmMessagePost => do
    ev.require ev.did.isSome "did"
    ev.require ev.refBytes.isSome "ref"
    ev.require ev.enc "enc"
    ev.forbid (ev.sid.isSome || ev.encSid.isSome) "sid"
    ev.forbid (ev.cid.isSome || ev.encCid.isSome) "cid"
  | reactionAdd | reactionRemove => do
    ev.require hasSid "sid|enc_sid"
    ev.require hasCid "cid|enc_cid"
    ev.require ev.mid.isSome "mid"
    .failIf (ev.reactionKey = none ∧ ev.refBytes = none)
      (.missingForType ev.t "reaction_key|ref")
    ev.forbid plaintextEncMisuse "enc"
  | memberJoin | memberLeave => do
    ev.require ev.sid.isSome "sid"
    ev.require ev.pid.isSome "pid"
    ev.forbid ev.cid.isSome "cid"
    ev.forbid ev.did.isSome "did"
    .failIf plaintextEncMisuse .invalidEnc
  | roleAssign => do
    ev.require hasSid "sid|enc_sid"
    ev.require ev.target.isSome "target"
    ev.require ev.role.isSome "role"
    validateRoleByte ev.role
    validateTargetBytes ev.target
    .failIf plaintextEncMisuse .invalidEnc
  | roleRevoke => do
    ev.require hasSid "sid|enc_sid"
    ev.require ev.target.isSome "target"
    (if ev.role.isSome then validateRoleByte ev.role else .ok ())
    validateTargetBytes ev.target
    .failIf plaintextEncMisuse .invalidEnc
  | moderationAction => do
    ev.require hasSid "sid|enc_sid"
    ev.forbid plaintextEncMisuse "enc"
  | deviceRegister => do
    ev.require ev.devicePk.isSome "device_pk"
    ev.require ev.sig.isSome "sig"
    ev.require ev.sigScheme.isSome "sig_scheme"
    ev.forbid plaintextEncMisuse "enc"
  | deviceRevoke => do
    ev.require ev.devicePk.isSome "device_pk"
    ev.require ev.sig.isSome "sig"
    ev.forbid plaintextEncMisuse "enc"
  | pinMessage | unpinMessage => do
    ev.require hasSid "sid|enc_sid"
    ev.require hasCid "cid|enc_cid"
    ev.require ev.mid.isSome "mid"
    ev.forbid plaintextEncMisuse "enc"
  | bookmarkAdd | bookmarkRemove => do
    ev.require ev.mid.isSome "mid"
    ev.forbid plaintextEncMisuse "enc"
  | sealedMemberJoin => do
    ev.require group "enc_scheme=4"
    ev.require ev.memberTag.isSome "member_tag"
    ev.require ev.memberSealed.isSome "member_sealed"
    ev.require ev.matchTag.isSome "match_tag"
    ev.require ev.keyEpoch.isSome "key_epoch"
    ev.forbid ev.sid.isSome "sid"
    ev.forbid ev.cid.isSome "cid"
    ev.forbid ev.did.isSome "did"
    ev.forbid ev.pid.isSome "pid"
  | sealedMemberLeave => do
    ev.require ev.memberTag.isSome "member_tag"
    ev.require ev.sig.isSome "sig"
    ev.forbid ev.sid.isSome "sid"
    ev.forbid ev.cid.isSome "cid"
    ev.forbid ev.did.isSome "did"
    ev.forbid ev.pid.isSome "pid"
  | keyRotate => do
    ev.require group "enc_scheme=4"
    ev.require ev.memberSealed.isSome "member_sealed"
    ev.require ev.matchTag.isSome "match_tag"
    ev.require ev.keyEpoch.isSome "key_epoch"
    ev.forbid ev.sid.isSome "sid"
    ev.forbid ev.cid.isSome "cid"
  | sealedEvent => do
    ev.require group "enc_scheme=4"
    ev.require ev.encT.isSome "enc_t"
    ev.forbid ev.sid.isSome "sid"
    ev.forbid ev.cid.isSome "cid"
    ev.forbid ev.did.isSome "did"
    ev.forbid ev.pid.isSome "pid"
  | reserved _ => .error (.opaqueEventType ev.t)

end ParsedKommsEvent

/-- Per-version structural validation. -/
def validateEvent (ev : ParsedKommsEvent) : Except ValidationError Unit := do
  ev.validateGeneric
  ev.validateType ev.groupEncrypted

/-- A `ref` is tagged, and carries a UTF-8 content id or a 32-byte hash. -/
inductive WellFormedRef : Bytes → Prop where
  | contentId {body : Bytes} (nonempty : body ≠ []) (text : (fromUtf8 body).isSome) :
      WellFormedRef (0x01 :: body)
  | contentHash {body : Bytes} (length : body.length = 32) : WellFormedRef (0x02 :: body)

theorem validateRef_eq_ok {r : Bytes} : validateRef r = .ok () ↔ WellFormedRef r := by
  constructor
  · intro h
    simp only [validateRef] at h
    split at h
    · cases h
    · rename_i tag body
      split_ifs at h with hid hhash
      · subst hid
        obtain ⟨hne, htext⟩ := not_or.mp (Except.failIf_eq_ok.mp h)
        exact .contentId hne (Option.isSome_iff_ne_none.mpr htext)
      · subst hhash
        have hlength := not_not.mp (Except.failIf_eq_ok.mp h)
        rw [List.length_cons] at hlength
        exact .contentHash (by omega)
  · intro h
    cases h with
    | contentId hne htext =>
        exact Except.failIf_eq_ok.mpr (not_or.mpr ⟨hne, Option.isSome_iff_ne_none.mp htext⟩)
    | contentHash hlength =>
        refine Except.failIf_eq_ok.mpr (not_not.mpr ?_)
        rw [List.length_cons]
        omega

theorem validateRoleByte_eq_ok {role : Option UInt8} :
    validateRoleByte role = .ok () ↔ ∀ r, role = some r → r ≤ roleMax := by
  cases role with
  | none => simp [validateRoleByte]
  | some r => simp [validateRoleByte]

theorem validateTargetBytes_eq_ok {target : Option VecU8} :
    validateTargetBytes target = .ok () ↔ ∀ b, target = some b → 2 ≤ b.1.length := by
  cases target with
  | none => simp [validateTargetBytes]
  | some b =>
      simp only [validateTargetBytes, Except.failIf_eq_ok, Nat.not_lt, Option.some.injEq,
        forall_eq']

/-- What every accepted event satisfies, whatever its type. -/
structure GenericRules (ev : ParsedKommsEvent) : Prop where
  version : ev.v ≤ maxKnownVersion
  onChain : ev.t.asU8 ≠ 21 ∧ ev.t.asU8 ≠ 22
  ref : ∀ r, ev.refBytes = some r → WellFormedRef r.1
  refType : ∀ r rt, ev.refBytes = some r → ev.refType = some rt →
    rt ≤ 0xFF ∧ r.1.head? = some rt.toUInt8
  mime : ∀ m, ev.mime = some m → utf8 m ≠ [] ∧ (utf8 m).length ≤ 64 ∧ isAscii (utf8 m)
  reactionKey : ∀ rk, ev.reactionKey = some rk → rk.1 ≠ [] ∧ rk.1.length ≤ 32
  posture : 1 ≤ ev.v → ∃ scheme, ev.encScheme = some scheme ∧ (scheme ≠ 0 ↔ ev.enc = true) ∧
    (scheme = 0 ∨ scheme = 1 ∨ scheme = 3 ∨ scheme = 4)
  replay : 1 ≤ ev.v → ev.ts ≠ none ∧ ev.n ≠ none
  unsealed : ev.sigScheme ≠ some 1 ∧ ev.sealedSigner = none
  envelope : ev.encScheme = some 4 → ev.matchTag ≠ none ∧ ev.keyEpoch ≠ none ∧
    (ev.hasEncCounterpart ∨ ev.isSealedMemberEvent)

namespace ParsedKommsEvent

variable {ev : ParsedKommsEvent}

theorem checkRef_eq_ok : ev.checkRef = .ok () ↔ ∀ r, ev.refBytes = some r →
    WellFormedRef r.1 ∧ ∀ rt, ev.refType = some rt →
      rt ≤ 0xFF ∧ r.1.head? = some rt.toUInt8 := by
  simp only [checkRef]
  cases ev.refBytes with
  | none => simp
  | some r =>
      simp only [Except.check_bind_eq_ok, validateRef_eq_ok, Option.some.injEq, forall_eq']
      cases ev.refType with
      | none => simp
      | some rt => simp [not_or]

theorem checkMime_eq_ok : ev.checkMime = .ok () ↔ ∀ m, ev.mime = some m →
    utf8 m ≠ [] ∧ (utf8 m).length ≤ 64 ∧ isAscii (utf8 m) := by
  simp only [checkMime]
  cases ev.mime with
  | none => simp
  | some m => simp [not_or]

theorem checkReactionKey_eq_ok : ev.checkReactionKey = .ok () ↔ ∀ rk, ev.reactionKey = some rk →
    rk.1 ≠ [] ∧ rk.1.length ≤ 32 := by
  simp only [checkReactionKey]
  cases ev.reactionKey with
  | none => simp
  | some rk => simp [not_or]

theorem checkSchemeAllocated_eq_ok {scheme : UInt64} : checkSchemeAllocated scheme = .ok () ↔
    scheme = 0 ∨ scheme = 1 ∨ scheme = 3 ∨ scheme = 4 := by
  simp only [checkSchemeAllocated]
  split_ifs with h h2 <;> simp [h]

theorem checkV1_eq_ok : ev.checkV1 = .ok () ↔ (1 ≤ ev.v →
    (∃ scheme, ev.encScheme = some scheme ∧ (scheme ≠ 0 ↔ ev.enc = true) ∧
      (scheme = 0 ∨ scheme = 1 ∨ scheme = 3 ∨ scheme = 4)) ∧ ev.ts ≠ none ∧ ev.n ≠ none) := by
  simp only [checkV1, ge_iff_le]
  split_ifs with hv
  · cases ev.encScheme with
    | none =>
        refine iff_of_false (by simp) fun h => ?_
        obtain ⟨⟨scheme, hscheme, -⟩, -⟩ := h hv
        cases hscheme
    | some scheme =>
        have hposture : ¬ decide (scheme ≠ 0) ≠ ev.enc ↔ (scheme ≠ 0 ↔ ev.enc = true) := by
          rw [not_not, ← Bool.coe_iff_coe, decide_eq_true_iff]
        simp only [Except.check_bind_eq_ok, Except.failIf_eq_ok, hposture,
          checkSchemeAllocated_eq_ok, Option.some.injEq, exists_eq_left', hv, forall_const,
          and_assoc, ne_eq]
  · simp [hv]

theorem checkGroupEnvelope_eq_ok : ev.checkGroupEnvelope = .ok () ↔ (ev.encScheme = some 4 →
    ev.matchTag ≠ none ∧ ev.keyEpoch ≠ none ∧
      (ev.hasEncCounterpart ∨ ev.isSealedMemberEvent)) := by
  simp only [checkGroupEnvelope, groupEncrypted, decide_eq_true_iff]
  split_ifs with h
  · simp only [Except.check_bind_eq_ok, Except.failIf_eq_ok, h, forall_const, ne_eq,
      Bool.and_eq_true, Bool.not_eq_true', not_and_or, Bool.not_eq_false]
  · simp [h]

theorem validateGeneric_eq_ok : ev.validateGeneric = .ok () ↔ GenericRules ev := by
  simp only [validateGeneric, checkVersion, checkEphemeral, checkSealedSender,
    Except.check_bind_eq_ok, Except.failIf_eq_ok, checkRef_eq_ok, checkMime_eq_ok,
    checkReactionKey_eq_ok, checkV1_eq_ok, checkGroupEnvelope_eq_ok, not_or, gt_iff_lt,
    UInt64.not_lt, Option.not_isSome_iff_eq_none]
  constructor
  · rintro ⟨hversion, hchain, href, hmime, hkey, hv1, hsealed, hgroup⟩
    exact ⟨hversion, hchain, fun r hr => (href r hr).1, fun r rt hr => (href r hr).2 rt, hmime,
      hkey, fun hv => (hv1 hv).1, fun hv => (hv1 hv).2, hsealed, hgroup⟩
  · intro h
    exact ⟨h.version, h.onChain, fun r hr => ⟨h.ref r hr, fun rt => h.refType r rt hr⟩, h.mime,
      h.reactionKey, fun hv => ⟨h.posture hv, h.replay hv⟩, h.unsealed, h.envelope⟩

@[simp] theorem require_eq_ok {cond : Bool} {field : String} :
    ev.require cond field = .ok () ↔ cond = true := by
  cases cond <;> simp [require]

@[simp] theorem forbid_eq_ok {present : Bool} {field : String} :
    ev.forbid present field = .ok () ↔ present = false := by
  cases present <;> simp [forbid]

section Reserved

variable {t : EventType}

theorem validateRef_ne_reserved {r : Bytes} : validateRef r ≠ .error (.opaqueEventType t) := by
  simp only [validateRef]
  split
  · simp
  · split_ifs
    · exact Except.failIf_ne_error (by simp)
    · exact Except.failIf_ne_error (by simp)
    · simp

theorem checkRef_ne_reserved : ev.checkRef ≠ .error (.opaqueEventType t) := by
  simp only [checkRef]
  split
  · simp
  · apply Except.check_bind_ne_error validateRef_ne_reserved
    split
    · simp
    · exact Except.failIf_ne_error (by simp)

theorem checkMime_ne_reserved : ev.checkMime ≠ .error (.opaqueEventType t) := by
  simp only [checkMime]
  split
  · simp
  · exact Except.failIf_ne_error (by simp)

theorem checkReactionKey_ne_reserved : ev.checkReactionKey ≠ .error (.opaqueEventType t) := by
  simp only [checkReactionKey]
  split
  · simp
  · exact Except.failIf_ne_error (by simp)

theorem checkSchemeAllocated_ne_reserved {scheme : UInt64} :
    checkSchemeAllocated scheme ≠ .error (.opaqueEventType t) := by
  simp only [checkSchemeAllocated]
  split_ifs <;> simp

theorem checkV1_ne_reserved : ev.checkV1 ≠ .error (.opaqueEventType t) := by
  simp only [checkV1]
  split_ifs
  · split
    · simp
    · apply Except.check_bind_ne_error (Except.failIf_ne_error (by simp))
      apply Except.check_bind_ne_error checkSchemeAllocated_ne_reserved
      apply Except.check_bind_ne_error (Except.failIf_ne_error (by simp))
      exact Except.failIf_ne_error (by simp)
  · simp

theorem checkGroupEnvelope_ne_reserved :
    ev.checkGroupEnvelope ≠ .error (.opaqueEventType t) := by
  simp only [checkGroupEnvelope]
  split_ifs
  · apply Except.check_bind_ne_error (Except.failIf_ne_error (by simp))
    apply Except.check_bind_ne_error (Except.failIf_ne_error (by simp))
    exact Except.failIf_ne_error (by simp)
  · simp

/-- The common checks never fail with the error of a reserved type. -/
theorem validateGeneric_ne_reserved : ev.validateGeneric ≠ .error (.opaqueEventType t) := by
  apply Except.check_bind_ne_error (Except.failIf_ne_error (by simp))
  apply Except.check_bind_ne_error (Except.failIf_ne_error (by simp))
  apply Except.check_bind_ne_error checkRef_ne_reserved
  apply Except.check_bind_ne_error checkMime_ne_reserved
  apply Except.check_bind_ne_error checkReactionKey_ne_reserved
  apply Except.check_bind_ne_error checkV1_ne_reserved
  apply Except.check_bind_ne_error (Except.failIf_ne_error (by simp))
  exact checkGroupEnvelope_ne_reserved

end Reserved

end ParsedKommsEvent

/-- An event is accepted when it keeps the common rules and those of its type. -/
theorem validateEvent_eq_ok {ev : ParsedKommsEvent} : validateEvent ev = .ok () ↔
    GenericRules ev ∧ ev.validateType ev.groupEncrypted = .ok () := by
  simp only [validateEvent, Except.check_bind_eq_ok, ParsedKommsEvent.validateGeneric_eq_ok]

/-- No accepted event has a reserved type. -/
theorem not_reserved_of_validateEvent {ev : ParsedKommsEvent} (h : validateEvent ev = .ok ())
    (n : UInt8) : ev.t ≠ .reserved n := by
  intro ht
  have htype := (validateEvent_eq_ok.mp h).2
  simp only [ParsedKommsEvent.validateType, ht] at htype
  cases htype

/-- The error of a reserved type says that the common rules hold and the type is reserved:
no other arm has it. -/
theorem validateEvent_eq_reserved_iff {ev : ParsedKommsEvent} {n : UInt8}
    (ht : ev.t = .reserved n) :
    (∃ t, validateEvent ev = .error (.opaqueEventType t)) ↔ GenericRules ev := by
  rw [← ParsedKommsEvent.validateGeneric_eq_ok]
  have htype : ev.validateType ev.groupEncrypted = .error (.opaqueEventType ev.t) := by
    simp only [ParsedKommsEvent.validateType, ht]
  constructor
  · intro h
    obtain ⟨t, h⟩ := h
    rcases Except.bind_eq_error.mp h with hgeneric | ⟨_, hgeneric, -⟩
    · exact absurd hgeneric ParsedKommsEvent.validateGeneric_ne_reserved
    · exact hgeneric
  · intro h
    exact ⟨ev.t, Except.bind_eq_error.mpr (.inr ⟨(), h, htype⟩)⟩

end Komms
