import Komms.Protocol.Validate

/-!
# The rules of the event types

What an event has to carry beside the common rules, by its type. `TypeRules` has one
constructor for each arm of the match in `validateEvent`, and `validateType_eq_ok` says that
the arm accepts exactly the events that keep its rules.
-/

namespace Komms

open EventType

namespace ParsedKommsEvent

variable (ev : ParsedKommsEvent)

/-- The server is named, in the clear or under the group envelope. -/
def NamesServer : Prop := ev.sid ≠ none ∨ (ev.encScheme = some 4 ∧ ev.encSid ≠ none)

/-- The channel is named, in the clear or under the group envelope. -/
def NamesChannel : Prop := ev.cid ≠ none ∨ (ev.encScheme = some 4 ∧ ev.encCid ≠ none)

/-- The content is referred to, in the clear or under the group envelope. -/
def NamesContent : Prop := ev.refBytes ≠ none ∨ (ev.encScheme = some 4 ∧ ev.encBodyRef ≠ none)

/-- The event is not encrypted, or it is under the group envelope. -/
def PlainOrEnveloped : Prop := ev.enc = true → ev.encScheme = some 4

/-- A target with a version byte and a payload. -/
def HasTarget : Prop := ∃ b, ev.target = some b ∧ 2 ≤ b.1.length

end ParsedKommsEvent

open ParsedKommsEvent

/-- The rules of a type. No event of a reserved type keeps any. -/
inductive TypeRules (ev : ParsedKommsEvent) : Prop where
  | server (type : ev.t = serverCreate ∨ ev.t = serverUpdate) (sid : ev.NamesServer)
      (cid : ev.cid = none ∧ ev.encCid = none) (did : ev.did = none) (enc : ev.PlainOrEnveloped)
  | channel (type : ev.t = channelCreate ∨ ev.t = channelUpdate) (sid : ev.NamesServer)
      (cid : ev.NamesChannel) (did : ev.did = none) (enc : ev.PlainOrEnveloped)
  | messagePost (type : ev.t = messagePost) (sid : ev.NamesServer) (cid : ev.NamesChannel)
      (ref : ev.NamesContent) (enc : ev.PlainOrEnveloped)
  | messageEdit (type : ev.t = messageEdit) (sid : ev.NamesServer) (cid : ev.NamesChannel)
      (mid : ev.mid ≠ none) (ref : ev.NamesContent) (enc : ev.PlainOrEnveloped)
  | messageDelete (type : ev.t = messageDelete) (sid : ev.NamesServer) (cid : ev.NamesChannel)
      (mid : ev.mid ≠ none) (enc : ev.PlainOrEnveloped)
  | dmMessagePost (type : ev.t = dmMessagePost) (did : ev.did ≠ none) (ref : ev.refBytes ≠ none)
      (enc : ev.enc = true) (sid : ev.sid = none ∧ ev.encSid = none)
      (cid : ev.cid = none ∧ ev.encCid = none)
  | reaction (type : ev.t = reactionAdd ∨ ev.t = reactionRemove) (sid : ev.NamesServer)
      (cid : ev.NamesChannel) (mid : ev.mid ≠ none)
      (key : ev.reactionKey ≠ none ∨ ev.refBytes ≠ none) (enc : ev.PlainOrEnveloped)
  | member (type : ev.t = memberJoin ∨ ev.t = memberLeave) (sid : ev.sid ≠ none)
      (pid : ev.pid ≠ none) (cid : ev.cid = none) (did : ev.did = none)
      (enc : ev.PlainOrEnveloped)
  | roleAssign (type : ev.t = roleAssign) (sid : ev.NamesServer) (target : ev.HasTarget)
      (role : ∃ r, ev.role = some r ∧ r ≤ roleMax) (enc : ev.PlainOrEnveloped)
  | roleRevoke (type : ev.t = roleRevoke) (sid : ev.NamesServer) (target : ev.HasTarget)
      (role : ∀ r, ev.role = some r → r ≤ roleMax) (enc : ev.PlainOrEnveloped)
  | moderationAction (type : ev.t = moderationAction) (sid : ev.NamesServer)
      (enc : ev.PlainOrEnveloped)
  | deviceRegister (type : ev.t = deviceRegister) (devicePk : ev.devicePk ≠ none)
      (sig : ev.sig ≠ none) (sigScheme : ev.sigScheme ≠ none) (enc : ev.PlainOrEnveloped)
  | deviceRevoke (type : ev.t = deviceRevoke) (devicePk : ev.devicePk ≠ none)
      (sig : ev.sig ≠ none) (enc : ev.PlainOrEnveloped)
  | pin (type : ev.t = pinMessage ∨ ev.t = unpinMessage) (sid : ev.NamesServer)
      (cid : ev.NamesChannel) (mid : ev.mid ≠ none) (enc : ev.PlainOrEnveloped)
  | bookmark (type : ev.t = bookmarkAdd ∨ ev.t = bookmarkRemove) (mid : ev.mid ≠ none)
      (enc : ev.PlainOrEnveloped)
  | sealedMemberJoin (type : ev.t = sealedMemberJoin) (group : ev.encScheme = some 4)
      (memberTag : ev.memberTag ≠ none) (memberSealed : ev.memberSealed ≠ none)
      (matchTag : ev.matchTag ≠ none) (keyEpoch : ev.keyEpoch ≠ none) (sid : ev.sid = none)
      (cid : ev.cid = none) (did : ev.did = none) (pid : ev.pid = none)
  | sealedMemberLeave (type : ev.t = sealedMemberLeave) (memberTag : ev.memberTag ≠ none)
      (sig : ev.sig ≠ none) (sid : ev.sid = none) (cid : ev.cid = none) (did : ev.did = none)
      (pid : ev.pid = none)
  | keyRotate (type : ev.t = keyRotate) (group : ev.encScheme = some 4)
      (memberSealed : ev.memberSealed ≠ none) (matchTag : ev.matchTag ≠ none)
      (keyEpoch : ev.keyEpoch ≠ none) (sid : ev.sid = none) (cid : ev.cid = none)
  | sealedEvent (type : ev.t = sealedEvent) (group : ev.encScheme = some 4)
      (encT : ev.encT ≠ none) (sid : ev.sid = none) (cid : ev.cid = none) (did : ev.did = none)
      (pid : ev.pid = none)

namespace ParsedKommsEvent

section Checks

variable {ev : ParsedKommsEvent} {α β : Type} {x : Option α} {y : Option β} {field : String}

theorem groupEncrypted_eq_true : ev.groupEncrypted = true ↔ ev.encScheme = some 4 :=
  decide_eq_true_iff

theorem require_group : ev.require ev.groupEncrypted field = .ok () ↔ ev.encScheme = some 4 :=
  require_eq_ok.trans groupEncrypted_eq_true

theorem require_enc : ev.require ev.enc field = .ok () ↔ ev.enc = true := require_eq_ok

theorem require_present : ev.require x.isSome field = .ok () ↔ x ≠ none :=
  require_eq_ok.trans Option.isSome_iff_ne_none

/-- A field, or its counterpart under the group envelope. -/
theorem require_named : ev.require (x.isSome || (ev.groupEncrypted && y.isSome)) field = .ok () ↔
    x ≠ none ∨ (ev.encScheme = some 4 ∧ y ≠ none) := by
  rw [require_eq_ok, Bool.or_eq_true, Bool.and_eq_true, groupEncrypted_eq_true,
    Option.isSome_iff_ne_none, Option.isSome_iff_ne_none]

theorem require_sid : ev.require (ev.sid.isSome || (ev.groupEncrypted && ev.encSid.isSome)) field =
    .ok () ↔ ev.NamesServer := require_named

theorem require_cid : ev.require (ev.cid.isSome || (ev.groupEncrypted && ev.encCid.isSome)) field =
    .ok () ↔ ev.NamesChannel := require_named

theorem require_ref :
    ev.require (ev.refBytes.isSome || (ev.groupEncrypted && ev.encBodyRef.isSome)) field =
      .ok () ↔ ev.NamesContent := require_named

theorem forbid_present : ev.forbid x.isSome field = .ok () ↔ x = none := by
  rw [forbid_eq_ok, Option.isSome_eq_false_iff, Option.isNone_iff_eq_none]

theorem forbid_either : ev.forbid (x.isSome || y.isSome) field = .ok () ↔
    x = none ∧ y = none := by
  rw [forbid_eq_ok, Bool.or_eq_false_iff, Option.isSome_eq_false_iff, Option.isSome_eq_false_iff,
    Option.isNone_iff_eq_none, Option.isNone_iff_eq_none]

theorem plainOrEnveloped_iff :
    (ev.enc && !ev.groupEncrypted) = false ↔ ev.PlainOrEnveloped := by
  rw [PlainOrEnveloped, ← groupEncrypted_eq_true]
  cases ev.enc <;> cases ev.groupEncrypted <;> decide

/-- Misused encryption is an error of a field in some arms, and one of its own in others. -/
theorem forbid_misuse : ev.forbid (ev.enc && !ev.groupEncrypted) field = .ok () ↔
    ev.PlainOrEnveloped :=
  forbid_eq_ok.trans plainOrEnveloped_iff

theorem failIf_misuse {e : ValidationError} :
    Except.failIf ((ev.enc && !ev.groupEncrypted) = true) e = .ok () ↔ ev.PlainOrEnveloped := by
  rw [Except.failIf_eq_ok, Bool.not_eq_true, plainOrEnveloped_iff]

theorem failIf_neither {e : ValidationError} :
    Except.failIf (x = none ∧ y = none) e = .ok () ↔ x ≠ none ∨ y ≠ none := by
  rw [Except.failIf_eq_ok, not_and_or]

/-- A target that is there and is accepted. -/
theorem hasTarget_iff : ev.target ≠ none ∧ validateTargetBytes ev.target = .ok () ↔
    ev.HasTarget := by
  rw [validateTargetBytes_eq_ok, HasTarget, Option.ne_none_iff_exists']
  constructor
  · rintro ⟨⟨b, hb⟩, hlength⟩
    exact ⟨b, hb, hlength b hb⟩
  · rintro ⟨b, hb, hlength⟩
    exact ⟨⟨b, hb⟩, fun b' hb' => Option.some.inj (hb.symm.trans hb') ▸ hlength⟩

/-- A role that is there and is allocated. -/
theorem hasRole_iff : ev.role ≠ none ∧ validateRoleByte ev.role = .ok () ↔
    ∃ r, ev.role = some r ∧ r ≤ roleMax := by
  rw [validateRoleByte_eq_ok, Option.ne_none_iff_exists']
  constructor
  · rintro ⟨⟨r, hr⟩, hle⟩
    exact ⟨r, hr, hle r hr⟩
  · rintro ⟨r, hr, hle⟩
    exact ⟨⟨r, hr⟩, fun r' hr' => Option.some.inj (hr.symm.trans hr') ▸ hle⟩

theorem optionalRole_eq_ok :
    (if ev.role.isSome then validateRoleByte ev.role else .ok ()) = .ok () ↔
      ∀ r, ev.role = some r → r ≤ roleMax := by
  rw [← validateRoleByte_eq_ok]
  cases ev.role with
  | none => simp [validateRoleByte]
  | some r => simp

end Checks

variable {ev : ParsedKommsEvent}

/-- What an arm accepts keeps the rules of the arm. -/
theorem typeRules_of_validateType (h : ev.validateType ev.groupEncrypted = .ok ()) :
    TypeRules ev := by
  cases ht : ev.t <;>
    simp only [validateType, ht, Except.check_bind_eq_ok, require_group, require_enc,
      require_present, require_sid, require_cid, require_ref, forbid_present, forbid_either,
      forbid_misuse, failIf_misuse, failIf_neither, optionalRole_eq_ok] at h
  case serverCreate =>
    obtain ⟨hsid, hcid, hdid, henc⟩ := h
    exact .server (.inl ht) hsid hcid hdid henc
  case serverUpdate =>
    obtain ⟨hsid, hcid, hdid, henc⟩ := h
    exact .server (.inr ht) hsid hcid hdid henc
  case channelCreate =>
    obtain ⟨hsid, hcid, hdid, henc⟩ := h
    exact .channel (.inl ht) hsid hcid hdid henc
  case channelUpdate =>
    obtain ⟨hsid, hcid, hdid, henc⟩ := h
    exact .channel (.inr ht) hsid hcid hdid henc
  case messagePost =>
    obtain ⟨hsid, hcid, href, henc⟩ := h
    exact .messagePost ht hsid hcid href henc
  case messageEdit =>
    obtain ⟨hsid, hcid, hmid, href, henc⟩ := h
    exact .messageEdit ht hsid hcid hmid href henc
  case messageDelete =>
    obtain ⟨hsid, hcid, hmid, henc⟩ := h
    exact .messageDelete ht hsid hcid hmid henc
  case dmMessagePost =>
    obtain ⟨hdid, href, henc, hsid, hcid⟩ := h
    exact .dmMessagePost ht hdid href henc hsid hcid
  case reactionAdd =>
    obtain ⟨hsid, hcid, hmid, hkey, henc⟩ := h
    exact .reaction (.inl ht) hsid hcid hmid hkey henc
  case reactionRemove =>
    obtain ⟨hsid, hcid, hmid, hkey, henc⟩ := h
    exact .reaction (.inr ht) hsid hcid hmid hkey henc
  case memberJoin =>
    obtain ⟨hsid, hpid, hcid, hdid, henc⟩ := h
    exact .member (.inl ht) hsid hpid hcid hdid henc
  case memberLeave =>
    obtain ⟨hsid, hpid, hcid, hdid, henc⟩ := h
    exact .member (.inr ht) hsid hpid hcid hdid henc
  case roleAssign =>
    obtain ⟨hsid, htarget, hrole, hallocated, hlength, henc⟩ := h
    exact .roleAssign ht hsid (hasTarget_iff.mp ⟨htarget, hlength⟩)
      (hasRole_iff.mp ⟨hrole, hallocated⟩) henc
  case roleRevoke =>
    obtain ⟨hsid, htarget, hrole, hlength, henc⟩ := h
    exact .roleRevoke ht hsid (hasTarget_iff.mp ⟨htarget, hlength⟩) hrole henc
  case moderationAction =>
    exact .moderationAction ht h.1 h.2
  case deviceRegister =>
    obtain ⟨hpk, hsig, hscheme, henc⟩ := h
    exact .deviceRegister ht hpk hsig hscheme henc
  case deviceRevoke =>
    obtain ⟨hpk, hsig, henc⟩ := h
    exact .deviceRevoke ht hpk hsig henc
  case pinMessage =>
    obtain ⟨hsid, hcid, hmid, henc⟩ := h
    exact .pin (.inl ht) hsid hcid hmid henc
  case unpinMessage =>
    obtain ⟨hsid, hcid, hmid, henc⟩ := h
    exact .pin (.inr ht) hsid hcid hmid henc
  case bookmarkAdd =>
    exact .bookmark (.inl ht) h.1 h.2
  case bookmarkRemove =>
    exact .bookmark (.inr ht) h.1 h.2
  case sealedMemberJoin =>
    obtain ⟨hgroup, htag, hsealed, hmatch, hepoch, hsid, hcid, hdid, hpid⟩ := h
    exact .sealedMemberJoin ht hgroup htag hsealed hmatch hepoch hsid hcid hdid hpid
  case sealedMemberLeave =>
    obtain ⟨htag, hsig, hsid, hcid, hdid, hpid⟩ := h
    exact .sealedMemberLeave ht htag hsig hsid hcid hdid hpid
  case keyRotate =>
    obtain ⟨hgroup, hsealed, hmatch, hepoch, hsid, hcid⟩ := h
    exact .keyRotate ht hgroup hsealed hmatch hepoch hsid hcid
  case sealedEvent =>
    obtain ⟨hgroup, hencT, hsid, hcid, hdid, hpid⟩ := h
    exact .sealedEvent ht hgroup hencT hsid hcid hdid hpid
  case reserved => cases h

/-- The rules of a type are enough for its arm. -/
theorem validateType_of_typeRules (h : TypeRules ev) :
    ev.validateType ev.groupEncrypted = .ok () := by
  cases h with
  | roleAssign ht sid target role enc =>
      obtain ⟨htarget, hlength⟩ := hasTarget_iff.mpr target
      obtain ⟨hrole, hallocated⟩ := hasRole_iff.mpr role
      simp only [validateType, ht, Except.check_bind_eq_ok, require_sid, require_present,
        failIf_misuse]
      exact ⟨sid, htarget, hrole, hallocated, hlength, enc⟩
  | roleRevoke ht sid target role enc =>
      obtain ⟨htarget, hlength⟩ := hasTarget_iff.mpr target
      simp only [validateType, ht, Except.check_bind_eq_ok, require_sid, require_present,
        failIf_misuse, optionalRole_eq_ok]
      exact ⟨sid, htarget, role, hlength, enc⟩
  | dmMessagePost ht did ref enc sid cid =>
      simp only [validateType, ht, Except.check_bind_eq_ok, require_present, require_enc,
        forbid_either]
      exact ⟨did, ref, enc, sid, cid⟩
  | reaction type sid cid mid key enc =>
      rcases type with ht | ht <;>
        simp only [validateType, ht, Except.check_bind_eq_ok, require_present, require_sid,
          require_cid, failIf_neither, forbid_misuse] <;>
        exact ⟨sid, cid, mid, key, enc⟩
  | server type | channel type | member type | pin type | bookmark type =>
      rcases type with ht | ht <;>
        simp only [validateType, *, Except.check_bind_eq_ok, require_present, require_sid,
          require_cid, forbid_present, forbid_either, forbid_misuse, failIf_misuse, ne_eq,
          not_false_eq_true, and_self]
  | _ =>
      simp only [validateType, *, Except.check_bind_eq_ok, require_group, require_present,
        require_sid, require_cid, require_ref, forbid_present, forbid_misuse, ne_eq,
        not_false_eq_true, and_self]

theorem validateType_eq_ok : ev.validateType ev.groupEncrypted = .ok () ↔ TypeRules ev :=
  ⟨typeRules_of_validateType, validateType_of_typeRules⟩

end ParsedKommsEvent

end Komms
