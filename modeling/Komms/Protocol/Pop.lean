import Komms.Protocol.Wire
import Komms.Control.Except

/-!
# Popping the fields of an event

`popEvent` takes the core fields off the map one after another, and keeps what is
left from key 33 on as extension fields. The map that is popped from is the state
of the computation.

`Carries` says what the map then holds for the event, and `popEvent_eq_ok` that
this is all the computation does.
-/

namespace Komms

/-- The entries of the map by key. -/
abbrev Fields := SortedMap UInt8 Value

/-- A computation that pops entries off the map. -/
abbrev Pop := StateT Fields (Except ParseError)

def popRequired {α : Type} (kind : FieldKind α) (key : UInt8) (name : String) : Pop α :=
  fun fields =>
    match fields.get? key with
    | none => .error (.missingField name)
    | some val => do
      let a ← kind.read val
      .ok (a, fields.remove key)

def popOpt {α : Type} (kind : FieldKind α) (key : UInt8) : Pop (Option α) := fun fields =>
  match fields.get? key with
  | none => .ok (none, fields)
  | some val => do
    let a ← kind.read val
    .ok (some a, fields.remove key)

def popUint (key : UInt8) (name : String) : Pop UInt64 := popRequired (.uint name) key name

def popBool (key : UInt8) (name : String) : Pop Bool := popRequired (.bool name) key name

def popUintOpt (key : UInt8) (name : String) : Pop (Option UInt64) := popOpt (.uint name) key

def popTextOpt (key : UInt8) (name : String) : Pop (Option String) := popOpt (.text name) key

def popBytes (key : UInt8) (name : String) : Pop (Option VecU8) := popOpt (.bytes name) key

def popBytes16 (key : UInt8) (name : String) : Pop (Option Bytes16) :=
  popOpt (.bytes16 name) key

def popBytes32 (key : UInt8) (name : String) : Pop (Option Bytes32) :=
  popOpt (.bytes32 name) key

def popSig : Pop (Option Bytes64) := popOpt .sig 11

/-- `u8::try_from` on the event type, then its decoding. -/
def eventType (tRaw : UInt64) : Except ParseError EventType :=
  if tRaw ≤ 255 then .ok (.fromU8 tRaw.toUInt8) else .error (.eventTypeOverflow tRaw)

def popV0Fields : Pop V0Fields := do
  let v ← popUint 0 "v"
  let tRaw ← popUint 1 "t"
  let t ← eventType tRaw
  let enc ← popBool 8 "enc"
  let sid ← popBytes32 2 "sid"
  let cid ← popBytes32 3 "cid"
  let did ← popBytes32 4 "did"
  let pid ← popBytes32 5 "pid"
  let mid ← popBytes32 6 "mid"
  let refBytes ← popBytes 7 "ref"
  let ts ← popUintOpt 9 "ts"
  let n ← popUintOpt 10 "n"
  let sig ← popSig
  return { v, t, sid, cid, did, pid, mid, refBytes, enc, ts, n, sig }

/-- `enc_scheme` is still the one of the wire. -/
def popV1Fields : Pop V1Fields := do
  let parentMid ← popBytes32 12 "parent_mid"
  let encScheme ← popUintOpt 13 "enc_scheme"
  let kind ← popUintOpt 14 "kind"
  let mime ← popTextOpt 15 "mime"
  let refType ← popUintOpt 16 "ref_type"
  let devicePk ← popBytes32 17 "device_pk"
  let sigScheme ← popUintOpt 18 "sig_scheme"
  let reactionKey ← popBytes 19 "reaction_key"
  let paymentHint ← popBytes 20 "payment_hint"
  return {
    parentMid, encScheme, kind, mime, refType, devicePk, sigScheme, reactionKey, paymentHint }

/-- A v0 map without key 13 gets its `enc_scheme` from `enc`. -/
def synthEncScheme (v : UInt64) (enc : Bool) (encScheme : Option UInt64) : Option UInt64 :=
  if v = 0 ∧ encScheme = none then some (if enc then 1 else 0) else encScheme

def popV11Fields : Pop V11Fields := do
  let memberTag ← popBytes16 21 "member_tag"
  let memberSealed ← popBytes 22 "member_sealed"
  let encSid ← popBytes 23 "enc_sid"
  let encCid ← popBytes 24 "enc_cid"
  let encBodyRef ← popBytes 25 "enc_body_ref"
  let encParentMid ← popBytes 26 "enc_parent_mid"
  let matchTag ← popBytes16 27 "match_tag"
  let encT ← popBytes 28 "enc_t"
  let keyEpoch ← popUintOpt 29 "key_epoch"
  let sealedSigner ← popBytes 30 "sealed_signer"
  return {
    memberTag, memberSealed, encSid, encCid, encBodyRef, encParentMid, matchTag, encT, keyEpoch,
    sealedSigner }

/-- Values outside `0..=255` saturate. -/
def clampRole (v : UInt64) : UInt8 := if v > 255 then 255 else v.toUInt8

def popRoleFields : Pop RoleFields := do
  let role ← popUintOpt 31 "role"
  let target ← popBytes 32 "target"
  return { role := role.map clampRole, target }

/-- The loop that moves the extension keys over. -/
def moveKeys : List UInt8 → SortedMap UInt8 Value → Pop (SortedMap UInt8 Value)
  | [], extensionFields => return extensionFields
  | key :: keys, extensionFields => fun fields =>
    match fields.get? key with
    | none => moveKeys keys extensionFields fields
    | some val => moveKeys keys (extensionFields.insert key val) (fields.remove key)

def popExtensionFields : Pop (SortedMap UInt8 Value) := fun fields =>
  let extensionKeys := (fields.atLeast extensionKeyMin).entries.map Prod.fst
  moveKeys extensionKeys .empty fields

/-- Anything left over is a core key that is not allocated. -/
def checkEmpty : Pop Unit := fun fields =>
  match fields.entries with
  | [] => .ok ((), fields)
  | (remaining, _) :: _ => .error (.reservedCoreKey remaining)

def popEvent : Pop ParsedKommsEvent := do
  let v0 ← popV0Fields
  let v1 ← popV1Fields
  let encScheme := synthEncScheme v0.v v0.enc v1.encScheme
  let v11 ← popV11Fields
  let role ← popRoleFields
  let extensionFields ← popExtensionFields
  checkEmpty
  return { v0, v1, v11, role with encScheme, extensionFields }

/-- The map holds exactly these fields at these keys. -/
def Carried (m : Fields) (rows : List (UInt8 × Option Value)) : Prop :=
  ∀ row ∈ rows, m.get? row.1 = row.2

section

variable {α β : Type} {kind : FieldKind α} {key : UInt8} {name : String} {m m' : Fields}

theorem run_bind_eq_ok {x : Pop α} {f : α → Pop β} {r : β × Fields} :
    (x >>= f).run m = .ok r ↔ ∃ a m', x.run m = .ok (a, m') ∧ (f a).run m' = .ok r := by
  rw [StateT.run_bind, Except.bind_eq_ok, Prod.exists]

theorem popRequired_bind_eq_ok {f : α → Pop β} {r : β × Fields} :
    (popRequired kind key name >>= f).run m = .ok r ↔
      ∃ a, m.get? key = some (kind.write a) ∧ (f a).run (m.remove key) = .ok r := by
  rw [StateT.run_bind]
  simp only [popRequired, StateT.run]
  cases hget : m.get? key with
  | none => simp
  | some val =>
      simp only [Except.bind_eq_ok, kind.read_eq_ok, Option.some.injEq, Except.ok.injEq]
      constructor
      · intro h
        obtain ⟨_, ⟨a, hval, rfl⟩, hrest⟩ := h
        exact ⟨a, hval, hrest⟩
      · intro h
        obtain ⟨a, hval, hrest⟩ := h
        exact ⟨_, ⟨a, hval, rfl⟩, hrest⟩

theorem popOpt_bind_eq_ok {f : Option α → Pop β} {r : β × Fields} :
    (popOpt kind key >>= f).run m = .ok r ↔
      ∃ x, m.get? key = x.map kind.write ∧ (f x).run (m.remove key) = .ok r := by
  rw [StateT.run_bind]
  simp only [popOpt, StateT.run]
  cases hget : m.get? key with
  | none =>
      rw [SortedMap.remove_of_get?_eq_none hget]
      constructor
      · intro h
        exact ⟨none, rfl, h⟩
      · intro h
        obtain ⟨x, hx, hrest⟩ := h
        obtain rfl := Option.map_eq_none_iff.mp hx.symm
        exact hrest
  | some val =>
      simp only [Except.bind_eq_ok, kind.read_eq_ok, Except.ok.injEq]
      constructor
      · intro h
        obtain ⟨_, ⟨a, rfl, rfl⟩, hrest⟩ := h
        exact ⟨some a, rfl, hrest⟩
      · intro h
        obtain ⟨x, hx, hrest⟩ := h
        obtain ⟨a, rfl, hval⟩ := Option.map_eq_some_iff.mp hx.symm
        exact ⟨_, ⟨a, hval.symm, rfl⟩, hrest⟩

theorem lift_bind_eq_ok {x : Except ParseError α} {f : α → Pop β} {r : β × Fields} :
    ((liftM x : Pop α) >>= f).run m = .ok r ↔ ∃ a, x = .ok a ∧ (f a).run m = .ok r := by
  cases x with
  | error e =>
      constructor
      · intro h
        cases h
      · intro h
        obtain ⟨_, h, -⟩ := h
        cases h
  | ok a =>
      constructor
      · intro h
        exact ⟨a, rfl, h⟩
      · intro h
        obtain ⟨_, ha, hf⟩ := h
        cases ha
        exact hf

end

theorem eventType_eq_ok {tRaw : UInt64} {t : EventType} :
    eventType tRaw = .ok t ↔ tRaw = t.asU8.toUInt64 ∧ .fromU8 t.asU8 = t := by
  simp only [eventType]
  split_ifs with h
  · constructor
    · intro ht
      obtain rfl := Except.ok.inj ht
      simp [toUInt64_toUInt8 h]
    · intro ht
      obtain ⟨rfl, hcode⟩ := ht
      rw [UInt8.toUInt8_toUInt64, hcode]
  · exact iff_of_false (by simp) fun ht => h (ht.1 ▸ toUInt64_le t.asU8)

def V0Fields.keys : List UInt8 := [0, 1, 8, 2, 3, 4, 5, 6, 7, 9, 10, 11]

def V1Fields.keys : List UInt8 := [12, 13, 14, 15, 16, 17, 18, 19, 20]

def V11Fields.keys : List UInt8 := [21, 22, 23, 24, 25, 26, 27, 28, 29, 30]

def RoleFields.keys : List UInt8 := [31, 32]

/-- The core keys in the order in which they are popped. -/
def coreKeys : List UInt8 :=
  V0Fields.keys ++ (V1Fields.keys ++ (V11Fields.keys ++ RoleFields.keys))

theorem popV0Fields_eq_ok {m m' : Fields} {f : V0Fields} :
    popV0Fields.run m = .ok (f, m') ↔ Carried m f.rows ∧ .fromU8 f.t.asU8 = f.t ∧
      m' = m.removeAll V0Fields.keys := by
  simp (disch := decide) only [popV0Fields, popUint, popBool, popBytes32, popBytes, popUintOpt,
    popSig, popRequired_bind_eq_ok, popOpt_bind_eq_ok, lift_bind_eq_ok, eventType_eq_ok,
    SortedMap.get?_remove_of_ne, FieldKind.uint_write, FieldKind.bool_write,
    FieldKind.bytes_write, FieldKind.bytes32_write, FieldKind.sig_write, Carried, V0Fields.rows,
    List.forall_mem_cons]
  constructor
  · intro h
    obtain ⟨v, hv, tRaw, ht, t, ⟨rfl, hcode⟩, enc, henc, sid, hsid, cid, hcid, did, hdid, pid,
      hpid, mid, hmid, ref, href, ts, hts, n, hn, sig, hsig, hpure⟩ := h
    obtain ⟨rfl, rfl⟩ := Prod.mk.inj (Except.ok.inj hpure)
    exact ⟨⟨hv, ht, hsid, hcid, hdid, hpid, hmid, href, henc, hts, hn, hsig,
      List.forall_mem_nil _⟩, hcode, rfl⟩
  · intro h
    obtain ⟨⟨hv, ht, hsid, hcid, hdid, hpid, hmid, href, henc, hts, hn, hsig, -⟩, hcode, rfl⟩ := h
    exact ⟨_, hv, _, ht, _, ⟨rfl, hcode⟩, _, henc, _, hsid, _, hcid, _, hdid, _, hpid, _, hmid,
      _, href, _, hts, _, hn, _, hsig, rfl⟩

theorem popV1Fields_eq_ok {m m' : Fields} {f : V1Fields} :
    popV1Fields.run m = .ok (f, m') ↔ Carried m (f.rows f.encScheme) ∧
      m' = m.removeAll V1Fields.keys := by
  simp (disch := decide) only [popV1Fields, popBytes32, popBytes, popUintOpt, popTextOpt,
    popOpt_bind_eq_ok, SortedMap.get?_remove_of_ne, FieldKind.uint_write, FieldKind.bytes_write,
    FieldKind.bytes32_write, FieldKind.text_write, Carried, V1Fields.rows, List.forall_mem_cons]
  constructor
  · intro h
    obtain ⟨parentMid, hparent, encScheme, hscheme, kind, hkind, mime, hmime, refType, htype,
      devicePk, hpk, sigScheme, hsig, reactionKey, hkey, paymentHint, hhint, hpure⟩ := h
    obtain ⟨rfl, rfl⟩ := Prod.mk.inj (Except.ok.inj hpure)
    exact ⟨⟨hparent, hscheme, hkind, hmime, htype, hpk, hsig, hkey, hhint,
      List.forall_mem_nil _⟩, rfl⟩
  · intro h
    obtain ⟨⟨hparent, hscheme, hkind, hmime, htype, hpk, hsig, hkey, hhint, -⟩, rfl⟩ := h
    exact ⟨_, hparent, _, hscheme, _, hkind, _, hmime, _, htype, _, hpk, _, hsig, _, hkey, _,
      hhint, rfl⟩

theorem popV11Fields_eq_ok {m m' : Fields} {f : V11Fields} :
    popV11Fields.run m = .ok (f, m') ↔ Carried m f.rows ∧
      m' = m.removeAll V11Fields.keys := by
  simp (disch := decide) only [popV11Fields, popBytes16, popBytes, popUintOpt,
    popOpt_bind_eq_ok, SortedMap.get?_remove_of_ne, FieldKind.uint_write, FieldKind.bytes_write,
    FieldKind.bytes16_write, Carried, V11Fields.rows, List.forall_mem_cons]
  constructor
  · intro h
    obtain ⟨memberTag, htag, memberSealed, hsealed, encSid, hsid, encCid, hcid, encBodyRef, hbody,
      encParentMid, hparent, matchTag, hmatch, encT, ht, keyEpoch, hepoch, sealedSigner, hsigner,
      hpure⟩ := h
    obtain ⟨rfl, rfl⟩ := Prod.mk.inj (Except.ok.inj hpure)
    exact ⟨⟨htag, hsealed, hsid, hcid, hbody, hparent, hmatch, ht, hepoch, hsigner,
      List.forall_mem_nil _⟩, rfl⟩
  · intro h
    obtain ⟨⟨htag, hsealed, hsid, hcid, hbody, hparent, hmatch, ht, hepoch, hsigner, -⟩, rfl⟩ := h
    exact ⟨_, htag, _, hsealed, _, hsid, _, hcid, _, hbody, _, hparent, _, hmatch, _, ht, _,
      hepoch, _, hsigner, rfl⟩

theorem popRoleFields_eq_ok {m m' : Fields} {f : RoleFields} :
    popRoleFields.run m = .ok (f, m') ↔
      (∃ role, Carried m (f.rows role) ∧ f.role = role.map clampRole) ∧
        m' = m.removeAll RoleFields.keys := by
  simp (disch := decide) only [popRoleFields, popBytes, popUintOpt, popOpt_bind_eq_ok,
    SortedMap.get?_remove_of_ne, FieldKind.uint_write, FieldKind.bytes_write, Carried,
    RoleFields.rows, List.forall_mem_cons]
  constructor
  · intro h
    obtain ⟨role, hrole, target, htarget, hpure⟩ := h
    obtain ⟨rfl, rfl⟩ := Prod.mk.inj (Except.ok.inj hpure)
    exact ⟨⟨role, ⟨hrole, htarget, List.forall_mem_nil _⟩, rfl⟩, rfl⟩
  · intro h
    obtain ⟨⟨role, ⟨hrole, htarget, -⟩, hclamp⟩, rfl⟩ := h
    obtain ⟨_, target⟩ := f
    subst hclamp
    exact ⟨role, hrole, target, htarget, rfl⟩

/-- Each key that is moved over keeps its value, and is gone from the map. -/
theorem moveKeys_run {keys : List UInt8} {ext : SortedMap UInt8 Value} {m : Fields} :
    ∃ ext', (moveKeys keys ext).run m = .ok (ext', m.removeAll keys) ∧
      ∀ k, ext'.get? k = if k ∈ keys ∧ m.get? k ≠ none then m.get? k else ext.get? k := by
  induction keys generalizing ext m with
  | nil => exact ⟨ext, rfl, by simp⟩
  | cons key keys ih =>
      simp only [moveKeys, StateT.run]
      cases hget : m.get? key with
      | none =>
          obtain ⟨ext', hrun, hext⟩ := @ih ext m
          refine ⟨ext', ?_, fun k => ?_⟩
          · rw [SortedMap.removeAll, List.foldl_cons, SortedMap.remove_of_get?_eq_none hget]
            exact hrun
          · rw [hext k]
            by_cases hk : k = key
            · subst hk
              simp [hget]
            · simp [hk]
      | some val =>
          obtain ⟨ext', hrun, hext⟩ := @ih (ext.insert key val) (m.remove key)
          refine ⟨ext', hrun, fun k => ?_⟩
          rw [hext k, SortedMap.get?_remove, SortedMap.get?_insert]
          by_cases hk : k = key
          · subst hk
            simp [hget]
          · simp [hk]

theorem popExtensionFields_eq_ok {m m' : Fields} {ext : SortedMap UInt8 Value} :
    popExtensionFields.run m = .ok (ext, m') ↔
      ext = m.atLeast extensionKeyMin ∧ m' = m.below extensionKeyMin := by
  obtain ⟨ext', hrun, hext⟩ :=
    @moveKeys_run ((m.atLeast extensionKeyMin).entries.map Prod.fst) .empty m
  have hmem (k : UInt8) : k ∈ (m.atLeast extensionKeyMin).entries.map Prod.fst ↔
      extensionKeyMin ≤ k ∧ m.get? k ≠ none := by
    rw [SortedMap.mem_keys_iff, SortedMap.get?_atLeast, ne_eq, ite_eq_right_iff,
      Classical.not_imp]
  have hmoved : ext' = m.atLeast extensionKeyMin := by
    apply SortedMap.ext_get?
    intro k
    simp only [hext k, hmem, SortedMap.get?_atLeast]
    by_cases hk : extensionKeyMin ≤ k <;> cases hget : m.get? k <;> simp [hk]
  have hleft : m.removeAll ((m.atLeast extensionKeyMin).entries.map Prod.fst) =
      m.below extensionKeyMin := by
    apply SortedMap.ext_get?
    intro k
    simp only [SortedMap.get?_removeAll, hmem, SortedMap.get?_below]
    by_cases hk : extensionKeyMin ≤ k
    · cases hget : m.get? k <;> simp [hk, not_lt.mpr hk]
    · simp [hk, not_le.mp hk]
  have hpop : popExtensionFields.run m =
      .ok (m.atLeast extensionKeyMin, m.below extensionKeyMin) := by
    rw [← hmoved, ← hleft]
    exact hrun
  rw [hpop, Except.ok.injEq, Prod.mk.injEq, eq_comm, @eq_comm _ m']

theorem checkEmpty_eq_ok {m m' : Fields} {u : Unit} :
    checkEmpty.run m = .ok (u, m') ↔ m = .empty ∧ m' = .empty := by
  obtain ⟨entries, hsorted⟩ := m
  cases entries with
  | nil =>
      refine ⟨fun h => ⟨rfl, ?_⟩, fun h => by rw [h.2]; rfl⟩
      exact (Prod.mk.inj (Except.ok.inj h)).2.symm
  | cons e entries =>
      refine iff_of_false (fun h => by cases h) fun h => ?_
      have hentries := congrArg SortedMap.entries h.1
      cases hentries

theorem carried_removeAll {m : Fields} {rows : List (UInt8 × Option Value)} {ks : List UInt8}
    (h : ∀ row ∈ rows, row.1 ∉ ks) : Carried (m.removeAll ks) rows ↔ Carried m rows := by
  refine forall₂_congr fun row hrow => ?_
  rw [SortedMap.get?_removeAll, if_neg (h row hrow)]

theorem carried_append {m : Fields} {rows rows' : List (UInt8 × Option Value)} :
    Carried m (rows ++ rows') ↔ Carried m rows ∧ Carried m rows' := List.forall_mem_append

/-- The core keys are those below the extension range. -/
theorem mem_coreKeys_iff {k : UInt8} : k ∈ coreKeys ↔ k < extensionKeyMin := by
  constructor
  · have hall : ∀ k ∈ coreKeys, k < extensionKeyMin := by decide +kernel
    exact hall k
  · intro h
    have hall : ∀ n < 33, UInt8.ofNat n ∈ coreKeys := by decide
    have hk := hall k.toNat (UInt8.lt_iff_toNat_lt.mp h)
    rwa [UInt8.ofNat_toNat] at hk

theorem atLeast_removeAll_coreKeys (m : Fields) :
    (m.removeAll coreKeys).atLeast extensionKeyMin = m.atLeast extensionKeyMin := by
  apply SortedMap.ext_get?
  intro k
  simp only [SortedMap.get?_atLeast, SortedMap.get?_removeAll, mem_coreKeys_iff]
  by_cases hk : extensionKeyMin ≤ k
  · simp [hk, not_lt.mpr hk]
  · simp [hk]

theorem below_removeAll_coreKeys (m : Fields) :
    (m.removeAll coreKeys).below extensionKeyMin = .empty := by
  apply SortedMap.ext_get?
  intro k
  simp only [SortedMap.get?_below, SortedMap.get?_removeAll, mem_coreKeys_iff]
  by_cases hk : k < extensionKeyMin <;> simp [hk]

/-- The map holds the fields of the event, where `scheme` and `role` are the values
of keys 13 and 31. -/
structure Carries (m : Fields) (ev : ParsedKommsEvent) (scheme role : Option UInt64) : Prop where
  rows : Carried m (ev.rows scheme role)
  code : .fromU8 ev.t.asU8 = ev.t
  encScheme : ev.encScheme = synthEncScheme ev.v ev.enc scheme
  role : ev.role = role.map clampRole
  extensionFields : ev.extensionFields = m.atLeast extensionKeyMin

theorem carried_rows_iff {m : Fields} {ev : ParsedKommsEvent} {scheme role : Option UInt64} :
    Carried m (ev.rows scheme role) ↔
      Carried m ev.toV0Fields.rows ∧ Carried m (ev.toV1Fields.rows scheme) ∧
        Carried m ev.toV11Fields.rows ∧ Carried m (ev.toRoleFields.rows role) := by
  rw [ParsedKommsEvent.rows, carried_append, carried_append, carried_append]

section

variable {m : Fields}

theorem carried_v1_iff {f : V1Fields} {scheme : Option UInt64} :
    Carried (m.removeAll V0Fields.keys) (f.rows scheme) ↔ Carried m (f.rows scheme) := by
  apply carried_removeAll
  simp only [V1Fields.rows, List.forall_mem_cons]
  decide

theorem carried_v11_iff {f : V11Fields} :
    Carried ((m.removeAll V0Fields.keys).removeAll V1Fields.keys) f.rows ↔ Carried m f.rows := by
  rw [← SortedMap.removeAll_append]
  apply carried_removeAll
  simp only [V11Fields.rows, List.forall_mem_cons]
  decide

theorem carried_role_iff {f : RoleFields} {role : Option UInt64} :
    Carried (((m.removeAll V0Fields.keys).removeAll V1Fields.keys).removeAll V11Fields.keys)
      (f.rows role) ↔ Carried m (f.rows role) := by
  rw [← SortedMap.removeAll_append, ← SortedMap.removeAll_append]
  apply carried_removeAll
  simp only [RoleFields.rows, List.forall_mem_cons]
  decide

theorem removeAll_coreKeys : (((m.removeAll V0Fields.keys).removeAll V1Fields.keys).removeAll
    V11Fields.keys).removeAll RoleFields.keys = m.removeAll coreKeys := by
  simp only [coreKeys, SortedMap.removeAll_append]

end

/-- Popping an event succeeds exactly on the maps that carry it, and leaves nothing. -/
theorem popEvent_eq_ok {m m' : Fields} {ev : ParsedKommsEvent} :
    popEvent.run m = .ok (ev, m') ↔ (∃ scheme role, Carries m ev scheme role) ∧ m' = .empty := by
  simp only [popEvent, run_bind_eq_ok, popV0Fields_eq_ok, popV1Fields_eq_ok, popV11Fields_eq_ok,
    popRoleFields_eq_ok, popExtensionFields_eq_ok, checkEmpty_eq_ok]
  constructor
  · intro h
    obtain ⟨v0, _, ⟨hv0, hcode, rfl⟩, v1, _, ⟨hv1, rfl⟩, v11, _, ⟨hv11, rfl⟩, fields, _,
      ⟨⟨role, hrole, hclamp⟩, rfl⟩, ext, _, ⟨rfl, rfl⟩, _, _, ⟨-, rfl⟩, hpure⟩ := h
    obtain ⟨rfl, rfl⟩ := Prod.mk.inj (Except.ok.inj hpure)
    rw [carried_v1_iff] at hv1
    rw [carried_v11_iff] at hv11
    rw [carried_role_iff] at hrole
    refine ⟨⟨v1.encScheme, role, carried_rows_iff.mpr ⟨hv0, hv1, hv11, hrole⟩, hcode, rfl, hclamp,
      ?_⟩, rfl⟩
    rw [removeAll_coreKeys, atLeast_removeAll_coreKeys]
  · intro h
    obtain ⟨⟨scheme, role, h⟩, rfl⟩ := h
    obtain ⟨hv0, hv1, hv11, hrole⟩ := carried_rows_iff.mp h.rows
    refine ⟨ev.toV0Fields, _, ⟨hv0, h.code, rfl⟩, { ev.toV1Fields with encScheme := scheme }, _,
      ⟨carried_v1_iff.mpr hv1, rfl⟩, ev.toV11Fields, _, ⟨carried_v11_iff.mpr hv11, rfl⟩,
      ev.toRoleFields, _, ⟨⟨role, carried_role_iff.mpr hrole, h.role⟩, rfl⟩, _, _, ⟨rfl, rfl⟩,
      (), _, ⟨?_, rfl⟩, ?_⟩
    · rw [removeAll_coreKeys, below_removeAll_coreKeys]
    · rw [removeAll_coreKeys, atLeast_removeAll_coreKeys, ← h.extensionFields, ← h.encScheme]
      rfl

/-- The event that a map carries is unique. -/
theorem Carries.unique {m : Fields} {ev ev' : ParsedKommsEvent}
    {scheme role scheme' role' : Option UInt64} (h : Carries m ev scheme role)
    (h' : Carries m ev' scheme' role') : ev = ev' := by
  have hpop := popEvent_eq_ok.mpr ⟨⟨scheme, role, h⟩, rfl⟩
  have hpop' := popEvent_eq_ok.mpr ⟨⟨scheme', role', h'⟩, rfl⟩
  rw [hpop] at hpop'
  exact (Prod.mk.inj (Except.ok.inj hpop')).1

end Komms
