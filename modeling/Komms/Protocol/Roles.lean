import Komms.Protocol.Payload

/-!
# Role data

The parser clamps a `role` above 255 and leaves it to validation to refuse the result.
Only the arms of `roleAssign` and `roleRevoke` look at `role` and `target`: in a payload
of any other type the two are accepted as the sender wrote them, and a clamped role is
passed on.
-/

namespace Komms

open Cbor EventType

/-- The role under key 31 is allocated and is that of the event, and the target under
key 32 is a version byte and a payload. -/
structure RoleDataKept (es : List (Nat × Item)) (ev : ParsedKommsEvent) : Prop where
  role : ∀ r, (31, .uint r) ∈ es → r ≤ roleMax.toNat ∧ ev.role.map UInt8.toNat = some r
  target : ∀ i, (32, i) ∈ es → ∃ b, ev.target = some b ∧ 2 ≤ b.1.length

/-- What is under keys 31 and 32 is within the protocol as it is. -/
structure RoleDataInRange (es : List (Nat × Item)) : Prop where
  role : ∀ r, (31, .uint r) ∈ es → r ≤ roleMax.toNat
  target : ∀ b, (32, .bytes b) ∈ es → 2 ≤ b.length

/-- The map is that of a role assignment or revocation. -/
def ChangesRole (es : List (Nat × Item)) : Prop :=
  (1, .uint 12) ∈ es ∨ (1, .uint 13) ∈ es

/-- The two arms that look at role data keep it within the protocol. -/
theorem roleData_of_validateType {ev : ParsedKommsEvent} {group : Bool}
    (h : ev.validateType group = .ok ()) (ht : ev.t = roleAssign ∨ ev.t = roleRevoke) :
    (∀ r, ev.role = some r → r ≤ roleMax) ∧ ∀ b, ev.target = some b → 2 ≤ b.1.length := by
  rw [← validateRoleByte_eq_ok, ← validateTargetBytes_eq_ok]
  rcases ht with ht | ht
  · simp only [ParsedKommsEvent.validateType, ht, Except.check_bind_eq_ok] at h
    obtain ⟨-, -, -, hrole, htarget, -⟩ := h
    exact ⟨hrole, htarget⟩
  · simp only [ParsedKommsEvent.validateType, ht, Except.check_bind_eq_ok] at h
    obtain ⟨-, -, hrole, htarget, -⟩ := h
    refine ⟨?_, htarget⟩
    cases hsome : ev.role with
    | none => rfl
    | some r => simpa only [hsome, Option.isSome_some, if_true] using hrole

/-- A wire role stays as it is when it is clamped to a byte that is allocated. -/
theorem clampRole_le_roleMax {n : UInt64} (h : clampRole n ≤ roleMax) :
    (clampRole n).toNat = n.toNat := by
  rw [clampRole] at h ⊢
  split_ifs at h ⊢ with hn
  · exact absurd h (by decide)
  · rw [← UInt8.toNat_toUInt64, toUInt64_toUInt8 (UInt64.not_lt.mp hn)]

section

variable {es : List (Nat × Item)} {m : Fields} {ev : ParsedKommsEvent}
variable {scheme role : Option UInt64}

/-- On the fields: the wire role is clamped to itself, and is allocated. -/
theorem roleDataKept_of_fields (hcanonical : (Item.map es).Canonical) (hdec : Decodes es m)
    (h : Carries m ev scheme role)
    (hrole : ∀ r, ev.role = some r → r ≤ roleMax)
    (htarget : ∀ b, ev.target = some b → 2 ≤ b.1.length) : RoleDataKept es ev := by
  obtain ⟨-, -, hes⟩ := Item.canonical_map.mp hcanonical
  constructor
  · intro r hr
    have hlt : r < 2 ^ 64 := Item.canonical_uint.mp (hes _ hr).2
    have hnat : (UInt64.ofNat r).toNat = r := UInt64.toNat_ofNat_of_lt' hlt
    have hwire := (role_eq_some_iff hcanonical hdec h (UInt64.ofNat r)).mpr (hnat.symm ▸ hr)
    have hev : ev.role = some (clampRole (UInt64.ofNat r)) := by
      rw [h.role, hwire, Option.map_some]
    have hle := hrole _ hev
    have hclamp := clampRole_le_roleMax hle
    rw [hnat] at hclamp
    rw [UInt8.le_iff_toNat_le, hclamp] at hle
    refine ⟨hle, ?_⟩
    rw [hev, Option.map_some, hclamp]
  · intro i hi
    obtain ⟨v, hget, hval⟩ := hdec.get?_of_mem (k := 32) hi
    rw [carried_target h.rows] at hget
    obtain ⟨b, hb, -⟩ := Option.map_eq_some_iff.mp hget
    exact ⟨b, hb, htarget b hb⟩

/-- What is in range on the wire is so in the event. -/
theorem fields_of_inRange (hcanonical : (Item.map es).Canonical) (hdec : Decodes es m)
    (h : Carries m ev scheme role) (hrange : RoleDataInRange es) :
    (∀ r, ev.role = some r → r ≤ roleMax) ∧ ∀ b, ev.target = some b → 2 ≤ b.1.length := by
  constructor
  · intro r hr
    rw [h.role] at hr
    obtain ⟨n, hn, rfl⟩ := Option.map_eq_some_iff.mp hr
    have hle := hrange.role _ ((role_eq_some_iff hcanonical hdec h n).mp hn)
    have hbyte : n ≤ 255 := by
      rw [UInt64.le_iff_toNat_le]
      exact hle.trans (by decide)
    rw [clampRole, if_neg (UInt64.not_lt.mpr hbyte), UInt8.le_iff_toNat_le,
      ← UInt8.toNat_toUInt64, toUInt64_toUInt8 hbyte]
    exact hle
  · intro b hb
    exact hrange.target _ ((target_eq_some_iff hcanonical hdec h b).mp hb)

theorem inRange_of_kept (hcanonical : (Item.map es).Canonical) (hdec : Decodes es m)
    (h : Carries m ev scheme role) (hkept : RoleDataKept es ev) : RoleDataInRange es := by
  obtain ⟨-, -, hes⟩ := Item.canonical_map.mp hcanonical
  refine ⟨fun r hr => (hkept.role r hr).1, fun b hb => ?_⟩
  have hlt : b.length < 2 ^ 64 := Item.canonical_bytes.mp (hes _ hb).2
  have hev := (target_eq_some_iff hcanonical hdec h ⟨b, hlt⟩).mpr hb
  obtain ⟨b', hb', hlength⟩ := hkept.target _ hb
  obtain rfl := Option.some.inj (hev.symm.trans hb')
  exact hlength

end

/-- The role data of an accepted payload is within the protocol and that of the event
exactly when the payload changes a role, or has its role data in range already. -/
theorem roleDataKept_iff {c : Ciborium} (hc : c.Documented) {raw : Bytes} {ev : ParsedKommsEvent}
    (h : parseKommsPayload c raw = .ok ev) : (∃ es, PayloadMap raw es ∧ RoleDataKept es ev) ↔
      ∃ es, PayloadMap raw es ∧ (ChangesRole es ∨ RoleDataInRange es) := by
  obtain ⟨es, m, scheme, role, hraw, hdec, hcarries, hvalid⟩ := exists_of_parse hc h
  constructor
  · intro hkept
    obtain ⟨es', hraw', hkept⟩ := hkept
    obtain rfl := hraw.unique hraw'
    exact ⟨es, hraw, .inr (inRange_of_kept hraw.2.1 hdec hcarries hkept)⟩
  · intro hcond
    obtain ⟨es', hraw', hcond⟩ := hcond
    obtain rfl := hraw.unique hraw'
    have hfields : (∀ r, ev.role = some r → r ≤ roleMax) ∧
        ∀ b, ev.target = some b → 2 ≤ b.1.length := by
      rcases hcond with hchanges | hrange
      · have hassign := type_eq_iff (t := roleAssign) hraw.2.1 hdec hcarries rfl
        have hrevoke := type_eq_iff (t := roleRevoke) hraw.2.1 hdec hcarries rfl
        exact roleData_of_validateType (validateEvent_eq_ok.mp hvalid).2
          (hchanges.imp hassign.mpr hrevoke.mpr)
      · exact fields_of_inRange hraw.2.1 hdec hcarries hrange
    exact ⟨es, hraw, roleDataKept_of_fields hraw.2.1 hdec hcarries hfields.1 hfields.2⟩

/-- A v0 assignment of role 2. -/
def v0RoleAssign : Bytes :=
  kommsPayloadPrefix ++ [0xA6, 0x00, 0x00, 0x01, 0x0C, 0x02, 0x58, 0x20] ++
    List.replicate 32 0x11 ++ [0x08, 0xF4, 0x18, 0x1F, 0x02, 0x18, 0x20, 0x42, 0x01, 0x77]

/-- The entries of `v0RoleAssign`. -/
def v0RoleAssignEntries : List (Nat × Item) :=
  [(0, .uint 0), (1, .uint 12), (2, .bytes (List.replicate 32 0x11)), (8, .bool false),
    (31, .uint 2), (32, .bytes [0x01, 0x77])]

theorem roleDataKept_v0RoleAssign : ∃ ev, parseKommsPayload .reference v0RoleAssign = .ok ev ∧
    ∃ es, PayloadMap v0RoleAssign es ∧ RoleDataKept es ev := by
  obtain ⟨ev, hparse, -⟩ := Except.exists_ok_of_any
    (x := parseKommsPayload .reference v0RoleAssign) (p := fun _ => true) (by decide +kernel)
  refine ⟨ev, hparse, (roleDataKept_iff Ciborium.reference_documented hparse).mpr
    ⟨v0RoleAssignEntries, ⟨by decide +kernel, by decide +kernel, by decide +kernel⟩, .inl ?_⟩⟩
  simp [ChangesRole, v0RoleAssignEntries]

/-- A v0 bookmark with role 300 under key 31, and an empty target under key 32. -/
def v0BookmarkRole : Bytes :=
  kommsPayloadPrefix ++ [0xA6, 0x00, 0x00, 0x01, 0x13, 0x06, 0x58, 0x20] ++
    List.replicate 32 0x22 ++ [0x08, 0xF4, 0x18, 0x1F, 0x19, 0x01, 0x2C, 0x18, 0x20, 0x40]

/-- The entries of `v0BookmarkRole`. -/
def v0BookmarkRoleEntries : List (Nat × Item) :=
  v0BookmarkEntries ++ [(31, .uint 300), (32, .bytes [])]

/-- The bookmark is accepted, with the role rewritten to 255 and the target empty. -/
theorem v0BookmarkRole_rewritten : Ciborium.reference.Documented ∧
    ∃ ev, parseKommsPayload .reference v0BookmarkRole = .ok ev ∧
      ev.role = some 255 ∧ ev.target.map (·.1) = some [] ∧
      ¬ ∃ es, PayloadMap v0BookmarkRole es ∧ RoleDataKept es ev := by
  refine ⟨Ciborium.reference_documented, ?_⟩
  obtain ⟨ev, hparse, hrole, htarget⟩ := Except.exists_ok_of_decide
    (x := parseKommsPayload .reference v0BookmarkRole)
    (p := fun ev => ev.role = some 255 ∧ ev.target.map (·.1) = some []) (by decide +kernel)
  refine ⟨ev, hparse, hrole, htarget, fun hkept => ?_⟩
  obtain ⟨es, hraw, hkept⟩ := hkept
  have hentries : PayloadMap v0BookmarkRole v0BookmarkRoleEntries :=
    ⟨by decide +kernel, by decide +kernel, by decide +kernel⟩
  obtain rfl := hraw.unique hentries
  have hle := (hkept.role 300 (by simp [v0BookmarkRoleEntries])).1
  revert hle
  decide

end Komms
