import Komms.Protocol.Payload

/-!
# Encryption posture of accepted payloads

A v1 event has its posture checked by validation. A v0 event has `enc_scheme` made
from `enc`, but only if its map has no key 13: one that has is accepted as it is, and
nothing compares it with `enc`.
-/

namespace Komms

open Cbor

/-- The scheme that `enc` stands for. -/
def schemeOf (enc : Bool) : UInt64 := if enc then 1 else 0

/-- The scheme is allocated, encrypts exactly when `enc` says so, and in v0 is the one
that `enc` stands for. -/
def Coherent (ev : ParsedKommsEvent) : Prop :=
  ∃ s, ev.encScheme = some s ∧ (s = 0 ∨ s = 1 ∨ s = 3 ∨ s = 4) ∧ (s ≠ 0 ↔ ev.enc = true) ∧
    (ev.v = 0 → s = schemeOf ev.enc)

/-- A v0 map that has key 13 has there what key 8 stands for. -/
def PostureInKey8 (es : List (Nat × Item)) : Prop :=
  (0, .uint 0) ∈ es → ∀ i, (13, i) ∈ es →
    ∃ enc, (8, .bool enc) ∈ es ∧ i = .uint (schemeOf enc).toNat

section

variable {ev : ParsedKommsEvent} {m : Fields} {es : List (Nat × Item)}
variable {scheme role : Option UInt64}

/-- The scheme of a v0 event is coherent when it is the one of `enc`. -/
theorem coherent_v0_iff (hv : ev.v = 0) : Coherent ev ↔ ev.encScheme = some (schemeOf ev.enc) := by
  constructor
  · intro h
    obtain ⟨s, hs, -, -, hzero⟩ := h
    rw [hs, hzero hv]
  · intro h
    refine ⟨_, h, ?_, ?_, fun _ => rfl⟩
    · cases ev.enc <;> simp [schemeOf]
    · cases ev.enc <;> simp [schemeOf]

theorem coherent_v1 (hrules : GenericRules ev) (hv : ev.v ≠ 0) : Coherent ev := by
  have hle : 1 ≤ ev.v := by
    rw [UInt64.le_iff_toNat_le]
    have hne : ev.v.toNat ≠ 0 := fun h => hv (UInt64.toNat_inj.mp h)
    exact Nat.one_le_iff_ne_zero.mpr hne
  obtain ⟨s, hs, hposture, hallocated⟩ := hrules.posture hle
  exact ⟨s, hs, hallocated, hposture, fun hzero => absurd hzero hv⟩

theorem encScheme_v0 (h : Carries m ev scheme role) (hv : ev.v = 0) :
    ev.encScheme = some (schemeOf ev.enc) ↔ scheme = none ∨ scheme = some (schemeOf ev.enc) := by
  rw [h.encScheme, synthEncScheme]
  cases scheme with
  | none => simp [hv, schemeOf]
  | some s => simp

/-- On the entries of the item: a v0 map has no key 13, or one that agrees with key 8. -/
theorem postureInKey8_iff (hcanonical : (Item.map es).Canonical) (hdec : Decodes es m)
    (h : Carries m ev scheme role) : PostureInKey8 es ↔
      (ev.v = 0 → scheme = none ∨ scheme = some (schemeOf ev.enc)) := by
  obtain ⟨-, -, hes⟩ := Item.canonical_map.mp hcanonical
  rw [v_eq_zero_iff hcanonical hdec h, PostureInKey8]
  refine forall_congr' fun _ => ?_
  have henc := (hdec.get?_eq_bool hcanonical).mp h.get?_enc
  have hget := carried_scheme h.rows
  cases scheme with
  | none =>
      have hnone := hdec.get?_eq_none_iff.mp hget
      exact ⟨fun _ => .inl rfl, fun _ i hi => absurd hi (hnone i)⟩
  | some s =>
      have hmem := (hdec.get?_eq_uint hcanonical).mp hget
      constructor
      · intro hall
        obtain ⟨enc, hbool, hs⟩ := hall _ hmem
        obtain ⟨v, hv, hval⟩ := hdec.get?_of_mem (k := 8) hbool
        have hsame : Value.bool enc = .bool ev.enc :=
          (Option.some.inj hval).trans (Option.some.inj (hv.symm.trans h.get?_enc))
        obtain rfl := Value.bool.inj hsame
        exact .inr (congrArg some (UInt64.toNat_inj.mp (Item.uint.inj hs)))
      · intro hs i hi
        have hs := Option.some.inj (hs.resolve_left (by simp))
        obtain ⟨v, hv, hval⟩ := hdec.get?_of_mem (k := 13) hi
        obtain rfl := Option.some.inj (hv.symm.trans hget)
        refine ⟨ev.enc, henc, ?_⟩
        rw [← hs]
        exact (ofItem_eq_uint (hes _ hi).2).mp hval

end

/-- The posture of an accepted payload is coherent exactly when key 13 does not contradict
key 8 in a v0 map. -/
theorem coherent_iff {c : Ciborium} (hc : c.Documented) {raw : Bytes} {ev : ParsedKommsEvent}
    (h : parseKommsPayload c raw = .ok ev) :
    Coherent ev ↔ ∃ es, PayloadMap raw es ∧ PostureInKey8 es := by
  obtain ⟨es, m, scheme, role, hraw, hdec, hcarries, hvalid⟩ := exists_of_parse hc h
  have hkey := postureInKey8_iff hraw.2.1 hdec hcarries
  have hcoherent : Coherent ev ↔
      (ev.v = 0 → scheme = none ∨ scheme = some (schemeOf ev.enc)) := by
    by_cases hv : ev.v = 0
    · rw [coherent_v0_iff hv, encScheme_v0 hcarries hv, forall_prop_of_true hv]
    · have hrules := (validateEvent_eq_ok.mp hvalid).1
      exact ⟨fun _ hzero => absurd hzero hv, fun _ => coherent_v1 hrules hv⟩
  rw [hcoherent, ← hkey]
  constructor
  · intro hposture
    exact ⟨es, hraw, hposture⟩
  · intro hposture
    obtain ⟨es', hraw', hposture⟩ := hposture
    exact hraw.unique hraw' ▸ hposture

/-- A v0 payload that is not encrypted is accepted with the scheme 7. -/
theorem incoherent_v0BookmarkScheme : Ciborium.reference.Documented ∧
    ∃ ev, parseKommsPayload .reference v0BookmarkScheme = .ok ev ∧ ¬ Coherent ev := by
  refine ⟨Ciborium.reference_documented, ?_⟩
  obtain ⟨ev, hparse, hscheme⟩ := Except.exists_ok_of_decide
    (x := parseKommsPayload .reference v0BookmarkScheme)
    (p := fun ev => ev.encScheme = some 7) (by decide +kernel)
  refine ⟨ev, hparse, fun hcoherent => ?_⟩
  obtain ⟨s, hs, hallocated, -⟩ := hcoherent
  obtain rfl := Option.some.inj (hs.symm.trans hscheme)
  revert hallocated
  decide

theorem coherent_v0Bookmark :
    ∃ ev, parseKommsPayload .reference v0Bookmark = .ok ev ∧ Coherent ev := by
  obtain ⟨ev, hparse, -⟩ := Except.exists_ok_of_any
    (x := parseKommsPayload .reference v0Bookmark) (p := fun _ => true) (by decide +kernel)
  refine ⟨ev, hparse, (coherent_iff Ciborium.reference_documented hparse).mpr
    ⟨v0BookmarkEntries, v0Bookmark_payloadMap, ?_⟩⟩
  simp [PostureInKey8, v0BookmarkEntries]

end Komms
