import Komms.Control.Alike
import Komms.Protocol.Grammar

/-!
# Extension fields are inert

Entries from key 33 on are kept with the event, and nothing else depends on them: two payloads
with the same core entries get the same verdict, errors included, and the same event but for its
extension fields (`verdict_of_core`). The parser runs in lockstep on both, until it moves the
extension fields over.
-/

namespace Komms

open Cbor StateT
open Canonical (validateCanonical validateCanonical_ok_iff Denotes)

/-- The event with other extension fields. -/
def ParsedKommsEvent.withExtensions (ev : ParsedKommsEvent)
    (extensionFields : SortedMap UInt8 Value) : ParsedKommsEvent :=
  { ev with extensionFields }

/-- What is received with other extension fields, in a map with these bytes. -/
def ParsedPayload.withExtensions (extensionFields : SortedMap UInt8 Value) (cbor : Bytes) :
    ParsedPayload → ParsedPayload
  | known event => known (event.withExtensions extensionFields)
  | opaqueEvent event _ => opaqueEvent (event.withExtensions extensionFields) cbor
  | future v _ => future v cbor

/-- The core fields are the same, and the second map has these extension fields. -/
structure SameCore (exts : SortedMap UInt8 Value) (m m' : Fields) : Prop where
  core : ∀ k < extensionKeyMin, m.get? k = m'.get? k
  extensionFields : m'.atLeast extensionKeyMin = exts

section Pop

variable {α : Type} {exts : SortedMap UInt8 Value} {m m' : Fields} {key : UInt8}

theorem SameCore.remove (h : SameCore exts m m') (hkey : key < extensionKeyMin) :
    SameCore exts (m.remove key) (m'.remove key) := by
  constructor
  · intro k hk
    rw [SortedMap.get?_remove, SortedMap.get?_remove, h.core k hk]
  · rw [← h.extensionFields]
    apply SortedMap.ext_get?
    intro k
    rw [SortedMap.get?_atLeast, SortedMap.get?_atLeast, SortedMap.get?_remove]
    split_ifs with hle heq
    · exact absurd (heq ▸ hle) (not_le.mpr hkey)
    · rfl
    · rfl

theorem lockstep_popRequired {kind : FieldKind α} {name : String} (hkey : key < extensionKeyMin) :
    Lockstep (SameCore exts) (popRequired kind key name) := by
  intro m m' h
  simp only [popRequired, StateT.run]
  rw [h.core key hkey]
  cases m'.get? key with
  | none => exact .error _
  | some val =>
      refine (Except.Alike.refl (kind.read val)).bind fun a a' ha => ?_
      exact .ok ⟨ha, h.remove hkey⟩

theorem lockstep_popOpt {kind : FieldKind α} (hkey : key < extensionKeyMin) :
    Lockstep (SameCore exts) (popOpt kind key) := by
  intro m m' h
  simp only [popOpt, StateT.run]
  rw [h.core key hkey]
  cases m'.get? key with
  | none => exact .ok ⟨rfl, h⟩
  | some val =>
      refine (Except.Alike.refl (kind.read val)).bind fun a a' ha => ?_
      exact .ok ⟨congrArg some ha, h.remove hkey⟩

theorem lockstep_popV0Fields : Lockstep (SameCore exts) popV0Fields := by
  refine (lockstep_popRequired (by decide)).bind fun v => ?_
  refine (lockstep_popRequired (by decide)).bind fun tRaw => (Lockstep.lift _).bind fun t => ?_
  refine (lockstep_popRequired (by decide)).bind fun enc => ?_
  refine (lockstep_popOpt (by decide)).bind fun sid => ?_
  refine (lockstep_popOpt (by decide)).bind fun cid => ?_
  refine (lockstep_popOpt (by decide)).bind fun did => ?_
  refine (lockstep_popOpt (by decide)).bind fun pid => ?_
  refine (lockstep_popOpt (by decide)).bind fun mid => ?_
  refine (lockstep_popOpt (by decide)).bind fun refBytes => ?_
  refine (lockstep_popOpt (by decide)).bind fun ts => ?_
  refine (lockstep_popOpt (by decide)).bind fun n => ?_
  exact (lockstep_popOpt (by decide)).bind fun sig => Lockstep.pure _

theorem lockstep_popV1Fields : Lockstep (SameCore exts) popV1Fields := by
  refine (lockstep_popOpt (by decide)).bind fun parentMid => ?_
  refine (lockstep_popOpt (by decide)).bind fun encScheme => ?_
  refine (lockstep_popOpt (by decide)).bind fun kind => ?_
  refine (lockstep_popOpt (by decide)).bind fun mime => ?_
  refine (lockstep_popOpt (by decide)).bind fun refType => ?_
  refine (lockstep_popOpt (by decide)).bind fun devicePk => ?_
  refine (lockstep_popOpt (by decide)).bind fun sigScheme => ?_
  refine (lockstep_popOpt (by decide)).bind fun reactionKey => ?_
  exact (lockstep_popOpt (by decide)).bind fun paymentHint => Lockstep.pure _

theorem lockstep_popV11Fields : Lockstep (SameCore exts) popV11Fields := by
  refine (lockstep_popOpt (by decide)).bind fun memberTag => ?_
  refine (lockstep_popOpt (by decide)).bind fun memberSealed => ?_
  refine (lockstep_popOpt (by decide)).bind fun encSid => ?_
  refine (lockstep_popOpt (by decide)).bind fun encCid => ?_
  refine (lockstep_popOpt (by decide)).bind fun encBodyRef => ?_
  refine (lockstep_popOpt (by decide)).bind fun encParentMid => ?_
  refine (lockstep_popOpt (by decide)).bind fun matchTag => ?_
  refine (lockstep_popOpt (by decide)).bind fun encT => ?_
  refine (lockstep_popOpt (by decide)).bind fun keyEpoch => ?_
  exact (lockstep_popOpt (by decide)).bind fun sealedSigner => Lockstep.pure _

theorem lockstep_popRoleFields : Lockstep (SameCore exts) popRoleFields := by
  refine (lockstep_popOpt (by decide)).bind fun role => ?_
  exact (lockstep_popOpt (by decide)).bind fun target => Lockstep.pure _

/-- Each map gives its own extension fields, and then nothing tells the maps apart. -/
theorem relates_popExtensionFields : Relates (SameCore exts)
    (fun a a' => a'.1 = exts ∧ a.2 = a'.2) popExtensionFields popExtensionFields := by
  intro m m' h
  rw [popExtensionFields_eq_ok.mpr ⟨rfl, rfl⟩, popExtensionFields_eq_ok.mpr ⟨rfl, rfl⟩]
  refine .ok ⟨h.extensionFields, SortedMap.ext_get? fun k => ?_⟩
  rw [SortedMap.get?_below, SortedMap.get?_below]
  split_ifs with hk
  · exact h.core k hk
  · rfl

theorem relates_popEvent : Relates (SameCore exts)
    (fun a a' => a'.1 = a.1.withExtensions exts) popEvent popEvent := by
  refine lockstep_popV0Fields.bind fun v0 => lockstep_popV1Fields.bind fun v1 => ?_
  refine lockstep_popV11Fields.bind fun v11 => lockstep_popRoleFields.bind fun role => ?_
  refine relates_popExtensionFields.bind fun own own' s s' hs => ?_
  obtain ⟨rfl, rfl⟩ := hs
  refine (Except.Alike.refl (checkEmpty.run s)).bind fun a a' ha => ?_
  exact .ok rfl

end Pop

section Parse

variable {c : Ciborium} {raw raw' : Bytes} {es es' : List (Nat × Item)} {m m' : Fields}
variable {exts : SortedMap UInt8 Value} {ev : ParsedKommsEvent}

theorem alike_parseEntries (h : SameCore exts m m') :
    Except.Alike (fun ev ev' => ev' = ev.withExtensions exts) (parseEntries (fieldPairs m))
      (parseEntries (fieldPairs m')) := by
  have hcollect (m : Fields) : collectFields (fieldPairs m) .empty = .ok m :=
    (collectFields_eq_ok (keysAscend_fieldPairs m)).mpr rfl
  rw [parseEntries, parseEntries, hcollect, hcollect]
  exact (relates_popEvent m m' h).bind fun a a' ha => .ok ha

/-- If the entries of a payload can be read, its fields are all that is left to parse. -/
theorem parseEnvelope_of_decodes (hc : c.Documented) (hraw : PayloadMap raw es)
    (hdec : Decodes es m) :
    parseEnvelope c raw = (parseEntries (fieldPairs m)).mapError .parse >>= fun ev =>
      .ok ((Item.map es).encode, ev) := by
  obtain ⟨rfl, hcanonical, hdepth⟩ := hraw
  have hdenotes : Denotes (Item.map es).encode (.map es) := ⟨rfl, hcanonical, hdepth⟩
  have hread := (fromReader_of_denotes hc hdenotes).mpr ((decodes_iff hcanonical).mp hdec)
  have hwalk := validateCanonical_ok_iff.mpr ⟨_, hdenotes⟩
  rw [parseEnvelope, stripKommsEnvelope_eq_some.mpr rfl]
  dsimp only
  rw [hwalk, parseCborMap, hread]
  rfl

/-- No rule looks at an extension field. -/
theorem validateEvent_withExtensions (ev : ParsedKommsEvent) (exts : SortedMap UInt8 Value) :
    validateEvent (ev.withExtensions exts) = validateEvent ev := rfl

theorem alike_parseEnvelope (hc : c.Documented) (hraw : PayloadMap raw es)
    (hraw' : PayloadMap raw' es') (hdec : Decodes es m) (hdec' : Decodes es' m')
    (h : SameCore exts m m') :
    Except.Alike (fun r r' => r' = ((Item.map es').encode, r.2.withExtensions exts))
      (parseEnvelope c raw) (parseEnvelope c raw') := by
  rw [parseEnvelope_of_decodes hc hraw hdec, parseEnvelope_of_decodes hc hraw' hdec']
  refine ((alike_parseEntries h).mapError KommsPayloadError.parse).bind fun ev ev' hev => ?_
  exact .ok (by rw [hev])

theorem alike_parse (hc : c.Documented) (hraw : PayloadMap raw es) (hraw' : PayloadMap raw' es')
    (hdec : Decodes es m) (hdec' : Decodes es' m') (h : SameCore exts m m') :
    Except.Alike (fun ev ev' => ev' = ev.withExtensions exts) (parseKommsPayload c raw)
      (parseKommsPayload c raw') := by
  refine (alike_parseEnvelope hc hraw hraw' hdec hdec' h).bind fun r r' hr => ?_
  obtain ⟨cbor, ev⟩ := r
  subst hr
  dsimp only
  rw [validateEvent_withExtensions]
  refine (Except.Alike.refl _).bind fun _ _ _ => ?_
  exact (Except.Alike.refl _).bind fun _ _ _ => .ok rfl

theorem alike_parseWithFuture (hc : c.Documented) (hraw : PayloadMap raw es)
    (hraw' : PayloadMap raw' es') (hdec : Decodes es m) (hdec' : Decodes es' m')
    (h : SameCore exts m m') :
    Except.Alike (fun p p' => p' = ParsedPayload.withExtensions exts (Item.map es').encode p)
      (parseKommsPayloadWithFuture c raw) (parseKommsPayloadWithFuture c raw') := by
  refine (alike_parseEnvelope hc hraw hraw' hdec hdec' h).bind fun r r' hr => ?_
  obtain ⟨cbor, ev⟩ := r
  subst hr
  dsimp only
  rw [validateEvent_withExtensions]
  have hversion : (ev.withExtensions exts).v = ev.v := rfl
  rw [hversion]
  split_ifs with hfuture
  · exact .ok rfl
  · split
    · exact .ok rfl
    · exact .ok rfl
    · exact .error _

/-- The entries under core keys. -/
def coreEntries (es : List (Nat × Item)) : List (Nat × Item) :=
  es.filter fun e => e.1 < extensionKeyMin.toNat

/-- The keys are bytes, and every text is UTF-8. -/
def Readable (es : List (Nat × Item)) : Prop :=
  ∀ e ∈ es, e.1 < 256 ∧ (Value.ofItem e.2).isSome

theorem Readable.exists_decodes (h : Readable es) (hcanonical : (Item.map es).Canonical) :
    ∃ m, Decodes es m := by
  refine Komms.exists_decodes hcanonical fun e he => ?_
  obtain ⟨hkey, hvalue⟩ := h e he
  obtain ⟨v, hv⟩ := Option.isSome_iff_exists.mp hvalue
  exact ⟨.ofNat e.1, v, (UInt8.toNat_ofNat_of_lt' hkey).symm, hv⟩

theorem Decodes.get?_eq_some_iff (hdec : Decodes es m) {k : UInt8} {v : Value} :
    m.get? k = some v ↔ ∃ i, (k.toNat, i) ∈ es ∧ Value.ofItem i = some v := by
  constructor
  · exact hdec.get?_eq_some
  · rintro ⟨i, hi, hv⟩
    obtain ⟨v', hget, hv'⟩ := hdec.get?_of_mem hi
    rw [hget, ← hv, hv']

/-- Maps with the same core entries have the same core fields. -/
theorem sameCore_of_coreEntries (hdec : Decodes es m) (hdec' : Decodes es' m')
    (h : coreEntries es = coreEntries es') : SameCore (m'.atLeast extensionKeyMin) m m' := by
  refine ⟨fun k hk => Option.ext fun v => ?_, rfl⟩
  have hmem (es : List (Nat × Item)) (i : Item) :
      (k.toNat, i) ∈ coreEntries es ↔ (k.toNat, i) ∈ es := by
    rw [coreEntries, List.mem_filter, decide_eq_true_eq]
    exact and_iff_left (UInt8.lt_iff_toNat_lt.mp hk)
  simp only [hdec.get?_eq_some_iff, hdec'.get?_eq_some_iff, ← hmem es, ← hmem es', h]

/-- Payloads with the same core entries get the same verdict, or the same error, from both entry
points, and the same event but for its extension fields, which are those of the second one. -/
theorem verdict_of_core (hc : c.Documented) (hraw : PayloadMap raw es)
    (hraw' : PayloadMap raw' es') (hread : Readable es) (hread' : Readable es')
    (hcore : coreEntries es = coreEntries es') : ∃ exts : SortedMap UInt8 Value,
      (∀ k v, exts.get? k = some v ↔ extensionKeyMin ≤ k ∧
        ∃ i, (k.toNat, i) ∈ es' ∧ Value.ofItem i = some v) ∧
      parseKommsPayload c raw' = (parseKommsPayload c raw).map (·.withExtensions exts) ∧
      parseKommsPayloadWithFuture c raw' = (parseKommsPayloadWithFuture c raw).map
        (ParsedPayload.withExtensions exts (Item.map es').encode) := by
  obtain ⟨m, hdec⟩ := hread.exists_decodes hraw.2.1
  obtain ⟨m', hdec'⟩ := hread'.exists_decodes hraw'.2.1
  have hsame := sameCore_of_coreEntries hdec hdec' hcore
  refine ⟨m'.atLeast extensionKeyMin, fun k v => ?_,
    (alike_parse hc hraw hraw' hdec hdec' hsame).eq_map,
    (alike_parseWithFuture hc hraw hraw' hdec hdec' hsame).eq_map⟩
  rw [SortedMap.get?_atLeast, ← hdec'.get?_eq_some_iff]
  split_ifs with hk <;> simp [hk]

/-- The v0 bookmark with an extension field. -/
def extendedBookmarkEntries : List (Nat × Item) := v0BookmarkEntries ++ [(200, .text [0x68, 0x69])]

theorem extendedBookmark_accepted : ∃ ev exts,
    parseKommsPayload .reference v0Bookmark = .ok ev ∧
    exts.get? 200 = some (.text "hi") ∧
    parseKommsPayload .reference
      (kommsPayloadPrefix ++ (Item.map extendedBookmarkEntries).encode) =
        .ok (ev.withExtensions exts) := by
  obtain ⟨ev, hparse, -⟩ := Except.exists_ok_of_any (x := parseKommsPayload .reference v0Bookmark)
    (p := fun _ => true) (by decide +kernel)
  have hreadable : Readable extendedBookmarkEntries := by
    simp only [Readable, extendedBookmarkEntries, v0BookmarkEntries]
    decide +kernel
  obtain ⟨exts, hext, hsame, -⟩ := @verdict_of_core .reference v0Bookmark
    (kommsPayloadPrefix ++ (Item.map extendedBookmarkEntries).encode) _ _
    Ciborium.reference_documented v0Bookmark_payloadMap ⟨rfl, by decide +kernel, by decide +kernel⟩
    (fun e he => hreadable e (List.mem_append_left _ he)) hreadable rfl
  have hgreeting : (200, .text [0x68, 0x69]) ∈ extendedBookmarkEntries :=
    List.mem_append_right _ List.mem_cons_self
  refine ⟨ev, exts, hparse, (hext 200 _).mpr ⟨by decide, _, hgreeting, rfl⟩, ?_⟩
  rw [hsame, hparse]
  rfl

end Parse

end Komms
