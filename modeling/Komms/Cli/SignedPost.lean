import Komms.Cli.Commands
import Komms.Protocol.WireSignature

/-!
# Posting a signed event

No command prints what is to be signed, but it is what `post` prints without a signature, after
the prefix. A signature of these bytes is given to the same command, and what that prints is
decoded with `--verify-sig`, which accepts it exactly when the key accepts the signature for the
bytes that were printed first (`verified_iff_signs`).
-/

namespace Komms

open Cbor Hexutil

namespace PostCmd

/-- The command with `--sig-hex`. -/
def withSigHex (sigHex : RString) : PostCmd → PostCmd
  | serverCreate sid refHex cidStr contentHash m =>
    serverCreate sid refHex cidStr contentHash { m with sigHex }
  | serverUpdate sid refHex cidStr contentHash m =>
    serverUpdate sid refHex cidStr contentHash { m with sigHex }
  | channelCreate sid cid refHex m => channelCreate sid cid refHex { m with sigHex }
  | channelUpdate sid cid refHex m => channelUpdate sid cid refHex { m with sigHex }
  | messagePost sid cid refHex refCid contentHash pid m =>
    messagePost sid cid refHex refCid contentHash pid { m with sigHex }
  | messageEdit sid cid mid refHex refCid contentHash m =>
    messageEdit sid cid mid refHex refCid contentHash { m with sigHex }
  | messageDelete sid cid mid m => messageDelete sid cid mid { m with sigHex }
  | dmMessagePost did refHex refCid contentHash m =>
    dmMessagePost did refHex refCid contentHash { m with sigHex }
  | reactionAdd sid cid mid refHex m => reactionAdd sid cid mid refHex { m with sigHex }
  | reactionRemove sid cid mid refHex m => reactionRemove sid cid mid refHex { m with sigHex }
  | memberJoin sid memberAddress refHex m => memberJoin sid memberAddress refHex { m with sigHex }
  | memberLeave sid memberAddress refHex m =>
    memberLeave sid memberAddress refHex { m with sigHex }
  | roleAssign sid cid refHex m => roleAssign sid cid refHex { m with sigHex }
  | roleRevoke sid cid refHex m => roleRevoke sid cid refHex { m with sigHex }
  | moderationAction sid cid mid refHex m => moderationAction sid cid mid refHex { m with sigHex }

end PostCmd

section Signed

variable {hex : FasterHex} {c : Ciborium} {e : Ed25519} {debug : Value → String}
variable {parseAddress : RString → Option Address} {sha256 : Bytes → Bytes32}
variable {cmd : PostCmd} {submit : Bool} {changeAddress : Option RString}
variable {ev ev' : ParsedKommsEvent} {cbor : Bytes} {sigHex : RString} {sig : Bytes64}

section Event

variable {t : EventType} {ids : PostIds} {reference : Except String (Option VecU8)} {enc : Bool}
variable {m : OptMeta}

theorem unsigned_of_postEvent (hm : m.sigHex = none)
    (h : postEvent hex t ids reference enc m = .ok ev) : ev.t = t ∧ ev.sig = none := by
  simp only [postEvent, metaSig, hm, Except.bind_eq_ok, Except.pure_eq_ok, Except.ok.injEq] at h
  obtain ⟨_, -, _, -, _, -, _, -, _, -, _, -, sig, hsig, rfl⟩ := h
  exact ⟨rfl, (Except.ok.inj hsig).symm⟩

theorem postEvent_signed (hsig : parseHex64Sig hex sigHex.1 = .ok sig)
    (h : postEvent hex t ids reference enc m = .ok ev) :
    postEvent hex t ids reference enc { m with sigHex } = .ok (ev.withSig (some sig)) := by
  have hmeta : metaSig hex { m with sigHex } = .ok (some sig) := by
    rw [metaSig, Option.mapM_some, hsig]
    rfl
  simp only [postEvent, hmeta, Except.bind_eq_ok, Except.pure_eq_ok, Except.ok.injEq] at h ⊢
  obtain ⟨sid, hsid, cid, hcid, did, hdid, pid, hpid, mid, hmid, r, hr, _, -, rfl⟩ := h
  exact ⟨sid, hsid, cid, hcid, did, hdid, pid, hpid, mid, hmid, r, hr, _, rfl, rfl⟩

end Event

/-- What is posted without a signature has none, and is of a type that does not ask for one. -/
theorem unsigned_of_buildPostEv (hcmd : cmd.optMeta.sigHex = none)
    (h : buildPostEv hex cmd = .ok ev) : ev.requiresSig = false ∧ ev.sig = none := by
  cases cmd <;>
    obtain ⟨ht, hsig⟩ := unsigned_of_postEvent hcmd h <;>
    exact ⟨by rw [ParsedKommsEvent.requiresSig, ht], hsig⟩

theorem buildPostEv_signed (hsig : parseHex64Sig hex sigHex.1 = .ok sig)
    (h : buildPostEv hex cmd = .ok ev) :
    buildPostEv hex (cmd.withSigHex sigHex) = .ok (ev.withSig (some sig)) := by
  cases cmd <;> exact postEvent_signed hsig h

/-- The participant of a member does not depend on the signature. -/
theorem patch_signed
    (h : patchMemberJoinLeavePid parseAddress sha256 ev cmd submit changeAddress = .ok ev') :
    patchMemberJoinLeavePid parseAddress sha256 (ev.withSig (some sig)) (cmd.withSigHex sigHex)
      submit changeAddress = .ok (ev'.withSig (some sig)) := by
  cases cmd
  case memberJoin | memberLeave =>
    simp only [patchMemberJoinLeavePid, PostCmd.withSigHex, Except.bind_eq_ok, Except.pure_eq_ok,
      Except.ok.injEq] at h ⊢
    obtain ⟨s, hs, addr, haddr, rfl⟩ := h
    exact ⟨s, hs, addr, haddr, rfl⟩
  all_goals
    obtain rfl := Except.ok.inj h
    rfl

theorem unsigned_of_postEventOf (hcmd : cmd.optMeta.sigHex = none)
    (h : postEventOf hex c parseAddress sha256 cmd submit changeAddress = .ok ev) :
    ev.requiresSig = false ∧ ev.sig = none := by
  obtain ⟨built, hbuild, hpatch, -⟩ := postEventOf_eq_ok.mp h
  obtain ⟨pid, rfl⟩ := patch_eq_ok hpatch
  obtain ⟨hrequires, hsig⟩ := unsigned_of_buildPostEv hcmd hbuild
  exact ⟨hrequires, hsig⟩

/-- With a signature, the event is posted as before. -/
theorem postEventOf_signed (hcmd : cmd.optMeta.sigHex = none)
    (hsig : parseHex64Sig hex sigHex.1 = .ok sig)
    (h : postEventOf hex c parseAddress sha256 cmd submit changeAddress = .ok ev) :
    postEventOf hex c parseAddress sha256 (cmd.withSigHex sigHex) submit changeAddress =
      .ok (ev.withSig (some sig)) := by
  obtain ⟨built, hbuild, hpatch, raw, hraw⟩ := postEventOf_eq_ok.mp h
  obtain ⟨_, hencode, -⟩ := encodeKommsPayload_eq_ok.mp hraw
  have hvalid := (validateEvent_withSig (unsigned_of_postEventOf hcmd h).1 (some sig)).trans
    (encodeCborMap_eq_ok.mp hencode).1
  exact postEventOf_eq_ok.mpr ⟨_, buildPostEv_signed hsig hbuild, patch_signed hpatch, _,
    encodeKommsPayload_of_valid hvalid⟩

/-- The signature of a signed event is checked against what was posted without it. -/
theorem checkSig_received (hhex : hex.Documented) (hplain : Plain ev)
    (hrequires : ev.requiresSig = false) (hb : signingPayloadCbor c ev = .ok cbor) {pkHex : String}
    {pk : Bytes32} (hpk : Denotes pkHex pk.1) :
    checkSig c e hex (ev.withSig (some sig)).received (some pkHex) = .ok () ↔
      ∃ key, e.fromBytes pk = some key ∧ e.verifyStrict key cbor sig = true := by
  obtain ⟨hunsigned, -⟩ := signingPayloadCbor_eq_ok.mp hb
  have hplain' : Plain (ev.withSig (some sig)) :=
    ⟨hplain.version, hplain.known, hplain.v1, hplain.v11, hplain.role, hplain.unextended⟩
  have hvalid : validateEvent (ev.withSig (some sig)) = .ok () := by
    rw [validateEvent_withSig hrequires, ← validateEvent_withSig hrequires none, hunsigned]
  have hpayload : signingPayloadCbor c (ev.withSig (some sig)).received = .ok cbor :=
    signingPayloadCbor_received hb hrequires (valid_received_of_plain hplain' hvalid)
  have hsig : (ev.withSig (some sig)).received.sig = some sig := rfl
  have hparse := parseHex32_of_denotes hhex hpk
  simp only [checkSig, Except.bind_eq_ok, Except.okOr_eq_ok, Except.mapError_eq_ok,
    Except.failIf_eq_ok, not_not, hsig, hpayload]
  constructor
  · rintro ⟨_, ⟨⟩, pk', hpk', key, hkey, _, ⟨⟩, _, ⟨⟩, hverify⟩
    obtain rfl := Except.ok.inj (hparse.symm.trans hpk')
    exact ⟨key, hkey, hverify⟩
  · rintro ⟨key, hkey, hverify⟩
    exact ⟨pkHex, rfl, pk, hparse, key, hkey, sig, rfl, cbor, rfl, hverify⟩

/-- The signature is shown under `sig` alone. -/
theorem get?_eventToJson_withSig {name : String} (hname : name ≠ "sig") (s : Option Bytes64) :
    (eventToJson hex (ev.withSig s)).get? name = (eventToJson hex ev).get? name := by
  have hlast (ev : ParsedKommsEvent) : eventToJson hex ev =
      (Json.ofMembers (eventMembers hex ev).dropLast).set "sig"
        (.ofOption (ev.sig.map fun s => .string (hex.hexString s.1))) := rfl
  rw [hlast, hlast, Json.get?_set_of_ne hname, Json.get?_set_of_ne hname]
  rfl

/-- What `decode --verify-sig` shows of an event that is posted with a signature. -/
theorem decodePayload_verified (hc : c.Documented) (hplain : Plain ev) {raw : Bytes}
    (hraw : encodeKommsPayload c ev = .ok raw) {strict : Bool} {pkHex : Option String}
    {shown : Json} : decodePayload c e hex debug raw strict false true pkHex = .ok shown ↔
      checkSig c e hex ev.received pkHex = .ok () ∧
        (eventToJson hex ev).set "sig_verified" (.bool true) = shown := by
  have hrender : decodePayload c e hex debug raw strict false true pkHex =
      addSigVerified c e hex ev.received true pkHex (eventToJson hex ev) := by
    rw [decodePayload, decodeEvent_of_plain hc hplain hraw, ← eventToJson_received]
    rfl
  rw [hrender, addSigVerified, if_pos rfl, Except.check_bind_eq_ok, Except.ok.injEq]

/-- A signature that is posted with an event passes `decode --verify-sig` under a key exactly when
the key accepts it for what is posted without it, after the prefix. -/
theorem verified_iff_signs (hex : FasterHex) (c : Ciborium) (e : Ed25519) (debug : Value → String)
    (parseAddress : RString → Option Address) (sha256 : Bytes → Bytes32) (hhex : hex.Documented)
    (henc : hex.Encodes) (hc : c.Documented) (cmd : PostCmd) (hcmd : cmd.optMeta.sigHex = none)
    (changeAddress : Option RString) (json : Json)
    (h : runPost hex c parseAddress sha256 cmd changeAddress = .ok json) (sig : Bytes64)
    (sigHex : RString) (hsig : Shows sigHex.1 (hex.hexString sig.1)) :
    ∃ cbor event json' raw event',
      json.get? "payload_hex" = some (.string (hex.hexString (kommsPayloadPrefix ++ cbor))) ∧
      json.get? "event" = some event ∧
      runPost hex c parseAddress sha256 (cmd.withSigHex sigHex) changeAddress = .ok json' ∧
      json'.get? "payload_hex" = some (.string (hex.hexString raw)) ∧
      json'.get? "event" = some event' ∧
      (∀ name, name ≠ "sig" → event'.get? name = event.get? name) ∧
      ∀ world input strict pkHex (pk : Bytes32) shown, HandedOver hex raw world input →
        Denotes pkHex pk.1 →
          (runDecode hex c e debug world input strict false true (some pkHex) = .ok shown ↔
            (∃ key, e.fromBytes pk = some key ∧ e.verifyStrict key cbor sig = true) ∧
              event'.set "sig_verified" (.bool true) = shown) := by
  obtain ⟨ev, raw, hev, hraw, rfl⟩ := runPost_eq_ok.mp h
  obtain ⟨hrequires, hunsigned⟩ := unsigned_of_postEventOf hcmd hev
  have hsigned := postEventOf_signed hcmd (parseHex64Sig_of_denotes hhex (hsig.denotes hhex henc))
    hev
  obtain ⟨-, -, -, raw', hraw'⟩ := postEventOf_eq_ok.mp hsigned
  -- without a signature, the signing payload is the encoding itself
  obtain ⟨cbor, hencode, rfl⟩ := encodeKommsPayload_eq_ok.mp hraw
  have hpayload : signingPayloadCbor c ev = .ok cbor := by
    have hsame : ev.withSig none = ev := by rw [ParsedKommsEvent.withSig, ← hunsigned]
    rw [← hencode, ← hsame]
    rfl
  refine ⟨cbor, eventToJson hex ev, _, raw', eventToJson hex (ev.withSig (some sig)),
    Json.get?_ofMembers (by simp) (by simp), Json.get?_ofMembers (by simp) (by simp),
    runPost_eq_ok.mpr ⟨_, raw', hsigned, hraw', rfl⟩, Json.get?_ofMembers (by simp) (by simp),
    Json.get?_ofMembers (by simp) (by simp), fun name hname => get?_eventToJson_withSig hname _,
    fun world input strict pkHex pk shown hinput hpk => ?_⟩
  rw [runDecode_of_handedOver hhex henc hraw' hinput,
    decodePayload_verified hc (plain_of_postEventOf hsigned) hraw',
    checkSig_received hhex (plain_of_postEventOf hev) hrequires hpayload hpk]

/-- A signature as it is printed. -/
def sigText (sig : Bytes64) : RString :=
  ⟨FasterHex.reference.hexString sig.1, by
    rw [FasterHex.reference_encodes, Hex.length_of_decode (Hex.decode_encode _), sig.2]
    decide⟩

/-- The server is signed for with a key of bytes 0x11, and posted again. -/
theorem sampleServerCreate_verified : ∃ sig json raw event,
    runPost .reference .reference (fun _ => none) (fun _ => sampleIdBytes)
      (sampleServerCreate.withSigHex (sigText sig)) none = .ok json ∧
    json.get? "payload_hex" = some (.string (FasterHex.reference.hexString raw)) ∧
    json.get? "event" = some event ∧
    ∀ world input strict, HandedOver .reference raw world input →
      runDecode .reference .reference .reference (fun _ => "") world input strict false true
        (some sampleId.1) = .ok (event.set "sig_verified" (.bool true)) := by
  obtain ⟨json, hpost, -⟩ := Except.exists_ok_of_any
    (x := runPost .reference .reference (fun _ => none) (fun _ => sampleIdBytes)
      sampleServerCreate none) (p := fun _ => true) (by decide +kernel)
  have hsign (sig : Bytes64) := verified_iff_signs .reference .reference .reference (fun _ => "")
    (fun _ => none) (fun _ => sampleIdBytes) FasterHex.reference_documented
    FasterHex.reference_encodes Ciborium.reference_documented sampleServerCreate rfl none json hpost
    sig (sigText sig) (.inl (FasterHex.reference_documented.trim_hexString sig.1))
  -- what is to be signed does not depend on the signature
  obtain ⟨cbor, _, _, _, _, hcbor, -⟩ := hsign (List.Vector.replicate 64 0)
  obtain ⟨cbor', _, json', raw, event, hcbor', -, hpost', hraw, hevent, -, hdecode⟩ :=
    hsign (tag sampleIdBytes cbor)
  have hsame := FasterHex.reference_encodes.hexString_injective
    (Json.string.inj (Option.some.inj (hcbor.symm.trans hcbor')))
  obtain rfl := List.append_cancel_left hsame
  refine ⟨_, json', raw, event, hpost', hraw, hevent, fun world input strict hinput => ?_⟩
  exact (hdecode world input strict sampleId.1 sampleIdBytes _ hinput (by decide +kernel)).mpr
    ⟨⟨sampleIdBytes, rfl, decide_eq_true rfl⟩, rfl⟩

end Signed

end Komms
