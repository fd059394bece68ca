import Komms.Cli.Decode
import Komms.Cli.Post

/-!
# What the offline commands print

`decode`, `ref-inspect`, `id creator-bytes`, `id new-wallet`, `post` without `--submit` and
`verify-content`, each as the JSON that it prints, or the message that it fails with. They
exchange what they print: a payload that is posted is decoded to the event that was posted, a
reference that is shown is inspected and verified, and a wallet is a member under the id that is
shown for it.
-/

namespace Komms

open Cbor Hexutil

/-- What a command reads besides its arguments. No buffer has more than `isize::MAX` bytes. -/
structure World where
  stdin : Except String { b : Bytes // b.length < 2 ^ 63 }
  readFile : String → Option VecU8

section Source

variable (hex : FasterHex)

theorem utf8_trim_length_lt {s : String} (h : (utf8 s).length < 2 ^ 63) :
    (utf8 (Str.trim s)).length < 2 ^ 63 :=
  Nat.lt_of_le_of_lt (utf8_length_le (Str.trim_sublist s)) h

/-- `s.trim()`. -/
def trimmed (s : RString) : RString := ⟨Str.trim s.1, utf8_trim_length_lt s.2⟩

/-- `str::from_utf8` on a buffer. -/
def fromUtf8Buf (buf : { b : Bytes // b.length < 2 ^ 63 }) : Option RString :=
  match h : fromUtf8 buf.1 with
  | none => none
  | some s => some ⟨s, by rw [utf8_of_fromUtf8 h]; exact buf.2⟩

/-- The hexadecimal text on the standard input. -/
def loadStdin (world : World) : Except String VecU8 := do
  let buf ← world.stdin
  let s ← .okOr (fromUtf8Buf buf) "stdin utf-8"
  parseHexBytes hex (trimmed s)

def loadInputBytes (world : World) : Option RString → Except String VecU8
  | none => loadStdin hex world
  | some raw =>
    if Str.trim raw.1 = "-" then loadStdin hex world
    else match Str.stripPrefix (Str.trim raw.1) "@" with
      | some path => .okOr (world.readFile path) ("read " ++ path)
      | none => parseHexBytes hex (trimmed raw)

variable (c : Ciborium) (e : Ed25519) (debug : Value → String)

def runDecode (world : World) (input : Option RString) (strict prettyCbor verifySig : Bool)
    (pkHex : Option String) : Except DecodeError Json := do
  let bytes ← (loadInputBytes hex world input).mapError .message
  decodePayload c e hex debug bytes.1 strict prettyCbor verifySig pkHex

def runRefInspect (refHex : RString) : Except String Json := do
  let b ← parseHexBytes hex refHex
  .ok (refJson hex b.1)

variable (parseAddress : RString → Option Address) (sha256 : Bytes → Bytes32)

/-- The members that show an address body and the participant that it stands for. -/
def addressMembers (addr : Address) : List (String × Json) :=
  let body := creatorAddressBodyFromAddr addr
  [("address_version", .number addr.version.toUInt64),
    ("creator_address_hex", .string (hex.hexString body)),
    ("participant_id_hex", hex32 hex (participantId sha256 body))]

def creatorMembers (address : RString) (addr : Address) : List (String × Json) :=
  ("kaspa_address", .string address.1) :: addressMembers hex sha256 addr

def runCreatorBytes (address : RString) : Except String Json := do
  let addr ← .okOr (parseAddress address) ("could not parse kaspa address: " ++ address.1)
  .ok (.ofMembers (creatorMembers hex sha256 address addr))

/-- A new wallet from the secret key that is generated and its x-only public key. The number of
`Version::PubKey` and the text of an address are those of the address crate. -/
def runNewWallet (pubKeyVersion : UInt8) (addressToString : Address → RString)
    (secretKey xonly : Bytes32) : Json :=
  let addr : Address := ⟨pubKeyVersion, xonly.1⟩
  .ofMembers (("private_key_hex", hex32 hex secretKey) :: ("xonly_pubkey_hex", hex32 hex xonly) ::
    creatorMembers hex sha256 (addressToString addr) addr)

/-- The event of a `post` command, with its participant and checked by encoding it. -/
def postEventOf (cmd : PostCmd) (submit : Bool) (changeAddress : Option RString) :
    Except String ParsedKommsEvent := do
  let ev ← buildPostEv hex cmd
  let ev ← patchMemberJoinLeavePid parseAddress sha256 ev cmd submit changeAddress
  let _ ← (encodeKommsPayload c ev).mapError fun _ => "validate + encode event"
  .ok ev

def runPost (cmd : PostCmd) (changeAddress : Option RString) : Except String Json := do
  let ev ← postEventOf hex c parseAddress sha256 cmd false changeAddress
  let raw ← (encodeKommsPayload c ev).mapError ValidationError.message
  .ok (.ofMembers [("payload_hex", .string (hex.hexString raw)), ("event", eventToJson hex ev)])

/-- The contents of the file are compared with the hash in the reference. -/
def runVerifyContent (data : Bytes) (refHex : RString) : Except String Json := do
  let digest := sha256 data
  let r ← parseHexBytes hex refHex
  let ok := r.1.head? = some 0x02 ∧ r.1.length = 33 ∧ r.1.drop 1 = digest.1
  .ok (.ofMembers [("file_sha256", hex32 hex digest), ("ref_hex", .string refHex.1),
    ("matches_ref_content_hash", .bool ok)])

end Source

section Input

variable {hex : FasterHex} {world : World} {input : Option RString} {raw : Bytes} {s : RString}

/-- The ways to hand a payload to a command: as its hexadecimal text, on the standard input, or
as the contents of a file. -/
inductive HandedOver (hex : FasterHex) (raw : Bytes) (world : World) : Option RString → Prop where
  | argument {s : RString} (h : Shows s.1 (hex.hexString raw)) : HandedOver hex raw world (some s)
  | stdin {input : Option RString} {buf : { b : Bytes // b.length < 2 ^ 63 }} {text : String}
      (hinput : ∀ s, input = some s → Str.trim s.1 = "-") (hstdin : world.stdin = .ok buf)
      (hbuf : buf.1 = utf8 text) (h : Shows text (hex.hexString raw)) :
      HandedOver hex raw world input
  | file {s : RString} {path : String} {contents : VecU8} (h : Str.trim s.1 = "@" ++ path)
      (hread : world.readFile path = some contents) (hcontents : contents.1 = raw) :
      HandedOver hex raw world (some s)

/-- What shows a printed byte string is read as these bytes. -/
theorem parseHexBytes_of_shows (hhex : hex.Documented) (henc : hex.Encodes) (hne : raw ≠ [])
    (h : Shows s.1 (hex.hexString raw)) : ∃ b : VecU8, parseHexBytes hex s = .ok b ∧ b.1 = raw := by
  have hdenotes := h.denotes hhex henc
  have hlength := hdenotes.length
  have hbody := hexBody_length_le s.1
  have hs := s.2
  let b : VecU8 := ⟨raw, by omega⟩
  have hb : parseHexBytes hex s = .ok b := parseHexBytes_of_denotes hhex hdenotes hne
  exact ⟨b, hb, rfl⟩

theorem fromUtf8Buf_of_utf8 {buf : { b : Bytes // b.length < 2 ^ 63 }} {text : String}
    (h : buf.1 = utf8 text) : ∃ s : RString, fromUtf8Buf buf = some s ∧ s.1 = text := by
  rw [fromUtf8Buf]
  split
  next hnone => rw [h, fromUtf8_utf8] at hnone; cases hnone
  next s hsome =>
    rw [h, fromUtf8_utf8] at hsome
    exact ⟨_, rfl, (Option.some.inj hsome).symm⟩

/-- Whichever way the payload is handed over, it is loaded. -/
theorem loadInputBytes_of_handedOver (hhex : hex.Documented) (henc : hex.Encodes) (hne : raw ≠ [])
    (h : HandedOver hex raw world input) :
    ∃ b : VecU8, loadInputBytes hex world input = .ok b ∧ b.1 = raw := by
  cases h with
  | argument h =>
      have hdash : Str.trim _ ≠ "-" := fun htrim => by
        refine h.not_mem hhex (c := '-') (by decide +kernel) ?_
        rw [htrim]
        exact List.mem_cons_self
      have hat : Str.stripPrefix (Str.trim _) "@" = none := Str.stripPrefix_eq_none (c := '@')
        List.mem_cons_self (h.not_mem hhex (by decide +kernel))
      obtain ⟨b, hb, hraw⟩ := parseHexBytes_of_shows (s := trimmed _) hhex henc hne (h.trim hhex)
      refine ⟨b, ?_, hraw⟩
      rw [loadInputBytes, if_neg hdash, hat, hb]
  | stdin hinput hstdin hbuf h =>
      obtain ⟨s, hs, rfl⟩ := fromUtf8Buf_of_utf8 hbuf
      obtain ⟨b, hb, hraw⟩ := parseHexBytes_of_shows (s := trimmed s) hhex henc hne (h.trim hhex)
      have hload : loadStdin hex world = .ok b := by
        rw [loadStdin, hstdin, Except.ok_bind, hs, Except.okOr, Except.ok_bind, hb]
      refine ⟨b, ?_, hraw⟩
      cases input with
      | none => exact hload
      | some s => rw [loadInputBytes, if_pos (hinput s rfl), hload]
  | file h hread hcontents =>
      have hdash : Str.trim _ ≠ "-" := fun htrim => by
        have hmem : '@' ∈ "-".toList := by
          rw [← htrim, h, String.toList_append]
          exact List.mem_append_left _ List.mem_cons_self
        exact absurd hmem (by decide +kernel)
      refine ⟨_, ?_, hcontents⟩
      rw [loadInputBytes, if_neg hdash, h, Str.stripPrefix_append]
      dsimp only
      rw [hread, Except.okOr]

end Input

section Post

variable {hex : FasterHex} {c : Ciborium} {e : Ed25519} {debug : Value → String}
variable {parseAddress : RString → Option Address} {sha256 : Bytes → Bytes32}
variable {cmd : PostCmd} {submit : Bool} {changeAddress : Option RString}
variable {ev : ParsedKommsEvent} {raw : Bytes} {json : Json}

/-- What every event that is posted has in common: nothing but fields of v0. -/
structure Plain (ev : ParsedKommsEvent) : Prop where
  version : ev.v = 0
  known : .fromU8 ev.t.asU8 = ev.t
  v1 : ev.toV1Fields = {}
  v11 : ev.toV11Fields = {}
  role : ev.toRoleFields = {}
  unextended : ev.extensionFields = .empty

theorem plain_of_postEvent {t : EventType} {ids : PostIds}
    {reference : Except String (Option VecU8)} {enc : Bool} {m : OptMeta}
    (ht : .fromU8 t.asU8 = t) (h : postEvent hex t ids reference enc m = .ok ev) : Plain ev := by
  simp only [postEvent, Except.bind_eq_ok, Except.pure_eq_ok, Except.ok.injEq] at h
  obtain ⟨_, -, _, -, _, -, _, -, _, -, _, -, _, -, rfl⟩ := h
  exact ⟨rfl, ht, rfl, rfl, rfl, rfl⟩

theorem plain_of_buildPostEv (h : buildPostEv hex cmd = .ok ev) : Plain ev := by
  cases cmd <;> exact plain_of_postEvent rfl h

/-- The participant of a member is all that is filled in. -/
theorem patch_eq_ok {ev' : ParsedKommsEvent}
    (h : patchMemberJoinLeavePid parseAddress sha256 ev cmd submit changeAddress = .ok ev') :
    ∃ pid, ev' = { ev with pid } := by
  cases cmd
  case memberJoin | memberLeave =>
    simp only [patchMemberJoinLeavePid, Except.bind_eq_ok, Except.pure_eq_ok,
      Except.ok.injEq] at h
    obtain ⟨_, -, _, -, rfl⟩ := h
    exact ⟨_, rfl⟩
  all_goals exact ⟨ev.pid, (Except.ok.inj h).symm⟩

theorem postEventOf_eq_ok :
    postEventOf hex c parseAddress sha256 cmd submit changeAddress = .ok ev ↔
      ∃ built, buildPostEv hex cmd = .ok built ∧
        patchMemberJoinLeavePid parseAddress sha256 built cmd submit changeAddress = .ok ev ∧
        ∃ raw, encodeKommsPayload c ev = .ok raw := by
  simp only [postEventOf, Except.bind_eq_ok, Except.mapError_eq_ok, Except.ok.injEq]
  constructor
  · rintro ⟨built, hbuild, _, hpatch, raw, hraw, rfl⟩
    exact ⟨built, hbuild, hpatch, raw, hraw⟩
  · rintro ⟨built, hbuild, hpatch, raw, hraw⟩
    exact ⟨built, hbuild, ev, hpatch, raw, hraw, rfl⟩

theorem plain_of_postEventOf
    (h : postEventOf hex c parseAddress sha256 cmd submit changeAddress = .ok ev) : Plain ev := by
  obtain ⟨built, hbuild, hpatch, -⟩ := postEventOf_eq_ok.mp h
  obtain ⟨pid, rfl⟩ := patch_eq_ok hpatch
  obtain ⟨hversion, hknown, hv1, hv11, hrole, hext⟩ := plain_of_buildPostEv hbuild
  exact ⟨hversion, hknown, hv1, hv11, hrole, hext⟩

theorem runPost_eq_ok : runPost hex c parseAddress sha256 cmd changeAddress = .ok json ↔
    ∃ ev raw, postEventOf hex c parseAddress sha256 cmd false changeAddress = .ok ev ∧
      encodeKommsPayload c ev = .ok raw ∧
      .ofMembers [("payload_hex", .string (hex.hexString raw)), ("event", eventToJson hex ev)] =
        json := by
  simp only [runPost, Except.bind_eq_ok, Except.mapError_eq_ok, Except.ok.injEq]
  constructor
  · rintro ⟨ev, hev, raw, hraw, hjson⟩
    exact ⟨ev, raw, hev, hraw, hjson⟩
  · rintro ⟨ev, raw, hev, hraw, hjson⟩
    exact ⟨ev, hev, raw, hraw, hjson⟩

/-- The JSON of an event shows no field that the encoding of v0 changes. -/
theorem eventToJson_received (ev : ParsedKommsEvent) :
    eventToJson hex ev.received = eventToJson hex ev := rfl

/-- Such an event is valid as received. -/
theorem valid_received_of_plain (hplain : Plain ev) (hvalid : validateEvent ev = .ok ()) :
    validateEvent ev.received = .ok () := by
  refine (valid_received_iff hplain.version hvalid).mpr fun hscheme => ?_
  rw [hplain.v1] at hscheme
  cases hscheme.1

/-- What is encoded for such an event parses to it. -/
theorem parse_of_plain (hc : c.Documented) (hplain : Plain ev)
    (hraw : encodeKommsPayload c ev = .ok raw) : parseKommsPayload c raw = .ok ev.received := by
  have hext : ExtensionsInProfile ev := by
    constructor <;> rw [hplain.unextended] <;> exact List.forall_mem_nil _
  obtain ⟨_, hencode, -⟩ := encodeKommsPayload_eq_ok.mp hraw
  exact (parse_encodeKommsPayload hc hext hraw).mpr
    ⟨rfl, valid_received_of_plain hplain (encodeCborMap_eq_ok.mp hencode).1⟩

/-- Both modes of `decode` read it without a warning. -/
theorem decodeEvent_of_plain (hc : c.Documented) (hplain : Plain ev)
    (hraw : encodeKommsPayload c ev = .ok raw) (strict : Bool) :
    decodeEvent c raw strict = .ok (ev.received, none) := by
  obtain ⟨cbor, rfl, hcanonical, hparse, hvalid⟩ :=
    parseKommsPayload_eq_ok.mp (parse_of_plain hc hplain hraw)
  cases strict
  case true => exact decodeEvent_strict.mpr ⟨⟨hcanonical, hparse, hvalid⟩, rfl⟩
  case false => exact decodeEvent_lenient.mpr ⟨hparse, no_warning_iff.mpr hvalid⟩

theorem decodePayload_of_plain (hc : c.Documented) (hplain : Plain ev)
    (hraw : encodeKommsPayload c ev = .ok raw) (strict : Bool) (pkHex : Option String) :
    decodePayload c e hex debug raw strict false false pkHex = .ok (eventToJson hex ev) := by
  rw [decodePayload, decodeEvent_of_plain hc hplain hraw, ← eventToJson_received]
  rfl

/-- However an encoded event is handed over, it is decoded. -/
theorem runDecode_of_handedOver {world : World} {input : Option RString} (hhex : hex.Documented)
    (henc : hex.Encodes) (hraw : encodeKommsPayload c ev = .ok raw)
    (hinput : HandedOver hex raw world input) (strict prettyCbor verifySig : Bool)
    (pkHex : Option String) :
    runDecode hex c e debug world input strict prettyCbor verifySig pkHex =
      decodePayload c e hex debug raw strict prettyCbor verifySig pkHex := by
  obtain ⟨cbor, -, rfl⟩ := encodeKommsPayload_eq_ok.mp hraw
  obtain ⟨b, hload, hb⟩ := loadInputBytes_of_handedOver hhex henc
    (List.append_ne_nil_of_left_ne_nil (by decide) cbor) hinput
  have hmapped : (loadInputBytes hex world input).mapError DecodeError.message = .ok b :=
    Except.mapError_eq_ok.mpr hload
  rw [runDecode, hmapped, Except.ok_bind, hb]

/-- The JSON of an event shows all of its v0 fields. -/
theorem eq_of_eventToJson (henc : hex.Encodes) {ev ev' : ParsedKommsEvent} (hplain : Plain ev)
    (hplain' : Plain ev') (h : eventToJson hex ev = eventToJson hex ev') : ev = ev' := by
  have hkeys : ((eventMembers hex ev).map Prod.fst).Nodup := by
    rw [eventMembers_keys]
    decide
  have hmembers := Json.eq_of_ofMembers h hkeys (by rw [eventMembers_keys, eventMembers_keys])
  simp only [eventMembers, List.cons.injEq, Prod.mk.injEq, true_and, and_true,
    (hexOpt_injective henc).eq_iff, (hexVec_injective henc).eq_iff, Json.number.injEq,
    Json.bool.injEq, Json.string.injEq] at hmembers
  obtain ⟨hv, ht, -, hsid, hcid, hdid, hpid, hmid, href, -, -, he, hts, hn, hsig⟩ := hmembers
  have ht : ev.t = ev'.t := by
    rw [← hplain.known, UInt8.toUInt64_inj.mp ht, hplain'.known]
  have hts := Json.ofOption_map_number_injective hts
  have hn := Json.ofOption_map_number_injective hn
  have hsig := hexString_map_injective henc Subtype.val_injective hsig
  have hv1 := hplain.v1.trans hplain'.v1.symm
  have hv11 := hplain.v11.trans hplain'.v11.symm
  have hrole := hplain.role.trans hplain'.role.symm
  have hext := hplain.unextended.trans hplain'.unextended.symm
  obtain ⟨⟨⟩, _, _, _, _⟩ := ev
  obtain ⟨⟨⟩, _, _, _, _⟩ := ev'
  dsimp only at *
  subst_vars
  rfl

/-- What `post` prints can be handed to `decode` in any way, and is shown as the event that was
posted. -/
theorem decode_of_post (hex : FasterHex) (c : Ciborium) (e : Ed25519) (debug : Value → String)
    (parseAddress : RString → Option Address) (sha256 : Bytes → Bytes32) (hhex : hex.Documented)
    (henc : hex.Encodes) (hc : c.Documented) (cmd : PostCmd) (changeAddress : Option RString)
    (json : Json) (h : runPost hex c parseAddress sha256 cmd changeAddress = .ok json) :
    ∃ raw event, json.get? "payload_hex" = some (.string (hex.hexString raw)) ∧
      json.get? "event" = some event ∧
      ∀ world input strict pkHex, HandedOver hex raw world input →
        runDecode hex c e debug world input strict false false pkHex = .ok event := by
  obtain ⟨ev, raw, hev, hraw, rfl⟩ := runPost_eq_ok.mp h
  refine ⟨raw, eventToJson hex ev, Json.get?_ofMembers (by simp) (by simp),
    Json.get?_ofMembers (by simp) (by simp), fun world input strict pkHex hinput => ?_⟩
  rw [runDecode_of_handedOver hhex henc hraw hinput]
  exact decodePayload_of_plain hc (plain_of_postEventOf hev) hraw strict pkHex

/-- `server-create` without a reference. -/
def sampleServerCreate : PostCmd := .serverCreate sampleId none none none {}

theorem sampleServerCreate_decoded : ∃ json raw event,
    runPost .reference .reference (fun _ => none) (fun _ => sampleIdBytes) sampleServerCreate none =
      .ok json ∧
    json.get? "payload_hex" = some (.string (FasterHex.reference.hexString raw)) ∧
    json.get? "event" = some event ∧
    ∀ world input strict pkHex, HandedOver .reference raw world input →
      runDecode .reference .reference .reference (fun _ => "") world input strict false false
        pkHex = .ok event := by
  obtain ⟨json, hpost, -⟩ := Except.exists_ok_of_any
    (x := runPost .reference .reference (fun _ => none) (fun _ => sampleIdBytes)
      sampleServerCreate none) (p := fun _ => true) (by decide +kernel)
  obtain ⟨raw, event, hposted⟩ := decode_of_post .reference .reference .reference (fun _ => "")
    (fun _ => none) (fun _ => sampleIdBytes) FasterHex.reference_documented
    FasterHex.reference_encodes Ciborium.reference_documented _ _ json hpost
  exact ⟨json, raw, event, hpost, hposted⟩

/-- The event and the payload that `post` prints determine each other. -/
theorem event_iff_payload (hex : FasterHex) (c : Ciborium)
    (parseAddress : RString → Option Address) (sha256 : Bytes → Bytes32) (henc : hex.Encodes)
    (hc : c.Documented) (cmd cmd' : PostCmd) (changeAddress changeAddress' : Option RString)
    (json json' : Json) (h : runPost hex c parseAddress sha256 cmd changeAddress = .ok json)
    (h' : runPost hex c parseAddress sha256 cmd' changeAddress' = .ok json') :
    json.get? "event" = json'.get? "event" ↔
      json.get? "payload_hex" = json'.get? "payload_hex" := by
  obtain ⟨ev, raw, hev, hraw, rfl⟩ := runPost_eq_ok.mp h
  obtain ⟨ev', raw', hev', hraw', rfl⟩ := runPost_eq_ok.mp h'
  have hplain := plain_of_postEventOf hev
  have hplain' := plain_of_postEventOf hev'
  have hkeys (x y : Json) : ([("payload_hex", x), ("event", y)].map Prod.fst).Nodup := by simp
  rw [Json.get?_ofMembers (hkeys _ _) (List.mem_cons_of_mem _ List.mem_cons_self),
    Json.get?_ofMembers (hkeys _ _) (List.mem_cons_of_mem _ List.mem_cons_self),
    Json.get?_ofMembers (hkeys _ _) List.mem_cons_self,
    Json.get?_ofMembers (hkeys _ _) List.mem_cons_self,
    Option.some.injEq, Option.some.injEq, Json.string.injEq, henc.hexString_injective.eq_iff]
  constructor
  · intro hevent
    obtain rfl := eq_of_eventToJson henc hplain hplain' hevent
    exact Except.ok.inj (hraw.symm.trans hraw')
  · rintro rfl
    have hparse := parse_of_plain hc hplain hraw
    rw [parse_of_plain hc hplain' hraw'] at hparse
    rw [← eventToJson_received ev, ← eventToJson_received ev', Except.ok.inj hparse]

/-- A server is created and updated. -/
theorem sampleServer_posts : ∃ json json',
    runPost .reference .reference (fun _ => none) (fun _ => sampleIdBytes) sampleServerCreate none =
      .ok json ∧
    runPost .reference .reference (fun _ => none) (fun _ => sampleIdBytes)
      (.serverUpdate sampleId none none sampleId {}) none = .ok json' ∧
    (json.get? "event" = json'.get? "event" ↔
      json.get? "payload_hex" = json'.get? "payload_hex") := by
  obtain ⟨json, hpost, -⟩ := Except.exists_ok_of_any
    (x := runPost .reference .reference (fun _ => none) (fun _ => sampleIdBytes)
      sampleServerCreate none) (p := fun _ => true) (by decide +kernel)
  obtain ⟨json', hpost', -⟩ := Except.exists_ok_of_any
    (x := runPost .reference .reference (fun _ => none) (fun _ => sampleIdBytes)
      (.serverUpdate sampleId none none sampleId {}) none) (p := fun _ => true) (by decide +kernel)
  exact ⟨json, json', hpost, hpost', event_iff_payload .reference .reference (fun _ => none)
    (fun _ => sampleIdBytes) FasterHex.reference_encodes Ciborium.reference_documented _ _ none none
    json json' hpost hpost'⟩

theorem get?_eventToJson {key : String} {value : Json} (h : (key, value) ∈ eventMembers hex ev) :
    (eventToJson hex ev).get? key = some value :=
  Json.get?_ofMembers (by rw [eventMembers_keys]; decide) h

/-- The participant of a member is that of the address that is given, or of the change address of
a submission. -/
theorem pid_of_postEventOf {memberAddress : Option RString}
    (h : postEventOf hex c parseAddress sha256 cmd submit changeAddress = .ok ev)
    (hmember : cmd.memberAddress? = some memberAddress) :
    ∃ s addr, memberAddress.or (if submit then changeAddress else none) = some s ∧
      parseAddress s = some addr ∧
      ev.pid = some (participantId sha256 (creatorAddressBodyFromAddr addr)) := by
  obtain ⟨built, -, hpatch, -⟩ := postEventOf_eq_ok.mp h
  cases cmd
  case memberJoin | memberLeave =>
    obtain rfl := Option.some.inj hmember
    simp only [patchMemberJoinLeavePid, Except.bind_eq_ok, memberAddrStr_eq_ok, Except.okOr_eq_ok,
      Except.pure_eq_ok, Except.ok.injEq] at hpatch
    obtain ⟨s, hs, addr, haddr, rfl⟩ := hpatch
    exact ⟨s, addr, hs, haddr, rfl⟩
  all_goals cases hmember

/-- The wallet that `id new-wallet` shows is read by `id creator-bytes` as it was shown, and a
member with its address, given or used for change, is posted under the id that was shown. -/
theorem participant_of_wallet (hex : FasterHex) (c : Ciborium)
    (parseAddress : RString → Option Address) (sha256 : Bytes → Bytes32) (pubKeyVersion : UInt8)
    (addressToString : Address → RString)
    (haddress : ∀ xonly : Bytes32, parseAddress (addressToString ⟨pubKeyVersion, xonly.1⟩) =
      some ⟨pubKeyVersion, xonly.1⟩) (secretKey xonly : Bytes32) :
    let wallet := runNewWallet hex sha256 pubKeyVersion addressToString secretKey xonly
    ∃ address : RString, wallet.get? "kaspa_address" = some (.string address.1) ∧
      (∃ shown, runCreatorBytes hex parseAddress sha256 address = .ok shown ∧
        ∀ key ∈ ["kaspa_address", "address_version", "creator_address_hex", "participant_id_hex"],
          shown.get? key = wallet.get? key) ∧
      ∀ cmd submit changeAddress memberAddress ev,
        cmd.memberAddress? = some memberAddress →
        memberAddress.or (if submit then changeAddress else none) = some address →
        postEventOf hex c parseAddress sha256 cmd submit changeAddress = .ok ev →
        (eventToJson hex ev).get? "pid" = wallet.get? "participant_id_hex" := by
  intro wallet
  let addr : Address := ⟨pubKeyVersion, xonly.1⟩
  let members := creatorMembers hex sha256 (addressToString addr) addr
  have hkeys : (members.map Prod.fst).Nodup := by
    simp [members, creatorMembers, addressMembers]
  have hkeys' : ((("private_key_hex", hex32 hex secretKey) ::
      ("xonly_pubkey_hex", hex32 hex xonly) :: members).map Prod.fst).Nodup := by
    simp [members, creatorMembers, addressMembers]
  have hwallet {key : String} (h : key ∈ members.map Prod.fst) :
      (Json.ofMembers members).get? key = wallet.get? key :=
    Json.get?_ofMembers_of_subset hkeys hkeys' (fun m hm => .tail _ (.tail _ hm)) h
  refine ⟨addressToString addr, ?_, ⟨.ofMembers members, ?_, fun key hkey => hwallet hkey⟩, ?_⟩
  · rw [← hwallet List.mem_cons_self]
    exact Json.get?_ofMembers hkeys List.mem_cons_self
  · rw [runCreatorBytes, haddress]
    rfl
  · intro cmd submit changeAddress memberAddress ev hmember haddr hpost
    obtain ⟨s, addr', hs, hparse, hpid⟩ := pid_of_postEventOf hpost hmember
    obtain rfl := Option.some.inj (haddr.symm.trans hs)
    obtain rfl := Option.some.inj ((haddress xonly).symm.trans hparse)
    have hshown : (eventToJson hex ev).get? "pid" = some (hexOpt hex ev.pid) :=
      get?_eventToJson (by simp [eventMembers])
    have hpidKey : "participant_id_hex" ∈ members.map Prod.fst := by
      simp [members, creatorMembers, addressMembers]
    rw [hshown, ← hwallet hpidKey, hpid]
    exact (Json.get?_ofMembers hkeys (by simp [members, creatorMembers, addressMembers]; rfl)).symm

/-- The text of an address is its payload, which is enough for one version. -/
def sampleAddressText (addr : Address) : RString :=
  if h : (utf8 (FasterHex.reference.hexString addr.payload)).length < 2 ^ 63 then ⟨_, h⟩
  else ⟨"", by decide +kernel⟩

def parseSampleAddress (s : RString) : Option Address :=
  (Hex.decode (utf8 s.1)).map fun payload => ⟨0, payload⟩

theorem parseSampleAddress_text (xonly : Bytes32) :
    parseSampleAddress (sampleAddressText ⟨0, xonly.1⟩) = some ⟨0, xonly.1⟩ := by
  have hdecode := Hex.decode_encode xonly.1
  have hlength := Hex.length_of_decode hdecode
  rw [← utf8_reference] at hdecode hlength
  have hshort : (utf8 (FasterHex.reference.hexString xonly.1)).length < 2 ^ 63 := by
    rw [hlength, xonly.2]
    decide
  rw [parseSampleAddress, sampleAddressText, dif_pos hshort, hdecode]
  rfl

/-- A wallet whose key bytes are all one joins a server. -/
theorem participant_of_sampleWallet : ∃ ev,
    postEventOf .reference .reference parseSampleAddress (fun _ => sampleIdBytes)
      (.memberJoin sampleId (sampleAddressText ⟨0, sampleIdBytes.1⟩) none {}) false none =
        .ok ev ∧
    (eventToJson .reference ev).get? "pid" = (runNewWallet .reference (fun _ => sampleIdBytes) 0
      sampleAddressText sampleIdBytes sampleIdBytes).get? "participant_id_hex" := by
  obtain ⟨ev, hpost, -⟩ := Except.exists_ok_of_any
    (x := postEventOf .reference .reference parseSampleAddress (fun _ => sampleIdBytes)
      (.memberJoin sampleId (sampleAddressText ⟨0, sampleIdBytes.1⟩) none {}) false none)
    (p := fun _ => true) (by decide +kernel)
  obtain ⟨address, haddress, -, hmember⟩ := participant_of_wallet .reference .reference
    parseSampleAddress (fun _ => sampleIdBytes) 0 sampleAddressText parseSampleAddress_text
    sampleIdBytes sampleIdBytes
  have hshown : (runNewWallet .reference (fun _ => sampleIdBytes) 0 sampleAddressText sampleIdBytes
      sampleIdBytes).get? "kaspa_address" =
        some (.string (sampleAddressText ⟨0, sampleIdBytes.1⟩).1) :=
    Json.get?_ofMembers (by simp [creatorMembers, addressMembers]) (by simp [creatorMembers])
  rw [hshown] at haddress
  have hsame : sampleAddressText ⟨0, sampleIdBytes.1⟩ = address := by
    simpa [Subtype.ext_iff] using haddress
  exact ⟨ev, hpost, hmember _ false none _ ev rfl (by rw [hsame]; rfl) hpost⟩

theorem refBytes_of_postEvent {t : EventType} {ids : PostIds}
    {reference : Except String (Option VecU8)} {enc : Bool} {m : OptMeta}
    (h : postEvent hex t ids reference enc m = .ok ev) : reference = .ok ev.refBytes := by
  simp only [postEvent, Except.bind_eq_ok, Except.pure_eq_ok, Except.ok.injEq] at h
  obtain ⟨_, -, _, -, _, -, _, -, _, -, _, hreference, _, -, rfl⟩ := h
  exact hreference

theorem needRef_eq_ok {message : String} {reference : Except String (Option VecU8)}
    {r : Option VecU8} (h : needRef message reference = .ok r) : reference = .ok r := by
  simp only [needRef, Except.bind_eq_ok, Except.okOr_eq_ok, Except.pure_eq_ok,
    Except.ok.injEq] at h
  obtain ⟨_, href, _, rfl, rfl⟩ := h
  exact href

/-- The reference of an event is the one that its subcommand was given. -/
theorem refBytes_of_buildPostEv (h : buildPostEv hex cmd = .ok ev) :
    refFromOpts hex cmd.refOpts.refHex cmd.refOpts.cidStr cmd.refOpts.contentHash =
      .ok ev.refBytes := by
  cases cmd
  case serverCreate | serverUpdate => exact refBytes_of_postEvent h
  case messagePost | messageEdit | dmMessagePost => exact needRef_eq_ok (refBytes_of_postEvent h)
  case messageDelete => exact refBytes_of_postEvent h
  all_goals exact (refFromHex_eq _).symm.trans (refBytes_of_postEvent h)

theorem refBytes_of_postEventOf
    (h : postEventOf hex c parseAddress sha256 cmd submit changeAddress = .ok ev) :
    refFromOpts hex cmd.refOpts.refHex cmd.refOpts.cidStr cmd.refOpts.contentHash =
      .ok ev.refBytes := by
  obtain ⟨built, hbuild, hpatch, -⟩ := postEventOf_eq_ok.mp h
  have hbuilt := refBytes_of_buildPostEv hbuild
  obtain ⟨pid, rfl⟩ := patch_eq_ok hpatch
  exact hbuilt

/-- A reference that is posted is valid. -/
theorem validateRef_of_postEventOf {r : VecU8}
    (h : postEventOf hex c parseAddress sha256 cmd submit changeAddress = .ok ev)
    (hr : ev.refBytes = some r) : validateRef r.1 = .ok () := by
  obtain ⟨_, -, -, raw, hraw⟩ := postEventOf_eq_ok.mp h
  obtain ⟨_, hencode, -⟩ := encodeKommsPayload_eq_ok.mp hraw
  have hrules := (validateEvent_eq_ok.mp (encodeCborMap_eq_ok.mp hencode).1).1
  exact validateRef_eq_ok.mpr (hrules.ref r hr)

/-- The comparison with the contents of a file. -/
theorem runVerifyContent_eq (sha256 : Bytes → Bytes32) {refHex : RString} {r : VecU8}
    (hr : parseHexBytes hex refHex = .ok r) (data : Bytes) :
    ∃ shown, runVerifyContent hex sha256 data refHex = .ok shown ∧
      (shown.get? "matches_ref_content_hash" = some (.bool true) ↔
        r = refFromContentHash (sha256 data)) := by
  refine ⟨_, by rw [runVerifyContent, hr]; rfl, ?_⟩
  have hsame : (r.1.head? = some 0x02 ∧ r.1.length = 33 ∧ r.1.drop 1 = (sha256 data).1) ↔
      r = refFromContentHash (sha256 data) := by
    constructor
    · rintro ⟨hhead, -, htail⟩
      obtain ⟨rest, hrest⟩ := List.head?_eq_some_iff.mp hhead
      rw [hrest, List.drop_one, List.tail_cons] at htail
      exact Subtype.ext (hrest.trans (by rw [htail]; rfl))
    · rintro rfl
      exact ⟨rfl, congrArg Nat.succ (sha256 data).2, rfl⟩
  rw [← hsame, Json.get?_ofMembers (by simp) (List.mem_cons_of_mem _ (List.mem_cons_of_mem _
    List.mem_cons_self))]
  simp

theorem refFromContentHash_injective : Function.Injective refFromContentHash := by
  intro a b h
  exact Subtype.ext (List.cons.inj (congrArg Subtype.val h)).2

/-- The reference that a content hash gives. -/
theorem refFromOpts_contentHash {hash : RString} {r : VecU8}
    (h : refFromOpts hex none none (some hash) = .ok (some r)) :
    ∃ v, parseHex32 hex hash.1 = .ok v ∧ r = refFromContentHash v := by
  cases hparse : parseHex32 hex hash.1 with
  | error e => simp [refFromOpts, Except.failIf, hparse] at h
  | ok v =>
      simp [refFromOpts, Except.failIf, hparse] at h
      exact ⟨v, rfl, h.symm⟩

/-- A reference that is posted is inspected as it was shown, and verified against contents whose
hash it is: if it was given as a content hash, against contents with that hash. -/
theorem verify_of_post (hex : FasterHex) (c : Ciborium)
    (parseAddress : RString → Option Address) (sha256 : Bytes → Bytes32) (hhex : hex.Documented)
    (henc : hex.Encodes) (cmd : PostCmd) (changeAddress : Option RString) (json : Json)
    (h : runPost hex c parseAddress sha256 cmd changeAddress = .ok json) :
    ∃ event, json.get? "event" = some event ∧ ∀ text, event.get? "ref" = some (.string text) →
      ∀ refHex : RString, Shows refHex.1 text →
        (∃ shown, runRefInspect hex refHex = .ok shown ∧
          event.get? "ref_decoded" = some shown) ∧
        ∀ data, ∃ shown, runVerifyContent hex sha256 data refHex = .ok shown ∧
          (shown.get? "matches_ref_content_hash" = some (.bool true) ↔
            text = hex.hexString (refFromContentHash (sha256 data)).1) ∧
          ∀ hash : RString, cmd.refOpts = { contentHash := hash } →
            (shown.get? "matches_ref_content_hash" = some (.bool true) ↔
              parseHex32 hex hash.1 = .ok (sha256 data)) := by
  obtain ⟨ev, raw, hev, hraw, rfl⟩ := runPost_eq_ok.mp h
  refine ⟨eventToJson hex ev, Json.get?_ofMembers (by simp) (by simp), ?_⟩
  intro text htext refHex hshows
  have href : (eventToJson hex ev).get? "ref" = some (hexVec hex ev.refBytes) :=
    get?_eventToJson (by simp [eventMembers])
  have hdecoded : (eventToJson hex ev).get? "ref_decoded" =
      some (.ofOption (ev.refBytes.map fun r => refJson hex r.1)) :=
    get?_eventToJson (by simp [eventMembers])
  cases hr : ev.refBytes with
  | none => rw [href, hr] at htext; cases htext
  | some r =>
      rw [hr] at hdecoded
      rw [href, hr] at htext
      obtain rfl : hex.hexString r.1 = text := by simpa [hexVec, Json.ofOption] using htext
      have hvalid := validateRef_of_postEventOf hev hr
      obtain ⟨b, hb, hbytes⟩ :=
        parseHexBytes_of_shows hhex henc (ne_nil_of_validateRef hvalid) hshows
      obtain rfl : b = r := Subtype.ext hbytes
      refine ⟨⟨refJson hex b.1, by rw [runRefInspect, hb]; rfl, hdecoded⟩, fun data => ?_⟩
      obtain ⟨shown, hshown, hmatches⟩ := runVerifyContent_eq sha256 hb data
      refine ⟨shown, hshown, hmatches.trans ?_, fun hash hopts => hmatches.trans ?_⟩
      · exact Subtype.ext_iff.trans henc.hexString_injective.eq_iff.symm
      · have hpost := refBytes_of_postEventOf hev
        rw [hopts, hr] at hpost
        obtain ⟨v, hv, rfl⟩ := refFromOpts_contentHash hpost
        rw [hv, refFromContentHash_injective.eq_iff, Except.ok.injEq]

/-- A server whose reference is the hash of no contents, for a hash that tells only whether there
are any. -/
theorem sampleHash_verified : ∃ json, runPost .reference .reference (fun _ => none)
      (fun data => if data = [] then sampleIdBytes else List.Vector.replicate 32 0)
      (.serverCreate sampleId none none sampleId {}) none = .ok json ∧
    ∃ event, json.get? "event" = some event ∧ ∀ text, event.get? "ref" = some (.string text) →
      ∀ refHex : RString, Shows refHex.1 text → ∃ shown, runVerifyContent .reference
          (fun data => if data = [] then sampleIdBytes else List.Vector.replicate 32 0) [] refHex =
            .ok shown ∧ shown.get? "matches_ref_content_hash" = some (.bool true) := by
  obtain ⟨json, hpost, -⟩ := Except.exists_ok_of_any
    (x := runPost .reference .reference (fun _ => none)
      (fun data => if data = [] then sampleIdBytes else List.Vector.replicate 32 0)
      (.serverCreate sampleId none none sampleId {}) none) (p := fun _ => true) (by decide +kernel)
  refine ⟨json, hpost, ?_⟩
  obtain ⟨event, hevent, hposted⟩ := verify_of_post .reference .reference (fun _ => none) _
    FasterHex.reference_documented FasterHex.reference_encodes _ none json hpost
  refine ⟨event, hevent, fun text htext refHex hshows => ?_⟩
  obtain ⟨shown, hshown, -, hhash⟩ := (hposted text htext refHex hshows).2 []
  exact ⟨shown, hshown, (hhash sampleId rfl).mpr (by decide +kernel)⟩

end Post

end Komms
