import Komms.Cli.Hexutil
import Komms.Protocol.RoundTrip

/-!
# The `post` subcommands

`buildPostEv` makes the event of a subcommand, `patchMemberJoinLeavePid` fills in the
participant id of a member, and `postPayload` encodes the result. Each arm of `buildPostEv`
is `postEvent` at the fields of its subcommand. An error is the message that is shown.

`Given` holds what the arguments stand for and `WellFormed` says that they are in order;
`postPayload_iff` says for which subcommands the payload is then made and read back.
-/

namespace Komms

open Cbor Hexutil

structure OptMeta where
  ts : Option UInt64 := none
  n : Option UInt64 := none
  sigHex : Option RString := none

inductive PostCmd where
  | serverCreate (sid : RString) (refHex cidStr contentHash : Option RString) (optMeta : OptMeta)
  | serverUpdate (sid : RString) (refHex cidStr contentHash : Option RString) (optMeta : OptMeta)
  | channelCreate (sid cid : RString) (refHex : Option RString) (optMeta : OptMeta)
  | channelUpdate (sid cid : RString) (refHex : Option RString) (optMeta : OptMeta)
  | messagePost (sid cid : RString) (refHex refCid contentHash pid : Option RString)
      (optMeta : OptMeta)
  | messageEdit (sid cid mid : RString) (refHex refCid contentHash : Option RString)
      (optMeta : OptMeta)
  | messageDelete (sid cid mid : RString) (optMeta : OptMeta)
  | dmMessagePost (did : RString) (refHex refCid contentHash : Option RString) (optMeta : OptMeta)
  | reactionAdd (sid cid mid : RString) (refHex : Option RString) (optMeta : OptMeta)
  | reactionRemove (sid cid mid : RString) (refHex : Option RString) (optMeta : OptMeta)
  | memberJoin (sid : RString) (memberAddress refHex : Option RString) (optMeta : OptMeta)
  | memberLeave (sid : RString) (memberAddress refHex : Option RString) (optMeta : OptMeta)
  | roleAssign (sid : RString) (cid refHex : Option RString) (optMeta : OptMeta)
  | roleRevoke (sid : RString) (cid refHex : Option RString) (optMeta : OptMeta)
  | moderationAction (sid : RString) (cid mid refHex : Option RString) (optMeta : OptMeta)

/-- A Kaspa address, without its network. -/
structure Address where
  version : UInt8
  payload : Bytes

def creatorAddressBodyFromAddr (addr : Address) : Bytes := addr.version :: addr.payload

/-- The arguments of a subcommand that are ids. -/
structure PostIds where
  sid : Option RString := none
  cid : Option RString := none
  did : Option RString := none
  pid : Option RString := none
  mid : Option RString := none

section Source

variable (hex : FasterHex)

/-- `ref_hex.map(parse_hex_bytes).transpose()`. -/
def refFromHex (refHex : Option RString) : Except String (Option VecU8) :=
  refHex.mapM (parseHexBytes hex)

def refFromOpts (refHex cidStr contentHash : Option RString) : Except String (Option VecU8) := do
  let n := refHex.isSome.toNat + cidStr.isSome.toNat + contentHash.isSome.toNat
  .failIf (n > 1) "use only one of --ref-hex, --cid-str, --content-hash"
  match refHex with
  | some h => some <$> parseHexBytes hex h
  | none =>
    match cidStr with
    | some c => some <$> (refFromCidStr c).mapError RefBuildError.message
    | none =>
      match contentHash with
      | some h => (some <| refFromContentHash ·) <$> parseHex32 hex h.1
      | none => .ok none

def metaSig (m : OptMeta) : Except String (Option Bytes64) :=
  m.sigHex.mapM fun h => parseHex64Sig hex h.1

/-- A reference that has to be there. -/
def needRef (message : String) (reference : Except String (Option VecU8)) :
    Except String (Option VecU8) := do
  return some (← .okOr (← reference) message)

/-- The event literal of an arm. -/
def postEvent (t : EventType) (ids : PostIds) (reference : Except String (Option VecU8))
    (enc : Bool) (m : OptMeta) : Except String ParsedKommsEvent := do
  let z (s : RString) := parseHex32 hex s.1
  let sid ← ids.sid.mapM z
  let cid ← ids.cid.mapM z
  let did ← ids.did.mapM z
  let pid ← ids.pid.mapM z
  let mid ← ids.mid.mapM z
  let refBytes ← reference
  let sig ← metaSig hex m
  return { v := 0, t, sid, cid, did, pid, mid, refBytes, enc, ts := m.ts, n := m.n, sig }

def buildPostEv : PostCmd → Except String ParsedKommsEvent
  | .serverCreate sid refHex cidStr contentHash m =>
    postEvent hex .serverCreate { sid } (refFromOpts hex refHex cidStr contentHash) false m
  | .serverUpdate sid refHex cidStr contentHash m =>
    postEvent hex .serverUpdate { sid } (refFromOpts hex refHex cidStr contentHash) false m
  | .channelCreate sid cid refHex m =>
    postEvent hex .channelCreate { sid, cid } (refFromHex hex refHex) false m
  | .channelUpdate sid cid refHex m =>
    postEvent hex .channelUpdate { sid, cid } (refFromHex hex refHex) false m
  | .messagePost sid cid refHex refCid contentHash pid m =>
    postEvent hex .messagePost { sid, cid, pid }
      (needRef "message-post needs ref" (refFromOpts hex refHex refCid contentHash)) false m
  | .messageEdit sid cid mid refHex refCid contentHash m =>
    postEvent hex .messageEdit { sid, cid, mid }
      (needRef "message-edit needs ref" (refFromOpts hex refHex refCid contentHash)) false m
  | .messageDelete sid cid mid m =>
    postEvent hex .messageDelete { sid, cid, mid } (.ok none) false m
  | .dmMessagePost did refHex refCid contentHash m =>
    postEvent hex .dmMessagePost { did }
      (needRef "dm-message-post needs ref" (refFromOpts hex refHex refCid contentHash)) true m
  | .reactionAdd sid cid mid refHex m =>
    postEvent hex .reactionAdd { sid, cid, mid } (refFromHex hex refHex) false m
  | .reactionRemove sid cid mid refHex m =>
    postEvent hex .reactionRemove { sid, cid, mid } (refFromHex hex refHex) false m
  | .memberJoin sid _ refHex m =>
    postEvent hex .memberJoin { sid } (refFromHex hex refHex) false m
  | .memberLeave sid _ refHex m =>
    postEvent hex .memberLeave { sid } (refFromHex hex refHex) false m
  | .roleAssign sid cid refHex m =>
    postEvent hex .roleAssign { sid, cid } (refFromHex hex refHex) false m
  | .roleRevoke sid cid refHex m =>
    postEvent hex .roleRevoke { sid, cid } (refFromHex hex refHex) false m
  | .moderationAction sid cid mid refHex m =>
    postEvent hex .moderationAction { sid, cid, mid } (refFromHex hex refHex) false m

/-- The address of a member, which defaults to the change address of a submission. -/
def memberAddrStr (memberAddress : Option RString) (submit : Bool)
    (changeAddress : Option RString) : Except String RString :=
  match memberAddress with
  | some s => .ok s
  | none =>
    if submit then
      .okOr changeAddress
        "member-join/member-leave: use --member-address, or --submit with --change-address"
    else
      .error ("member-join/member-leave: provide --member-address " ++
        "(or use --submit with --change-address)")

variable (parseAddress : RString → Option Address) (sha256 : Bytes → Bytes32)

/-- A joining or leaving member is identified by its address. -/
def patchMemberJoinLeavePid (ev : ParsedKommsEvent) (cmd : PostCmd) (submit : Bool)
    (changeAddress : Option RString) : Except String ParsedKommsEvent :=
  match cmd with
  | .memberJoin _ memberAddress _ _ | .memberLeave _ memberAddress _ _ => do
    let addrStr ← memberAddrStr memberAddress submit changeAddress
    let addr ← .okOr (parseAddress addrStr) "member/change address"
    return { ev with pid := some (participantId sha256 (creatorAddressBodyFromAddr addr)) }
  | _ => .ok ev

variable (c : Ciborium)

/-- The payload that a `post` command prints or submits. -/
def postPayload (cmd : PostCmd) (submit : Bool) (changeAddress : Option RString) :
    Except String Bytes := do
  let ev ← buildPostEv hex cmd
  let ev ← patchMemberJoinLeavePid parseAddress sha256 ev cmd submit changeAddress
  (encodeKommsPayload c ev).mapError fun _ => "validate + encode event"

end Source

namespace PostCmd

def eventType : PostCmd → EventType
  | serverCreate .. => .serverCreate
  | serverUpdate .. => .serverUpdate
  | channelCreate .. => .channelCreate
  | channelUpdate .. => .channelUpdate
  | messagePost .. => .messagePost
  | messageEdit .. => .messageEdit
  | messageDelete .. => .messageDelete
  | dmMessagePost .. => .dmMessagePost
  | reactionAdd .. => .reactionAdd
  | reactionRemove .. => .reactionRemove
  | memberJoin .. => .memberJoin
  | memberLeave .. => .memberLeave
  | roleAssign .. => .roleAssign
  | roleRevoke .. => .roleRevoke
  | moderationAction .. => .moderationAction

def ids : PostCmd → PostIds
  | serverCreate sid .. | serverUpdate sid .. | memberJoin sid .. | memberLeave sid .. => { sid }
  | channelCreate sid cid .. | channelUpdate sid cid .. => { sid, cid }
  | messagePost sid cid _ _ _ pid _ => { sid, cid, pid }
  | messageEdit sid cid mid .. | messageDelete sid cid mid .. | reactionAdd sid cid mid ..
  | reactionRemove sid cid mid .. => { sid, cid, mid }
  | dmMessagePost did .. => { did }
  | roleAssign sid cid .. | roleRevoke sid cid .. => { sid, cid }
  | moderationAction sid cid mid .. => { sid, cid, mid }

def optMeta : PostCmd → OptMeta
  | serverCreate _ _ _ _ m | serverUpdate _ _ _ _ m | channelCreate _ _ _ m
  | channelUpdate _ _ _ m | messagePost _ _ _ _ _ _ m | messageEdit _ _ _ _ _ _ m
  | messageDelete _ _ _ m | dmMessagePost _ _ _ _ m | reactionAdd _ _ _ _ m
  | reactionRemove _ _ _ _ m | memberJoin _ _ _ m | memberLeave _ _ _ m | roleAssign _ _ _ m
  | roleRevoke _ _ _ m | moderationAction _ _ _ _ m => m

end PostCmd

/-- The three ways to give a reference. -/
structure RefOpts where
  refHex : Option RString := none
  cidStr : Option RString := none
  contentHash : Option RString := none

/-- At most one option is given, and the reference is what it stands for. -/
inductive RefOpts.Yields : RefOpts → Option VecU8 → Prop where
  | none : Yields {} none
  | refHex {s : RString} {r : VecU8} (h : Denotes s.1 r.1) : Yields { refHex := s } r
  | cidStr {s : RString} {r : VecU8} (h : r.1 = 0x01 :: utf8 s.1) : Yields { cidStr := s } r
  | contentHash {s : RString} {hash : Bytes32} {r : VecU8} (h : Denotes s.1 hash.1)
      (hr : r.1 = 0x02 :: hash.1) : Yields { contentHash := s } r

namespace PostCmd

def refOpts : PostCmd → RefOpts
  | serverCreate _ refHex cidStr contentHash _ | serverUpdate _ refHex cidStr contentHash _
  | messagePost _ _ refHex cidStr contentHash _ _ | messageEdit _ _ _ refHex cidStr contentHash _
  | dmMessagePost _ refHex cidStr contentHash _ => { refHex, cidStr, contentHash }
  | channelCreate _ _ refHex _ | channelUpdate _ _ refHex _ | reactionAdd _ _ _ refHex _
  | reactionRemove _ _ _ refHex _ | memberJoin _ _ refHex _ | memberLeave _ _ refHex _
  | roleAssign _ _ refHex _ | roleRevoke _ _ refHex _ | moderationAction _ _ _ refHex _ =>
    { refHex }
  | messageDelete .. => {}

/-- The subcommands that cannot do without a reference. -/
def demandsRef : PostCmd → Bool
  | messagePost .. | messageEdit .. | dmMessagePost .. => true
  | _ => false

/-- The member address of a subcommand that has one, which may be left out. -/
def memberAddress? : PostCmd → Option (Option RString)
  | memberJoin _ memberAddress _ _ | memberLeave _ memberAddress _ _ => some memberAddress
  | _ => none

end PostCmd

/-- What the arguments of a subcommand stand for. -/
structure Given where
  sid : Option Bytes32 := none
  cid : Option Bytes32 := none
  did : Option Bytes32 := none
  pid : Option Bytes32 := none
  mid : Option Bytes32 := none
  ref : Option VecU8 := none
  sig : Option Bytes64 := none

/-- An optional argument and the value it stands for, which is there if the argument is. -/
def Denoted {n : Nat} (s : Option RString) (v : Option (List.Vector UInt8 n)) : Prop :=
  Option.Rel (fun s v => Denotes s.1 v.1) s v

/-- The arguments are in order: hexadecimal where they have to be, with a reference that is
valid and not missing, and with a member that has an address. -/
structure PostCmd.WellFormed (parseAddress : RString → Option Address) (cmd : PostCmd)
    (submit : Bool) (changeAddress : Option RString) (g : Given) : Prop where
  sid : Denoted cmd.ids.sid g.sid
  cid : Denoted cmd.ids.cid g.cid
  did : Denoted cmd.ids.did g.did
  pid : Denoted cmd.ids.pid g.pid
  mid : Denoted cmd.ids.mid g.mid
  sig : Denoted cmd.optMeta.sigHex g.sig
  ref : cmd.refOpts.Yields g.ref
  refValid : ∀ r, g.ref = some r → validateRef r.1 = .ok ()
  refGiven : cmd.demandsRef → g.ref ≠ none
  member : ∀ memberAddress, cmd.memberAddress? = some memberAddress →
    ∃ s addr, memberAddress.or (if submit then changeAddress else none) = some s ∧
      parseAddress s = some addr

/-- The event has the type of the subcommand and what was given to it. -/
structure PostCmd.Conveyed (cmd : PostCmd) (g : Given) (ev : ParsedKommsEvent) : Prop where
  t : ev.t = cmd.eventType
  sid : ev.sid = g.sid
  cid : ev.cid = g.cid
  mid : ev.mid = g.mid
  did : ev.did = g.did
  ref : ev.refBytes = g.ref
  ts : ev.ts = cmd.optMeta.ts
  n : ev.n = cmd.optMeta.n
  sig : ev.sig = g.sig

/-- The subcommand can give the validator all it requires: it is not about roles, which
need a target, and a reaction comes with a reference. -/
def PostCmd.InStep : PostCmd → Prop
  | roleAssign .. | roleRevoke .. => False
  | reactionAdd _ _ _ refHex _ | reactionRemove _ _ _ refHex _ => refHex ≠ none
  | _ => True

section Build

variable {hex : FasterHex} {parseAddress : RString → Option Address} {sha256 : Bytes → Bytes32}
variable {c : Ciborium} {cmd : PostCmd} {submit : Bool} {changeAddress : Option RString} {g : Given}

theorem Denoted.isSome_eq {n : Nat} {s : Option RString} {v : Option (List.Vector UInt8 n)}
    (h : Denoted s v) : v.isSome = s.isSome := by
  cases h <;> rfl

theorem ref_ne_none_iff {refHex : Option RString} {r : Option VecU8}
    (h : RefOpts.Yields { refHex } r) : r ≠ none ↔ refHex ≠ none := by
  cases h <;> simp

/-- A valid reference is not empty. -/
theorem ne_nil_of_validateRef {r : Bytes} (h : validateRef r = .ok ()) : r ≠ [] := by
  rintro rfl
  cases h

theorem refFromOpts_of_yields (hhex : hex.Documented) {o : RefOpts} {r : Option VecU8}
    (h : o.Yields r) (hvalid : ∀ b, r = some b → validateRef b.1 = .ok ()) :
    refFromOpts hex o.refHex o.cidStr o.contentHash = .ok r := by
  cases h with
  | none => rfl
  | refHex h =>
      simp [refFromOpts, Except.failIf,
        parseHexBytes_of_denotes hhex h (ne_nil_of_validateRef (hvalid _ rfl))]
  | cidStr h =>
      simp [refFromOpts, Except.failIf, refFromCidStr_eq_ok.mpr ⟨h, hvalid _ rfl⟩, Except.mapError]
  | contentHash h hr =>
      have hbytes : refFromContentHash _ = _ := Subtype.ext hr.symm
      simp [refFromOpts, Except.failIf, parseHex32_of_denotes hhex h, hbytes]

/-- A reference in hexadecimal only is read as one of three options would be. -/
theorem refFromHex_eq (refHex : Option RString) :
    refFromHex hex refHex = refFromOpts hex refHex none none := by
  cases refHex with
  | none => rfl
  | some h => simp [refFromHex, refFromOpts, Except.failIf]

theorem needRef_of_ok {message : String} {reference : Except String (Option VecU8)}
    {r : Option VecU8} (h : reference = .ok r) (hne : r ≠ none) :
    needRef message reference = .ok r := by
  obtain ⟨b, rfl⟩ := Option.ne_none_iff_exists'.mp hne
  rw [h]
  rfl

/-- The event of a subcommand whose arguments are in order. -/
def PostCmd.event (cmd : PostCmd) (g : Given) : ParsedKommsEvent where
  v := 0
  t := cmd.eventType
  sid := g.sid
  cid := g.cid
  did := g.did
  pid := g.pid
  mid := g.mid
  refBytes := g.ref
  enc := cmd.eventType = .dmMessagePost
  ts := cmd.optMeta.ts
  n := cmd.optMeta.n
  sig := g.sig

theorem postEvent_of_wellFormed (hhex : hex.Documented)
    (h : cmd.WellFormed parseAddress submit changeAddress g)
    {reference : Except String (Option VecU8)} (href : reference = .ok g.ref) :
    postEvent hex cmd.eventType cmd.ids reference (cmd.eventType = .dmMessagePost) cmd.optMeta =
      .ok (cmd.event g) := by
  have hz {s : Option RString} {v : Option Bytes32} (h : Denoted s v) :
      s.mapM (fun s => parseHex32 hex s.1) = .ok v :=
    Except.mapM_eq_ok_of_rel h fun _ _ => parseHex32_of_denotes hhex
  have hsig : metaSig hex cmd.optMeta = .ok g.sig :=
    Except.mapM_eq_ok_of_rel h.sig fun _ _ => parseHex64Sig_of_denotes hhex
  simp only [postEvent, hz h.sid, hz h.cid, hz h.did, hz h.pid, hz h.mid, href, hsig,
    Except.ok_bind]
  rfl

theorem buildPostEv_of_wellFormed (hhex : hex.Documented)
    (h : cmd.WellFormed parseAddress submit changeAddress g) :
    buildPostEv hex cmd = .ok (cmd.event g) := by
  have href := refFromOpts_of_yields hhex h.ref h.refValid
  have hpost {reference : Except String (Option VecU8)} (href : reference = .ok g.ref) :=
    postEvent_of_wellFormed hhex h href
  cases cmd with
  | serverCreate | serverUpdate => exact hpost href
  | messagePost | messageEdit | dmMessagePost =>
      exact hpost (needRef_of_ok href (h.refGiven rfl))
  | messageDelete => exact hpost href
  | _ => exact hpost ((refFromHex_eq _).trans href)

theorem memberAddrStr_eq_ok {memberAddress : Option RString} {s : RString} :
    memberAddrStr memberAddress submit changeAddress = .ok s ↔
      memberAddress.or (if submit then changeAddress else none) = some s := by
  cases memberAddress with
  | some s' => simp [memberAddrStr]
  | none => cases submit <;> simp [memberAddrStr]

theorem exists_patchMemberJoinLeavePid {ev : ParsedKommsEvent}
    (h : cmd.WellFormed parseAddress submit changeAddress g) :
    ∃ pid, patchMemberJoinLeavePid parseAddress sha256 ev cmd submit changeAddress =
      .ok { ev with pid } ∧ (cmd.memberAddress? ≠ none → pid ≠ none) := by
  have hmember := h.member
  cases cmd with
  | memberJoin | memberLeave =>
      obtain ⟨s, addr, hs, haddr⟩ := hmember _ rfl
      refine ⟨some (participantId sha256 (creatorAddressBodyFromAddr addr)), ?_, fun _ => by simp⟩
      rw [patchMemberJoinLeavePid, memberAddrStr_eq_ok.mpr hs, Except.ok_bind,
        Except.okOr_eq_ok.mpr haddr]
      rfl
  | _ => exact ⟨ev.pid, rfl, fun hne => absurd rfl hne⟩

theorem genericRules_event (h : cmd.WellFormed parseAddress submit changeAddress g)
    (pid : Option Bytes32) : GenericRules { cmd.event g with pid } where
  version := (by decide : (0 : UInt64) ≤ maxKnownVersion)
  onChain := by cases cmd <;> simp [PostCmd.event, PostCmd.eventType, EventType.asU8]
  ref r hr := validateRef_eq_ok.mp (h.refValid r hr)
  refType r rt _ hrt := by cases hrt
  mime m hm := by cases hm
  reactionKey rk hrk := by cases hrk
  posture hv := absurd hv (by decide : ¬ (1 : UInt64) ≤ 0)
  replay hv := absurd hv (by decide : ¬ (1 : UInt64) ≤ 0)
  unsealed := ⟨Option.some_ne_none 1 ∘ Eq.symm, rfl⟩
  envelope hscheme := by cases hscheme

/-- The validator accepts the event exactly when the subcommand is in step with it. -/
theorem validateEvent_event (h : cmd.WellFormed parseAddress submit changeAddress g)
    {pid : Option Bytes32} (hpid : cmd.memberAddress? ≠ none → pid ≠ none) :
    validateEvent { cmd.event g with pid } = .ok () ↔ cmd.InStep := by
  rw [validateEvent_eq_ok, and_iff_right (genericRules_event h pid)]
  have hsid := h.sid.isSome_eq
  have hcid := h.cid.isSome_eq
  have hdid := h.did.isSome_eq
  have hmid := h.mid.isSome_eq
  have hgroup : ({ cmd.event g with pid } : ParsedKommsEvent).groupEncrypted = false :=
    decide_eq_false (Option.some_ne_none 4 ∘ Eq.symm)
  rw [hgroup]
  -- For most arms the ids that are given are all that the type requires.
  cases cmd <;>
    simp [ParsedKommsEvent.validateType, PostCmd.event, PostCmd.eventType, PostCmd.ids,
      PostCmd.InStep, Except.check_bind_eq_ok, hsid, hcid, hdid, hmid]
  case messagePost | messageEdit | dmMessagePost =>
    exact Option.isSome_iff_ne_none.mpr (h.refGiven rfl)
  case reactionAdd | reactionRemove => exact ref_ne_none_iff h.ref
  case memberJoin | memberLeave =>
    exact Option.isSome_iff_ne_none.mpr (hpid (Option.some_ne_none _))

/-- The payload of a subcommand is made, and read back with what was given, exactly when the
subcommand is in step with the validator. -/
theorem postPayload_iff (hex : FasterHex) (parseAddress : RString → Option Address)
    (sha256 : Bytes → Bytes32) (c : Ciborium) (hhex : hex.Documented) (hc : c.Documented)
    (cmd : PostCmd) (submit : Bool) (changeAddress : Option RString) (g : Given)
    (h : cmd.WellFormed parseAddress submit changeAddress g) :
    (∃ raw ev, postPayload hex parseAddress sha256 c cmd submit changeAddress = .ok raw ∧
      parseKommsPayload c raw = .ok ev ∧ cmd.Conveyed g ev) ↔ cmd.InStep := by
  obtain ⟨pid, hpatch, hpid⟩ :=
    @exists_patchMemberJoinLeavePid parseAddress sha256 cmd submit changeAddress g (cmd.event g) h
  have hpayload : postPayload hex parseAddress sha256 c cmd submit changeAddress =
      (encodeKommsPayload c { cmd.event g with pid }).mapError
        fun _ => "validate + encode event" := by
    rw [postPayload, buildPostEv_of_wellFormed hhex h, Except.ok_bind, hpatch, Except.ok_bind]
  rw [← validateEvent_event h hpid, hpayload]
  constructor
  · intro hrun
    obtain ⟨raw, _, hencode, -⟩ := hrun
    obtain ⟨_, hencode, -⟩ := encodeKommsPayload_eq_ok.mp (Except.mapError_eq_ok.mp hencode)
    exact (encodeCborMap_eq_ok.mp hencode).1
  · intro hvalid
    have hencode := @encodeKommsPayload_of_valid c _ hvalid
    have hext : ExtensionsInProfile { cmd.event g with pid } :=
      ⟨List.forall_mem_nil _, List.forall_mem_nil _⟩
    have hreceived := (valid_received_iff rfl hvalid).mpr
      fun hscheme => Option.some_ne_none 4 hscheme.1.symm
    refine ⟨_, _, Except.mapError_eq_ok.mpr hencode,
      (parse_encodeKommsPayload hc hext hencode).mpr ⟨rfl, hreceived⟩, ?_⟩
    rw [ParsedKommsEvent.received_of_eq rfl]
    exact ⟨rfl, rfl, rfl, rfl, rfl, rfl, rfl, rfl, rfl⟩

end Build

section Sample

def sampleId : RString :=
  ⟨"0x1111111111111111111111111111111111111111111111111111111111111111", by decide +kernel⟩

def sampleIdBytes : Bytes32 := List.Vector.replicate 32 0x11

theorem denoted_sampleId : Denoted (some sampleId) (some sampleIdBytes) :=
  .some (by decide +kernel)

def sampleCid : RString := ⟨"bafy", by decide +kernel⟩

/-- `message-post` with a content id. -/
def samplePost : PostCmd := .messagePost sampleId sampleId none sampleCid none none {}

def samplePostGiven : Given where
  sid := sampleIdBytes
  cid := sampleIdBytes
  ref := some ⟨0x01 :: utf8 "bafy", by decide +kernel⟩

/-- The message is posted, and read back. -/
theorem samplePost_posted : ∃ raw ev,
    postPayload .reference (fun _ => none) (fun _ => sampleIdBytes) .reference samplePost false
      none = .ok raw ∧
    parseKommsPayload .reference raw = .ok ev ∧ samplePost.Conveyed samplePostGiven ev :=
  (postPayload_iff .reference (fun _ => none) (fun _ => sampleIdBytes) .reference
    FasterHex.reference_documented Ciborium.reference_documented samplePost false none
    samplePostGiven
    { sid := denoted_sampleId
      cid := denoted_sampleId
      did := .none
      pid := .none
      mid := .none
      sig := .none
      ref := .cidStr rfl
      refValid := fun _ h => Option.some.inj h ▸
        validateRef_eq_ok.mpr (.contentId (by decide +kernel) (by decide +kernel))
      refGiven := fun _ => Option.some_ne_none _
      member := fun _ h => absurd h.symm (Option.some_ne_none _) }).mpr trivial

/-- A subcommand that is given ids only is in order when they are. -/
theorem wellFormed_of_ids {parseAddress : RString → Option Address} {cmd : PostCmd} {submit : Bool}
    {changeAddress : Option RString} {sid cid did pid mid : Option Bytes32}
    (hsid : Denoted cmd.ids.sid sid) (hcid : Denoted cmd.ids.cid cid)
    (hdid : Denoted cmd.ids.did did) (hpid : Denoted cmd.ids.pid pid)
    (hmid : Denoted cmd.ids.mid mid) (hsig : cmd.optMeta.sigHex = none) (href : cmd.refOpts = {})
    (hdemand : cmd.demandsRef = false) (hmember : cmd.memberAddress? = none) :
    cmd.WellFormed parseAddress submit changeAddress { sid, cid, did, pid, mid } where
  sid := hsid
  cid := hcid
  did := hdid
  pid := hpid
  mid := hmid
  sig := hsig ▸ .none
  ref := href ▸ .none
  refValid _ h := by cases h
  refGiven h := by rw [hdemand] at h; cases h
  member _ h := by rw [hmember] at h; cases h

/-- `role-assign`, and `reaction-add` without a reference. -/
def sampleRejected : List (PostCmd × Given) :=
  [(.roleAssign sampleId none none {}, { sid := sampleIdBytes }),
    (.reactionAdd sampleId sampleId sampleId none {},
      { sid := sampleIdBytes, cid := sampleIdBytes, mid := sampleIdBytes })]

/-- Both are in order, and both are refused by the validator. -/
theorem sampleRejected_rejected : FasterHex.reference.Documented ∧ Ciborium.reference.Documented ∧
    ∀ post ∈ sampleRejected, post.1.WellFormed (fun _ => none) false none post.2 ∧
      postPayload .reference (fun _ => none) (fun _ => sampleIdBytes) .reference post.1 false none =
        .error "validate + encode event" := by
  refine ⟨FasterHex.reference_documented, Ciborium.reference_documented, ?_⟩
  have herror : ∀ post ∈ sampleRejected,
      (postPayload .reference (fun _ => none) (fun _ => sampleIdBytes) .reference post.1 false
        none).getError? = some "validate + encode event" := by decide +kernel
  intro post hpost
  refine ⟨?_, Except.getError?_eq_some.mp (herror post hpost)⟩
  rcases List.mem_pair.mp hpost with rfl | rfl
  · exact wellFormed_of_ids denoted_sampleId .none .none .none .none rfl rfl rfl rfl
  · exact wellFormed_of_ids denoted_sampleId denoted_sampleId .none .none denoted_sampleId
      rfl rfl rfl rfl

end Sample

end Komms
