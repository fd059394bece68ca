import Komms.Collections.SortedMap
import Komms.Protocol.Ciborium
import Mathlib.Data.Vector.Basic

/-!
# Events

The event types, the parsed event and the error types of the payload codec.
Fixed-size byte arrays are vectors, so a field of the wrong length cannot be
built; `u8` and `u64` fields are machine integers.
-/

namespace Komms

open Cbor

/-- The 4-byte ASCII envelope prefix `KOMM`. -/
def kommsPayloadPrefix : Bytes := [0x4B, 0x4F, 0x4D, 0x4D]

/-- Maximum protocol version parsed structurally. -/
def maxKnownVersion : UInt64 := 1

/-- Lowest map key that is kept opaquely as an extension field. -/
def extensionKeyMin : UInt8 := 33

/-- Highest allocated role. -/
def roleMax : UInt8 := 4

inductive EventType where
  | serverCreate
  | serverUpdate
  | channelCreate
  | channelUpdate
  | messagePost
  | messageEdit
  | messageDelete
  | dmMessagePost
  | reactionAdd
  | reactionRemove
  | memberJoin
  | memberLeave
  | roleAssign
  | roleRevoke
  | moderationAction
  | deviceRegister
  | deviceRevoke
  | pinMessage
  | unpinMessage
  | bookmarkAdd
  | bookmarkRemove
  | sealedMemberJoin
  | sealedMemberLeave
  | keyRotate
  | sealedEvent
  /-- Any other event type: reserved, vendor, or ephemeral (21 and 22). -/
  | reserved (n : UInt8)
  deriving DecidableEq, Repr

namespace EventType

/-- Discriminant byte as it appears in the wire map key 1. -/
def asU8 : EventType → UInt8
  | .serverCreate => 0
  | .serverUpdate => 1
  | .channelCreate => 2
  | .channelUpdate => 3
  | .messagePost => 4
  | .messageEdit => 5
  | .messageDelete => 6
  | .dmMessagePost => 7
  | .reactionAdd => 8
  | .reactionRemove => 9
  | .memberJoin => 10
  | .memberLeave => 11
  | .roleAssign => 12
  | .roleRevoke => 13
  | .moderationAction => 14
  | .deviceRegister => 15
  | .deviceRevoke => 16
  | .pinMessage => 17
  | .unpinMessage => 18
  | .bookmarkAdd => 19
  | .bookmarkRemove => 20
  | .sealedMemberJoin => 23
  | .sealedMemberLeave => 24
  | .keyRotate => 25
  | .sealedEvent => 26
  | .reserved n => n

/-- Always-succeeding decode. -/
def fromU8 (value : UInt8) : EventType :=
  match value.toNat with
  | 0 => .serverCreate
  | 1 => .serverUpdate
  | 2 => .channelCreate
  | 3 => .channelUpdate
  | 4 => .messagePost
  | 5 => .messageEdit
  | 6 => .messageDelete
  | 7 => .dmMessagePost
  | 8 => .reactionAdd
  | 9 => .reactionRemove
  | 10 => .memberJoin
  | 11 => .memberLeave
  | 12 => .roleAssign
  | 13 => .roleRevoke
  | 14 => .moderationAction
  | 15 => .deviceRegister
  | 16 => .deviceRevoke
  | 17 => .pinMessage
  | 18 => .unpinMessage
  | 19 => .bookmarkAdd
  | 20 => .bookmarkRemove
  | 23 => .sealedMemberJoin
  | 24 => .sealedMemberLeave
  | 25 => .keyRotate
  | 26 => .sealedEvent
  | _ => .reserved value

/-- Decoding a byte and taking the discriminant gives the byte back. -/
@[simp] theorem asU8_fromU8 (value : UInt8) : (fromU8 value).asU8 = value := by
  rw [fromU8]
  split
  case h_26 => rfl
  all_goals
    apply UInt8.toNat_inj.mp
    symm
    assumption

/-- A type other than `Reserved` is the decoding of its discriminant. -/
theorem fromU8_asU8 {t : EventType} (h : ∀ n, t ≠ .reserved n) : fromU8 t.asU8 = t := by
  cases t with
  | reserved n => exact absurd rfl (h n)
  | _ => rfl

/-- The derived `Debug` form. -/
def debug : EventType → String
  | .serverCreate => "ServerCreate"
  | .serverUpdate => "ServerUpdate"
  | .channelCreate => "ChannelCreate"
  | .channelUpdate => "ChannelUpdate"
  | .messagePost => "MessagePost"
  | .messageEdit => "MessageEdit"
  | .messageDelete => "MessageDelete"
  | .dmMessagePost => "DmMessagePost"
  | .reactionAdd => "ReactionAdd"
  | .reactionRemove => "ReactionRemove"
  | .memberJoin => "MemberJoin"
  | .memberLeave => "MemberLeave"
  | .roleAssign => "RoleAssign"
  | .roleRevoke => "RoleRevoke"
  | .moderationAction => "ModerationAction"
  | .deviceRegister => "DeviceRegister"
  | .deviceRevoke => "DeviceRevoke"
  | .pinMessage => "PinMessage"
  | .unpinMessage => "UnpinMessage"
  | .bookmarkAdd => "BookmarkAdd"
  | .bookmarkRemove => "BookmarkRemove"
  | .sealedMemberJoin => "SealedMemberJoin"
  | .sealedMemberLeave => "SealedMemberLeave"
  | .keyRotate => "KeyRotate"
  | .sealedEvent => "SealedEvent"
  | .reserved n => "Reserved(" ++ toString n ++ ")"

end EventType

abbrev Bytes16 := List.Vector UInt8 16

abbrev Bytes32 := List.Vector UInt8 32

abbrev Bytes64 := List.Vector UInt8 64

/-- Envelope and v0 core, keys 0 to 11. -/
structure V0Fields where
  v : UInt64 := 0
  t : EventType := .serverCreate
  sid : Option Bytes32 := none
  cid : Option Bytes32 := none
  did : Option Bytes32 := none
  pid : Option Bytes32 := none
  mid : Option Bytes32 := none
  refBytes : Option VecU8 := none
  enc : Bool := false
  ts : Option UInt64 := none
  n : Option UInt64 := none
  sig : Option Bytes64 := none

/-- v1.0 core, keys 12 to 20. -/
structure V1Fields where
  parentMid : Option Bytes32 := none
  encScheme : Option UInt64 := none
  kind : Option UInt64 := none
  mime : Option String := none
  refType : Option UInt64 := none
  devicePk : Option Bytes32 := none
  sigScheme : Option UInt64 := none
  reactionKey : Option VecU8 := none
  paymentHint : Option VecU8 := none

/-- v1.1 core, keys 21 to 30. -/
structure V11Fields where
  memberTag : Option Bytes16 := none
  memberSealed : Option VecU8 := none
  encSid : Option VecU8 := none
  encCid : Option VecU8 := none
  encBodyRef : Option VecU8 := none
  encParentMid : Option VecU8 := none
  matchTag : Option Bytes16 := none
  encT : Option VecU8 := none
  keyEpoch : Option UInt64 := none
  sealedSigner : Option VecU8 := none

/-- v1.2-pre role management, keys 31 and 32. -/
structure RoleFields where
  role : Option UInt8 := none
  target : Option VecU8 := none

/-- An event after CBOR decode. -/
structure ParsedKommsEvent extends V0Fields, V1Fields, V11Fields, RoleFields where
  /-- Extension, vendor and future keys. -/
  extensionFields : SortedMap UInt8 Value := .empty

inductive ParseError where
  | cbor (message : String)
  | notAMap
  | invalidKey
  | duplicateKey (key : UInt8)
  | expectedUint (field : String)
  | eventTypeOverflow (t : UInt64)
  | expectedBool (field : String)
  | expectedBytes32 (field : String)
  | expectedBytes16 (field : String)
  | expectedBytes (field : String)
  | expectedText (field : String)
  | invalidSigLength
  | missingField (field : String)
  | reservedCoreKey (key : UInt8)
  deriving DecidableEq, Repr

def ParseError.message : ParseError → String
  | .cbor message => "invalid CBOR: " ++ message
  | .notAMap => "top-level CBOR value must be a map"
  | .invalidKey => "map key must be an unsigned integer in 0..=255"
  | .duplicateKey key => "duplicate map key " ++ toString key
  | .expectedUint field => "field " ++ field ++ ": expected uint"
  | .eventTypeOverflow t => "field t: event type " ++ toString t ++ " doesn't fit in u8"
  | .expectedBool field => "field " ++ field ++ ": expected bool"
  | .expectedBytes32 field => "field " ++ field ++ ": expected byte string of length 32"
  | .expectedBytes16 field => "field " ++ field ++ ": expected byte string of length 16"
  | .expectedBytes field => "field " ++ field ++ ": expected byte string"
  | .expectedText field => "field " ++ field ++ ": expected text string"
  | .invalidSigLength => "field sig: expected 64 bytes"
  | .missingField field => "missing required field " ++ field
  | .reservedCoreKey key =>
    "map key " ++ toString key ++ " is reserved (not yet allocated in v1 core)"

inductive ValidationError where
  | badVersion (v : UInt64)
  | invalidRef
  | forbiddenField (t : EventType) (field : String)
  | missingForType (t : EventType) (field : String)
  | invalidEnc
  | encSchemeMismatch (scheme : UInt64) (enc : Bool)
  | v1MissingField (field : String)
  | invalidReactionKey
  | invalidMime
  | ephemeralOnChain (t : EventType)
  | opaqueEventType (t : EventType)
  | deprecatedEncSchemeMls
  | v11MissingField (field : String)
  | sealedSenderNotImplemented
  | invalidTagLength (field : String)
  | unknownEncScheme (scheme : UInt64)
  | unknownRole (role : UInt8)
  | invalidTargetLength (length : Nat)
  deriving DecidableEq, Repr

def ValidationError.message : ValidationError → String
  | .badVersion v => "schema version v must be 0 or 1 (got " ++ toString v ++ ")"
  | .invalidRef => "invalid content reference (ref) encoding"
  | .forbiddenField t field => "event type " ++ t.debug ++ " forbids field " ++ field
  | .missingForType t field => "event type " ++ t.debug ++ " requires field " ++ field
  | .invalidEnc => "encryption flag invalid for this event type"
  | .encSchemeMismatch scheme enc =>
    "enc_scheme " ++ toString scheme ++ " disagrees with enc=" ++ toString enc
  | .v1MissingField field => "v1 event missing required field " ++ field
  | .invalidReactionKey => "reaction_key (key 19) must be 1..=32 bytes"
  | .invalidMime => "mime (key 15) must be 1..=64 ASCII bytes"
  | .ephemeralOnChain t =>
    "event type " ++ t.debug ++ " is ephemeral (WS-only) and MUST NOT appear on chain"
  | .opaqueEventType t =>
    "event type " ++ t.debug ++ " is reserved/opaque; indexers persist but do not validate"
  | .deprecatedEncSchemeMls => "enc_scheme = 2 (MLS) was rejected in v1.1 per ADR-012"
  | .v11MissingField field => "v1.1 enc_scheme=4 event missing required field " ++ field
  | .sealedSenderNotImplemented =>
    "sig_scheme = 1 (bLSAG) is reserved for Phase 3 (ADR-013); not yet implemented"
  | .invalidTagLength field => "v1.1 tag field " ++ field ++ " must be exactly 16 bytes"
  | .unknownEncScheme scheme =>
    "enc_scheme " ++ toString scheme ++ " is not defined in this protocol version"
  | .unknownRole role =>
    "role enum value " ++ toString role ++ " is not defined (0..=" ++ toString roleMax ++ ")"
  | .invalidTargetLength length =>
    "target address bytes must be ≥ 2 bytes (got " ++ toString length ++ ")"

end Komms
