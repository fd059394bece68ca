import Komms.Collections.PrefixCode
import Komms.Protocol.Event

/-!
# Derived keys and tags

The keys of a server are derived from its master viewing key with HKDF-SHA-256, whose info
string is the domain of the key, a zero byte and the binding. The tags are truncated
HMAC-SHA-256 codes of a domain, an id and an epoch, with no separator.

Both functions are parameters. A `Derivation` and a `TagComputation` is one call of a
helper of the source: `run` is the call and `info`, or `message`, its input.
-/

namespace Komms

open Cbor

namespace Kdf

inductive KdfDomain where
  | channelDek
  | matchTagKey
  | memberTagKey
  | memberSealedKey
  deriving DecidableEq

def KdfDomain.asBytes : KdfDomain → Bytes
  | .channelDek => utf8 "komms/v1.1/channel-dek"
  | .matchTagKey => utf8 "komms/v1.1/match-tag-key"
  | .memberTagKey => utf8 "komms/v1.1/member-tag-key"
  | .memberSealedKey => utf8 "komms/v1.1/member-sealed-key"

/-- The info string of a domain and a binding. -/
def hkdfInfo (domain : KdfDomain) (binding : Bytes) : Bytes :=
  domain.asBytes ++ [0x00] ++ binding

section Source

-- HKDF without a salt, of the input key and the info string
variable (hkdfSha256 : Bytes → Bytes → Bytes32) (mvk : Bytes32)

def hkdf32 (domain : KdfDomain) (binding : Bytes) : Bytes32 :=
  hkdfSha256 mvk.1 (hkdfInfo domain binding)

def deriveChannelDek (serverId channelId : Bytes32) (keyEpoch : UInt64) : Bytes32 :=
  hkdf32 hkdfSha256 mvk .channelDek (serverId.1 ++ channelId.1 ++ beBytes 8 keyEpoch.toNat)

def deriveMatchTagKey (serverId : Bytes32) (keyEpoch : UInt64) : Bytes32 :=
  hkdf32 hkdfSha256 mvk .matchTagKey (serverId.1 ++ beBytes 8 keyEpoch.toNat)

def deriveMemberTagKey (serverId : Bytes32) (keyEpoch : UInt64) : Bytes32 :=
  hkdf32 hkdfSha256 mvk .memberTagKey (serverId.1 ++ beBytes 8 keyEpoch.toNat)

def deriveMemberSealedKey (serverId : Bytes32) (keyEpoch : UInt64) : Bytes32 :=
  hkdf32 hkdfSha256 mvk .memberSealedKey (serverId.1 ++ beBytes 8 keyEpoch.toNat)

end Source

/-- A call of one of the helpers under a master key. -/
inductive Derivation where
  | channelDek (serverId channelId : Bytes32) (keyEpoch : UInt64)
  | matchTagKey (serverId : Bytes32) (keyEpoch : UInt64)
  | memberTagKey (serverId : Bytes32) (keyEpoch : UInt64)
  | memberSealedKey (serverId : Bytes32) (keyEpoch : UInt64)
  deriving DecidableEq

namespace Derivation

def run (hkdfSha256 : Bytes → Bytes → Bytes32) (mvk : Bytes32) : Derivation → Bytes32
  | channelDek serverId channelId keyEpoch =>
    deriveChannelDek hkdfSha256 mvk serverId channelId keyEpoch
  | matchTagKey serverId keyEpoch => deriveMatchTagKey hkdfSha256 mvk serverId keyEpoch
  | memberTagKey serverId keyEpoch => deriveMemberTagKey hkdfSha256 mvk serverId keyEpoch
  | memberSealedKey serverId keyEpoch => deriveMemberSealedKey hkdfSha256 mvk serverId keyEpoch

def domain : Derivation → KdfDomain
  | channelDek .. => .channelDek
  | matchTagKey .. => .matchTagKey
  | memberTagKey .. => .memberTagKey
  | memberSealedKey .. => .memberSealedKey

def binding : Derivation → Bytes
  | channelDek serverId channelId keyEpoch =>
    serverId.1 ++ channelId.1 ++ beBytes 8 keyEpoch.toNat
  | matchTagKey serverId keyEpoch | memberTagKey serverId keyEpoch
  | memberSealedKey serverId keyEpoch => serverId.1 ++ beBytes 8 keyEpoch.toNat

def info (d : Derivation) : Bytes := hkdfInfo d.domain d.binding

/-- Every helper derives its key from its info string. -/
theorem run_eq (hkdfSha256 : Bytes → Bytes → Bytes32) (mvk : Bytes32) (d : Derivation) :
    d.run hkdfSha256 mvk = hkdfSha256 mvk.1 d.info := by
  cases d <;> rfl

end Derivation

/-- The domains are distinct texts without a zero byte. -/
theorem asBytes_injective : Function.Injective KdfDomain.asBytes := by
  intro d d' h
  cases d <;> cases d' <;> first | rfl | (revert h; decide +kernel)

theorem zero_not_mem_asBytes (d : KdfDomain) : 0x00 ∉ d.asBytes := by
  cases d <;> decide +kernel

/-- The first zero byte is where the binding starts. -/
theorem hkdfInfo_inj {d d' : KdfDomain} {b b' : Bytes} (h : hkdfInfo d b = hkdfInfo d' b') :
    d = d' ∧ b = b' := by
  simp only [hkdfInfo, List.append_assoc, List.singleton_append] at h
  obtain ⟨hdomain, hbinding⟩ :=
    Coding.terminated_cancel (zero_not_mem_asBytes d) (zero_not_mem_asBytes d') h
  exact ⟨asBytes_injective hdomain, hbinding⟩

/-- An id and an epoch are cut at a fixed offset. -/
theorem id_epoch_inj {i i' : Bytes32} {n n' : UInt64}
    (h : i.1 ++ beBytes 8 n.toNat = i'.1 ++ beBytes 8 n'.toNat) : i = i' ∧ n = n' := by
  obtain ⟨hid, hepoch⟩ := List.append_inj h (i.2.trans i'.2.symm)
  exact ⟨Subtype.ext hid, beBytes_toNat_inj.mp hepoch⟩

theorem Derivation.info_injective : Function.Injective Derivation.info := by
  intro d d' h
  obtain ⟨hdomain, hbinding⟩ := hkdfInfo_inj h
  cases d <;> cases d' <;> cases hdomain
  case channelDek.channelDek =>
    simp only [binding, List.append_assoc] at hbinding
    obtain ⟨hserver, hrest⟩ := List.append_inj hbinding (by simp only [List.Vector.length_val])
    obtain ⟨rfl, rfl⟩ := id_epoch_inj hrest
    obtain rfl := Subtype.ext hserver
    rfl
  all_goals
    obtain ⟨rfl, rfl⟩ := id_epoch_inj hbinding
    rfl

end Kdf

namespace Tags

/-- `TAG_LEN`. -/
def tagLen : Nat := 16

def matchTagDomain : Bytes := utf8 "komms/v1.1/match-tag"

def memberTagDomain : Bytes := utf8 "komms/v1.1/member-tag"

/-- The left half of a digest. -/
def truncate (digest : Bytes32) : Bytes16 :=
  ⟨digest.1.take tagLen, by rw [List.length_take, digest.2]; rfl⟩

section Source

variable (hmacSha256 : Bytes → Bytes → Bytes32) (key : Bytes32)

def computeMatchTag (channelId : Bytes32) (keyEpoch : UInt64) : Bytes16 :=
  truncate (hmacSha256 key.1 (matchTagDomain ++ channelId.1 ++ beBytes 8 keyEpoch.toNat))

def computeMemberTag (memberPubkey : Bytes32) (keyEpoch : UInt64) : Bytes16 :=
  truncate (hmacSha256 key.1 (memberTagDomain ++ memberPubkey.1 ++ beBytes 8 keyEpoch.toNat))

end Source

/-- A call of one of the two helpers under a key. -/
inductive TagComputation where
  | matchTag (channelId : Bytes32) (keyEpoch : UInt64)
  | memberTag (memberPubkey : Bytes32) (keyEpoch : UInt64)
  deriving DecidableEq

namespace TagComputation

def run (hmacSha256 : Bytes → Bytes → Bytes32) (key : Bytes32) : TagComputation → Bytes16
  | matchTag channelId keyEpoch => computeMatchTag hmacSha256 key channelId keyEpoch
  | memberTag memberPubkey keyEpoch => computeMemberTag hmacSha256 key memberPubkey keyEpoch

def message : TagComputation → Bytes
  | matchTag channelId keyEpoch => matchTagDomain ++ channelId.1 ++ beBytes 8 keyEpoch.toNat
  | memberTag memberPubkey keyEpoch =>
    memberTagDomain ++ memberPubkey.1 ++ beBytes 8 keyEpoch.toNat

theorem run_eq (hmacSha256 : Bytes → Bytes → Bytes32) (key : Bytes32) (t : TagComputation) :
    t.run hmacSha256 key = truncate (hmacSha256 key.1 t.message) := by
  cases t <;> rfl

/-- The messages of the two helpers differ in length. -/
theorem matchTag_message_ne (i i' : Bytes32) (n n' : UInt64) :
    (matchTag i n).message ≠ (memberTag i' n').message := by
  intro h
  have hlength := congrArg List.length h
  have hmatch : matchTagDomain.length = 20 := by decide +kernel
  have hmember : memberTagDomain.length = 21 := by decide +kernel
  simp only [message, List.length_append, List.Vector.length_val, length_beBytes, hmatch,
    hmember] at hlength
  omega

theorem message_injective : Function.Injective message := by
  intro t t' h
  cases t with
  | matchTag i n =>
      cases t' with
      | memberTag i' n' => exact absurd h (matchTag_message_ne i i' n n')
      | matchTag i' n' =>
          simp only [message, List.append_assoc, List.append_cancel_left_eq] at h
          obtain ⟨rfl, rfl⟩ := Kdf.id_epoch_inj h
          rfl
  | memberTag i n =>
      cases t' with
      | matchTag i' n' => exact absurd h.symm (matchTag_message_ne i' i n' n)
      | memberTag i' n' =>
          simp only [message, List.append_assoc, List.append_cancel_left_eq] at h
          obtain ⟨rfl, rfl⟩ := Kdf.id_epoch_inj h
          rfl

end TagComputation

end Tags

/-- No two calls of the key helpers have one info string, whatever bytes a binding has, and no
two calls of the tag helpers have one message. -/
theorem derivations_separated :
    (∀ hkdfSha256 mvk (d : Kdf.Derivation), d.run hkdfSha256 mvk = hkdfSha256 mvk.1 d.info) ∧
    (∀ d d' : Kdf.Derivation, d.info = d'.info → d = d') ∧
    (∀ (domain domain' : Kdf.KdfDomain) (binding binding' : Bytes),
      Kdf.hkdfInfo domain binding = Kdf.hkdfInfo domain' binding' →
        domain = domain' ∧ binding = binding') ∧
    (∀ hmacSha256 key (t : Tags.TagComputation),
      t.run hmacSha256 key = Tags.truncate (hmacSha256 key.1 t.message)) ∧
    ∀ t t' : Tags.TagComputation, t.message = t'.message → t = t' :=
  ⟨Kdf.Derivation.run_eq, fun _ _ h => Kdf.Derivation.info_injective h,
    fun _ _ _ _ h => Kdf.hkdfInfo_inj h, Tags.TagComputation.run_eq,
    fun _ _ h => Tags.TagComputation.message_injective h⟩

end Komms
