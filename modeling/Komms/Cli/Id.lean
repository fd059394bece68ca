import Komms.Cli.Hexutil
import Komms.Cli.Output

/-!
# The `id` subcommands

The ids that are printed. Servers, channels and messages have the id of the transaction that
creates them; a thread of direct messages has a hash of two addresses, which are given as any
byte strings. The hash covers the lesser address and the greater one without a length, so that
it says which pair it is of only among pairs that are cut at the same place.
-/

namespace Komms

open Cbor Hexutil

inductive IdCmd where
  | message (txid : String)
  | server (creationTxid : String)
  | channel (creationTxid : String)
  | dm (addrAHex addrBHex : RString)

/-- The direct transaction ids. -/
def serverId (creationTxid : Bytes32) : Bytes32 := creationTxid

def channelId (creationTxid : Bytes32) : Bytes32 := creationTxid

def messageId (creationTxid : Bytes32) : Bytes32 := creationTxid

def idJson (hex : FasterHex) (sha256 : Bytes → Bytes32) : IdCmd → Except String Json
  | .message txid => do
    let t ← parseHex32 hex txid
    .ok (.ofMembers [("message_id", hex32 hex (messageId t))])
  | .server creationTxid => do
    let tx ← parseHex32 hex creationTxid
    .ok (.ofMembers [("server_id", hex32 hex (serverId tx))])
  | .channel creationTxid => do
    let tx ← parseHex32 hex creationTxid
    .ok (.ofMembers [("channel_id", hex32 hex (channelId tx))])
  | .dm addrAHex addrBHex => do
    let a ← parseHexBytes hex addrAHex
    let b ← parseHexBytes hex addrBHex
    .ok (.ofMembers [("dm_thread_id", hex32 hex (dmThreadId sha256 a.1 b.1))])

/-- The arguments of `id dm` stand for any two addresses of at least one byte. -/
theorem idJson_dm {hex : FasterHex} (hhex : hex.Documented) (sha256 : Bytes → Bytes32)
    {addrAHex addrBHex : RString} {a b : VecU8} (ha : Denotes addrAHex.1 a.1)
    (hb : Denotes addrBHex.1 b.1) (hane : a.1 ≠ []) (hbne : b.1 ≠ []) :
    idJson hex sha256 (.dm addrAHex addrBHex) =
      .ok (.ofMembers [("dm_thread_id", hex32 hex (sha256 (dmThreadInput a.1 b.1)))]) := by
  simp only [idJson, parseHexBytes_of_denotes hhex ha hane, parseHexBytes_of_denotes hhex hb hbne,
    Except.ok_bind, dmThreadId_eq]

/-- The id of a thread is a hash of an input that does not depend on the order of the
addresses. Pairs with one input are the same exactly when their lesser addresses have the
same length. -/
theorem dmThreadInput_separates (a b c d : Bytes) :
    (∀ sha256, dmThreadId sha256 a b = sha256 (dmThreadInput a b)) ∧
    dmThreadInput a b = dmThreadInput b a ∧
    (dmThreadInput a b = dmThreadInput c d →
      (s(a, b) = s(c, d) ↔ (min a b).length = (min c d).length)) :=
  ⟨fun sha256 => dmThreadId_eq sha256 a b, dmThreadInput_comm a b, pair_eq_iff_of_dmThreadInput⟩

/-- The pair is found again from its swapped input. -/
theorem dmThread_swapped : s(([1] : Bytes), [2, 3]) = s([2, 3], [1]) :=
  ((dmThreadInput_separates [1] [2, 3] [2, 3] [1]).2.2 (by decide +kernel)).mpr
    (by decide +kernel)

def oneHex : RString := ⟨"01", by decide +kernel⟩

def twoThreeHex : RString := ⟨"0203", by decide +kernel⟩

def oneTwoHex : RString := ⟨"0102", by decide +kernel⟩

def threeHex : RString := ⟨"03", by decide +kernel⟩

/-- Two pairs of addresses that share their thread, as the command line reads them. -/
theorem dmThread_shared : Denotes oneHex.1 [1] ∧ Denotes twoThreeHex.1 [2, 3] ∧
    Denotes oneTwoHex.1 [1, 2] ∧ Denotes threeHex.1 [3] ∧
    dmThreadInput [1] [2, 3] = dmThreadInput [1, 2] [3] ∧
    s(([1] : Bytes), [2, 3]) ≠ s([1, 2], [3]) ∧
    ∀ sha256, idJson .reference sha256 (.dm oneHex twoThreeHex) =
      idJson .reference sha256 (.dm oneTwoHex threeHex) := by
  have hone : Denotes oneHex.1 [1] := by decide +kernel
  have htwoThree : Denotes twoThreeHex.1 [2, 3] := by decide +kernel
  have honeTwo : Denotes oneTwoHex.1 [1, 2] := by decide +kernel
  have hthree : Denotes threeHex.1 [3] := by decide +kernel
  have hinput : dmThreadInput [1] [2, 3] = dmThreadInput [1, 2] [3] := by decide +kernel
  refine ⟨hone, htwoThree, honeTwo, hthree, hinput, by simp, fun sha256 => ?_⟩
  have hhex := FasterHex.reference_documented
  have hleft := idJson_dm hhex sha256 (a := ⟨[1], by decide⟩) (b := ⟨[2, 3], by decide⟩) hone
    htwoThree (by decide) (by decide)
  have hright := idJson_dm hhex sha256 (a := ⟨[1, 2], by decide⟩) (b := ⟨[3], by decide⟩) honeTwo
    hthree (by decide) (by decide)
  rw [hleft, hright, hinput]

end Komms
