import Komms.Cli.Submit
import Komms.Control.Interaction

/-!
# Reading a transaction from a node

The requests of the wRPC client, and `fetchTransactionPayload`, which looks for a transaction
in the mempool, in a block that is hinted at, and in pages of blocks. Addresses and RPC
transactions belong to other crates; of a transaction only its payload is read, and its id
after the conversion, which can fail.
-/

namespace Komms

open Cbor

inductive NetworkType where
  | mainnet
  | testnet
  | devnet
  | simnet
  deriving DecidableEq

structure NetworkId where
  networkType : NetworkType
  suffix : Option UInt32 := none
  deriving DecidableEq

def networkIdForCli : NetworkType → NetworkId
  | .mainnet => { networkType := .mainnet }
  | network => { networkType := network, suffix := some 10 }

structure ScriptPublicKey where
  version : UInt16
  script : Bytes
  deriving DecidableEq

structure UtxoEntry where
  amount : UInt64
  scriptPublicKey : ScriptPublicKey
  blockDaaScore : UInt64
  isCoinbase : Bool
  deriving DecidableEq

structure RpcUtxo where
  outpoint : Submit.TransactionOutpoint
  utxoEntry : UtxoEntry
  deriving DecidableEq

/-- What the client asks. The encoding is always Borsh. -/
inductive Request (Addr Tx : Type) where
  | newClient (url : Option String) (resolver : Bool) (networkId : NetworkId)
  | connect
  | getMempoolEntry (transactionId : Bytes32) (includeOrphanPool filterTransactionPool : Bool)
  | getBlock (hash : Bytes32) (includeTransactions : Bool)
  | getBlocks (lowHash : Option Bytes32) (includeBlocks includeTransactions : Bool)
  | getUtxosByAddresses (addresses : List Addr)
  | submitTransaction (transaction : Tx) (allowOrphan : Bool)

structure RpcMempoolEntry (Tx : Type) where
  transaction : Tx

structure RpcBlock (Tx : Type) where
  transactions : List Tx

structure GetBlocksResponse (Tx : Type) where
  blockHashes : List Bytes32
  blocks : List (RpcBlock Tx)

/-- A reply, or the text of an error. -/
abbrev Reply {Addr Tx : Type} : Request Addr Tx → Type
  | .newClient .. | .connect => Except String Unit
  | .getMempoolEntry .. => Except String (RpcMempoolEntry Tx)
  | .getBlock .. => Except String (RpcBlock Tx)
  | .getBlocks .. => Except String (GetBlocksResponse Tx)
  | .getUtxosByAddresses _ => Except String (List RpcUtxo)
  | .submitTransaction .. => Except String Bytes32

/-- A program of the client, which can fail. -/
abbrev Client (Addr Tx α : Type) : Type := Program (Request Addr Tx) Reply (Except String α)

/-- The exchanges with a node. -/
abbrev Trace (Addr Tx : Type) : Type := List (Exchange (@Reply Addr Tx))

/-- What is read of an RPC transaction. -/
structure RpcTransaction (Tx : Type) where
  payload : Tx → Bytes
  /-- The id of the transaction that it converts to. -/
  id : Tx → Except String Bytes32

section Source

variable {Addr Tx : Type} (rpc : RpcTransaction Tx)

def makeClient (url : Option String) (network : NetworkType) : Client Addr Tx Unit :=
  .ask (.newClient url url.isNone (networkIdForCli network)) .done

def connectRpc : Client Addr Tx Unit :=
  .ask .connect fun
    | .error e => .done (.error ("wRPC connect failed: " ++ e))
    | .ok () => .done (.ok ())

def findPayloadInBlock (want : Bytes32) : List Tx → Except String (Option Bytes)
  | [] => .ok none
  | tx :: txs => do
    let id ← rpc.id tx
    if id = want then .ok (some (rpc.payload tx)) else findPayloadInBlock want txs

/-- The loop over the blocks of a page. -/
def findPayloadInBlocks (want : Bytes32) : List (RpcBlock Tx) → Except String (Option Bytes)
  | [] => .ok none
  | block :: blocks => do
    match ← findPayloadInBlock rpc want block.transactions with
    | some p => .ok (some p)
    | none => findPayloadInBlocks want blocks

def notFound : String :=
  "transaction not found in mempool or scanned blocks; pass --block-hash for deep confirmations"

/-- The pages that are left, from the hash of a block. -/
def scanPages (txId : Bytes32) : Nat → Option Bytes32 → Client Addr Tx Bytes
  | 0, _ => .done (.error notFound)
  | n + 1, lowHash => .ask (.getBlocks lowHash true true) fun
    | .error _ => .done (.error "get_blocks")
    | .ok resp =>
      if resp.blocks.isEmpty then .done (.error notFound)
      else .lift (findPayloadInBlocks rpc txId resp.blocks) fun
        | some p => .done (.ok p)
        | none => scanPages txId n resp.blockHashes.getLast?

/-- The block that is hinted at, and then the pages. -/
def scanBlocks (txId : Bytes32) : Option Bytes32 → Client Addr Tx Bytes
  | none => scanPages rpc txId 250 none
  | some h => .ask (.getBlock h true) fun
    | .error _ => .done (.error "get_block with --block-hash")
    | .ok block => .lift (findPayloadInBlock rpc txId block.transactions) fun
      | some p => .done (.ok p)
      | none => scanPages rpc txId 250 none

def fetchTransactionPayload (txId : Bytes32) (blockHashHint : Option Bytes32) :
    Client Addr Tx Bytes :=
  .ask (.getMempoolEntry txId false false) fun
    | .ok entry => .done (.ok (rpc.payload entry.transaction))
    | .error _ => scanBlocks rpc txId blockHashHint

end Source

section Find

variable {Tx : Type} {rpc : RpcTransaction Tx} {want : Bytes32} {xs ys : List Tx}

/-- A list is searched after another one in which nothing was found. -/
theorem findPayloadInBlock_append : findPayloadInBlock rpc want (xs ++ ys) =
    findPayloadInBlock rpc want xs >>= fun
      | some p => .ok (some p)
      | none => findPayloadInBlock rpc want ys := by
  induction xs with
  | nil => rfl
  | cons tx xs ih =>
      rw [List.cons_append, findPayloadInBlock, findPayloadInBlock]
      cases rpc.id tx with
      | error e => rfl
      | ok id =>
          rw [Except.ok_bind, Except.ok_bind]
          split_ifs
          · rfl
          · exact ih

theorem findPayloadInBlock_append_of_none (h : findPayloadInBlock rpc want xs = .ok none) :
    findPayloadInBlock rpc want (xs ++ ys) = findPayloadInBlock rpc want ys := by
  rw [findPayloadInBlock_append, h, Except.ok_bind]

/-- A search that is over is not changed by what follows. -/
theorem findPayloadInBlock_append_of_ne (h : findPayloadInBlock rpc want xs ≠ .ok none) :
    findPayloadInBlock rpc want (xs ++ ys) = findPayloadInBlock rpc want xs := by
  rw [findPayloadInBlock_append]
  cases hfind : findPayloadInBlock rpc want xs with
  | error e => rfl
  | ok found =>
      cases found with
      | some p => rfl
      | none => exact absurd hfind h

/-- The blocks of a page are searched as one list. -/
theorem findPayloadInBlocks_eq (blocks : List (RpcBlock Tx)) :
    findPayloadInBlocks rpc want blocks =
      findPayloadInBlock rpc want (blocks.flatMap RpcBlock.transactions) := by
  induction blocks with
  | nil => rfl
  | cons block blocks ih =>
      rw [findPayloadInBlocks, List.flatMap_cons, findPayloadInBlock_append]
      cases findPayloadInBlock rpc want block.transactions with
      | error e => rfl
      | ok found =>
          cases found with
          | some p => rfl
          | none => exact ih

/-- What is found is the payload of a transaction with the id. -/
theorem mem_of_findPayloadInBlock {p : Bytes} (h : findPayloadInBlock rpc want xs = .ok (some p)) :
    ∃ tx ∈ xs, rpc.id tx = .ok want ∧ rpc.payload tx = p := by
  induction xs with
  | nil => cases h
  | cons tx xs ih =>
      obtain ⟨id, hid, hfound⟩ := Except.bind_eq_ok.mp h
      split_ifs at hfound with hwant
      · obtain rfl := Option.some.inj (Except.ok.inj hfound)
        exact ⟨tx, List.mem_cons_self, by rw [hid, hwant], rfl⟩
      · obtain ⟨tx', hmem, hrest⟩ := ih hfound
        exact ⟨tx', List.mem_cons_of_mem tx hmem, hrest⟩

theorem findPayloadInBlock_of_append (h : findPayloadInBlock rpc want (xs ++ ys) = .ok none) :
    findPayloadInBlock rpc want xs = .ok none := by
  by_contra hne
  exact hne ((findPayloadInBlock_append_of_ne hne).symm.trans h)

end Find

section Searched

variable {Addr Tx : Type} {trace : Trace Addr Tx} {r : Except String Bytes}

/-- The result of a search. -/
def searched : Except String (Option Bytes) → Except String Bytes
  | .ok (some p) => .ok p
  | .ok none => .error notFound
  | .error e => .error e

/-- What is searched for is found, or the search goes on. -/
theorem runs_search {found : Except String (Option Bytes)} {next : Client Addr Tx Bytes} :
    Program.Runs (.lift found fun
      | some p => .done (.ok p)
      | none => next) trace r ↔
      (found ≠ .ok none ∧ trace = [] ∧ r = searched found) ∨
        (found = .ok none ∧ next.Runs trace r) := by
  cases found with
  | error e => simp [searched, eq_comm]
  | ok found =>
      cases found with
      | some p => simp [searched, eq_comm]
      | none => simp

end Searched

end Komms
