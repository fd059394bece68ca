import Komms.Cli.Search
import Komms.Collections.Paging

/-!
# Searching a chain

`NodeStep` is a node whose chain grows at its end and that answers with pages of it. Against
such a node the search is one scan over a prefix of the chain (`fetch_eq_scan`).
-/

namespace Komms

open Cbor

section Chain

variable {Addr Tx : Type}

/-- The blocks of a node with their hashes, in the order in which it pages them. -/
abbrev Chain (Tx : Type) : Type := List (Bytes32 × RpcBlock Tx)

def Chain.transactions (chain : Chain Tx) : List Tx := chain.flatMap fun b => b.2.transactions

/-- What a node with these blocks may reply: a mempool entry with the id, the block with a hash,
and pages of at least `m` blocks. -/
def Answers (rpc : RpcTransaction Tx) (m : Nat) (chain : Chain Tx) :
    Exchange (@Reply Addr Tx) → Prop
  | ⟨.getMempoolEntry txId _ _, reply⟩ =>
    ∀ entry, reply = .ok entry → rpc.id entry.transaction = .ok txId
  | ⟨.getBlock hash _, reply⟩ =>
    (∃ block, (hash, block) ∈ chain ∧ reply = .ok block) ∨
      hash ∉ chain.map Prod.fst ∧ ∃ e, reply = .error e
  | ⟨.getBlocks lowHash _ _, reply⟩ =>
    ∃ page, chain.IsPage Prod.fst m lowHash page ∧
      reply = .ok ⟨page.map Prod.fst, page.map Prod.snd⟩
  | _ => True

/-- The chain may grow before the node replies. -/
def NodeStep (rpc : RpcTransaction Tx) (m : Nat) (chain : Chain Tx)
    (x : Exchange (@Reply Addr Tx)) (chain' : Chain Tx) : Prop :=
  chain <+: chain' ∧ Answers rpc m chain' x

theorem Chain.transactions_append (chain rest : Chain Tx) :
    Chain.transactions (chain ++ rest) = chain.transactions ++ Chain.transactions rest :=
  List.flatMap_append

end Chain

section Scan

variable {Addr Tx : Type} {rpc : RpcTransaction Tx} {m n k : Nat} {chain chain' : Chain Tx}
variable {txId : Bytes32} {r : Except String Bytes}
variable {trace : Trace Addr Tx}

theorem prefix_of_serves (h : Serves (NodeStep rpc m) chain trace chain') : chain <+: chain' :=
  h.monotone List.prefix_refl (fun _ _ _ => List.IsPrefix.trans) fun _ _ _ hstep => hstep.1

/-- A search that ends within a chain ends in the same way when the chain has grown. -/
theorem find_of_prefix (h : chain <+: chain')
    (hne : findPayloadInBlock rpc txId chain.transactions ≠ .ok none) :
    findPayloadInBlock rpc txId chain'.transactions =
      findPayloadInBlock rpc txId chain.transactions := by
  obtain ⟨rest, rfl⟩ := h
  rw [Chain.transactions_append, findPayloadInBlock_append_of_ne hne]

/-- One page: the prefix that has been searched grows, and the search is over or goes on where
the prefix ends. -/
theorem scanPages_step (hrun : (scanPages rpc txId (k + 1) (chain.resume Prod.fst n)).Runs trace r)
    (hserves : Serves (NodeStep rpc m) chain trace chain') (hm : 0 < m) (hne : chain ≠ [])
    (hnodup : (chain'.map Prod.fst).Nodup) (hn : n ≤ chain.length)
    (hnone : findPayloadInBlock rpc txId (Chain.transactions (chain.take n)) = .ok none) :
    ∃ chain₁ n₁, chain <+: chain₁ ∧ chain₁ <+: chain' ∧ n ≤ n₁ ∧ n₁ ≤ chain₁.length ∧
      (n - 1 + m ≤ n₁ ∨ n₁ = chain₁.length) ∧
      ((findPayloadInBlock rpc txId (Chain.transactions (chain₁.take n₁)) ≠ .ok none ∧
        r = searched (findPayloadInBlock rpc txId (Chain.transactions (chain₁.take n₁)))) ∨
       (findPayloadInBlock rpc txId (Chain.transactions (chain₁.take n₁)) = .ok none ∧
        ∃ tail : Trace Addr Tx, (scanPages rpc txId k (chain₁.resume Prod.fst n₁)).Runs tail r ∧
          Serves (NodeStep rpc m) chain₁ tail chain')) := by
  rw [scanPages, Program.runs_ask] at hrun
  obtain ⟨reply, tail, hrun, rfl⟩ := hrun
  obtain ⟨chain₁, ⟨hgrow, page, hpage, rfl⟩, htail⟩ := Serves.cons_iff.mp hserves
  have hrest := prefix_of_serves htail
  have hnodup₁ : (chain₁.map Prod.fst).Nodup := (hrest.sublist.map Prod.fst).nodup hnodup
  have hne₁ : chain₁ ≠ [] := fun hnil => hne (List.prefix_nil.mp (hnil ▸ hgrow))
  obtain ⟨hpage, n₁, hle, hlength, hread, hbound, hresume⟩ :=
    hpage.step hgrow hn hm hne₁ hnodup₁
  refine ⟨chain₁, n₁, hgrow, hrest, hle, hlength, hbound, ?_⟩
  -- what is read again at the start of the page has been searched before
  have hagain : findPayloadInBlock rpc txId (Chain.transactions (chain₁.take (n - 1))) =
      .ok none := by
    have htake : chain₁.take (n - 1) = chain.take (n - 1) := by
      obtain ⟨grown, rfl⟩ := hgrow
      exact List.take_append_of_le_length ((Nat.sub_le n 1).trans hn)
    have hsplit := List.take_append_drop (n - 1) (chain.take n)
    rw [List.take_take, Nat.min_eq_left (Nat.sub_le n 1)] at hsplit
    rw [← hsplit, Chain.transactions_append] at hnone
    rw [htake]
    exact findPayloadInBlock_of_append hnone
  have hfind : findPayloadInBlocks rpc txId (page.map Prod.snd) =
      findPayloadInBlock rpc txId (Chain.transactions (chain₁.take n₁)) := by
    rw [findPayloadInBlocks_eq, List.flatMap_map, ← hread, Chain.transactions_append,
      findPayloadInBlock_append_of_none hagain]
    rfl
  have hblocks : (page.map Prod.snd).isEmpty = false := by
    rw [List.isEmpty_map, List.isEmpty_eq_false_iff]
    exact hpage
  simp only [hblocks, hfind, List.getLast?_map, hresume] at hrun
  rcases runs_search.mp hrun with ⟨hfound, -, hr⟩ | ⟨hnone, hrun⟩
  · exact .inl ⟨hfound, hr⟩
  · exact .inr ⟨hnone, tail, hrun, htail⟩

/-- The result of a search through a prefix of the chain, which is long or was all there was. -/
def ScanResult (rpc : RpcTransaction Tx) (txId : Bytes32) (bound : Nat) (chain' : Chain Tx)
    (r : Except String Bytes) : Prop :=
  ∃ n, bound ≤ n ∧ n ≤ chain'.length ∧
    r = searched (findPayloadInBlock rpc txId (Chain.transactions (chain'.take n)))

/-- A search that ends within a chain is one through all that the chain has grown to. -/
theorem scanResult_of_prefix (h : chain <+: chain') {bound : Nat} (hbound : bound ≤ chain'.length)
    (hne : findPayloadInBlock rpc txId chain.transactions ≠ .ok none)
    (hr : r = searched (findPayloadInBlock rpc txId chain.transactions)) :
    ScanResult rpc txId bound chain' r :=
  ⟨chain'.length, hbound, le_rfl, by rw [List.take_length, find_of_prefix h hne, hr]⟩

/-- All pages from where a prefix that has been searched ends. -/
theorem scanPages_scan (hrun : (scanPages rpc txId k (chain.resume Prod.fst n)).Runs trace r)
    (hserves : Serves (NodeStep rpc m) chain trace chain') (hm : 0 < m) (hne : chain ≠ [])
    (hnodup : (chain'.map Prod.fst).Nodup) (hpos : 0 < n) (hn : n ≤ chain.length)
    (hnone : findPayloadInBlock rpc txId (Chain.transactions (chain.take n)) = .ok none) :
    ScanResult rpc txId (min (n + k * (m - 1)) chain.length) chain' r := by
  induction k generalizing chain n trace with
  | zero =>
      obtain ⟨rfl, rfl⟩ := Program.runs_done.mp hrun
      obtain rfl := Serves.nil_iff.mp hserves
      exact ⟨n, by omega, hn, by rw [hnone]; rfl⟩
  | succ k ih =>
      obtain ⟨chain₁, n₁, hgrow, hrest, hle, hn₁, hbound, hnext⟩ :=
        scanPages_step hrun hserves hm hne hnodup hn hnone
      have hlength := hgrow.length_le
      have hlength' := hrest.length_le
      rcases hnext with ⟨hfound, hr⟩ | ⟨hnone₁, tail, hrun₁, htail⟩
      · have hread : chain₁.take n₁ <+: chain' := (List.take_prefix n₁ chain₁).trans hrest
        exact scanResult_of_prefix hread (by omega) hfound hr
      · have hne₁ : chain₁ ≠ [] := List.length_pos_iff.mp (by omega)
        obtain ⟨n', hmin, hn', hr⟩ := ih hrun₁ htail hne₁ (by omega) hn₁ hnone₁
        refine ⟨n', ?_, hn', hr⟩
        have hmul : (k + 1) * (m - 1) = k * (m - 1) + (m - 1) := Nat.succ_mul k (m - 1)
        omega

/-- All pages from the start, of which the first one is not overlapped by another. -/
theorem scanPages_start (hrun : (scanPages rpc txId (k + 1) none).Runs trace r)
    (hserves : Serves (NodeStep rpc m) chain trace chain') (hm : 0 < m) (hne : chain ≠ [])
    (hnodup : (chain'.map Prod.fst).Nodup) :
    ScanResult rpc txId (min (1 + (k + 1) * (m - 1)) chain.length) chain' r := by
  obtain ⟨chain₁, n₁, hgrow, hrest, -, hn₁, hbound, hnext⟩ :=
    scanPages_step (n := 0) hrun hserves hm hne hnodup (Nat.zero_le _) rfl
  have hpos := List.length_pos_iff.mpr hne
  have hlength := hgrow.length_le
  have hlength' := hrest.length_le
  rcases hnext with ⟨hfound, hr⟩ | ⟨hnone, tail, hrun₁, htail⟩
  · exact scanResult_of_prefix ((List.take_prefix n₁ chain₁).trans hrest) (by omega) hfound hr
  · have hne₁ : chain₁ ≠ [] := List.length_pos_iff.mp (by omega)
    obtain ⟨n', hmin, hn', hr⟩ :=
      scanPages_scan hrun₁ htail hm hne₁ hnodup (by omega) hn₁ hnone
    refine ⟨n', ?_, hn', hr⟩
    have hmul : (k + 1) * (m - 1) = k * (m - 1) + (m - 1) := Nat.succ_mul k (m - 1)
    omega

/-- The block that is hinted at is searched before the chain. -/
def HintedResult (rpc : RpcTransaction Tx) (txId : Bytes32) (hint : Option Bytes32)
    (bound : Nat) (chain' : Chain Tx) (r : Except String Bytes) : Prop :=
  ∃ hinted : Chain Tx, hinted.map Prod.fst = hint.toList ∧ (∀ b ∈ hinted, b ∈ chain') ∧
    ∃ n, bound ≤ n ∧ n ≤ chain'.length ∧
      r = searched (findPayloadInBlock rpc txId (Chain.transactions (hinted ++ chain'.take n)))

/-- The search without the mempool. -/
theorem scanBlocks_scan {hint : Option Bytes32} (hrun : (scanBlocks rpc txId hint).Runs trace r)
    (hserves : Serves (NodeStep rpc m) chain trace chain') (hm : 0 < m) (hne : chain ≠ [])
    (hnodup : (chain'.map Prod.fst).Nodup) :
    (∃ h, hint = some h ∧ h ∉ chain.map Prod.fst ∧ r = .error "get_block with --block-hash") ∨
      HintedResult rpc txId hint (min (1 + 250 * (m - 1)) chain.length) chain' r := by
  cases hint with
  | none => exact .inr ⟨[], rfl, by simp, scanPages_start hrun hserves hm hne hnodup⟩
  | some h =>
      obtain ⟨reply, tail, hnext, rfl⟩ := Program.runs_ask.mp hrun
      obtain ⟨chain₁, ⟨hgrow, hblock⟩, htail⟩ := Serves.cons_iff.mp hserves
      have hlength := hgrow.length_le
      have hrest := prefix_of_serves htail
      rcases hblock with ⟨block, hmem, rfl⟩ | ⟨hunknown, e, rfl⟩
      · have hsingle : Chain.transactions [(h, block)] = block.transactions :=
          List.flatMap_singleton ..
        refine .inr ⟨[(h, block)], rfl, List.forall_mem_singleton.mpr (hrest.mem hmem), ?_⟩
        rcases runs_search.mp hnext with ⟨hfound, -, hr⟩ | ⟨hnone, hnext⟩
        · have hlength' := hrest.length_le
          refine ⟨chain'.length, by omega, le_rfl, ?_⟩
          rw [Chain.transactions_append, hsingle, findPayloadInBlock_append_of_ne hfound, hr]
        · have hne₁ : chain₁ ≠ [] := fun hnil => hne (List.prefix_nil.mp (hnil ▸ hgrow))
          obtain ⟨n, hbound, hn, hr⟩ := scanPages_start hnext htail hm hne₁ hnodup
          refine ⟨n, by omega, hn, ?_⟩
          rw [Chain.transactions_append, hsingle, findPayloadInBlock_append_of_none hnone, hr]
      · have hchain : h ∉ chain.map Prod.fst := fun hmem =>
          hunknown ((hgrow.sublist.map Prod.fst).mem hmem)
        exact .inl ⟨h, rfl, hchain, (Program.runs_done.mp hnext).2.symm⟩

/-- Against a node that pages a growing chain, what is fetched is the mempool entry, or what one
search through the hinted block and a prefix of the chain finds. The prefix has at least
`1 + 250 * (m - 1)` blocks, or all that the chain had in the beginning. -/
theorem fetch_eq_scan (rpc : RpcTransaction Tx) (txId : Bytes32) (hint : Option Bytes32) (m : Nat)
    (hm : 0 < m) (chain chain' : Chain Tx) (hne : chain ≠ [])
    (hnodup : (chain'.map Prod.fst).Nodup) (trace : Trace Addr Tx) (r : Except String Bytes)
    (hrun : (fetchTransactionPayload rpc txId hint).Runs trace r)
    (hserves : Serves (NodeStep rpc m) chain trace chain') :
    (∃ tx, rpc.id tx = .ok txId ∧ r = .ok (rpc.payload tx) ∧
        trace = [⟨.getMempoolEntry txId false false, .ok ⟨tx⟩⟩]) ∨
      (∃ h, hint = some h ∧ h ∉ chain.map Prod.fst ∧
        r = .error "get_block with --block-hash") ∨
      HintedResult rpc txId hint (min (1 + 250 * (m - 1)) chain.length) chain' r := by
  obtain ⟨reply, tail, hnext, rfl⟩ := Program.runs_ask.mp hrun
  obtain ⟨chain₁, ⟨hgrow, hentry⟩, htail⟩ := Serves.cons_iff.mp hserves
  cases reply with
  | ok entry =>
      obtain ⟨rfl, hr⟩ := Program.runs_done.mp hnext
      exact .inl ⟨entry.transaction, hentry entry rfl, hr.symm, rfl⟩
  | error e =>
      have hne₁ : chain₁ ≠ [] := fun hnil => hne (List.prefix_nil.mp (hnil ▸ hgrow))
      have hlength := hgrow.length_le
      refine .inr ?_
      rcases scanBlocks_scan hnext htail hm hne₁ hnodup with ⟨h, hhint, hchain, hr⟩ | hresult
      · exact .inl ⟨h, hhint, fun hmem => hchain ((hgrow.sublist.map Prod.fst).mem hmem), hr⟩
      · obtain ⟨hinted, hhash, hmem, n, hbound, hn, hr⟩ := hresult
        exact .inr ⟨hinted, hhash, hmem, n, by omega, hn, hr⟩

theorem sampleTrace_served (m : Nat) (hm : m ≤ 2) :
    Serves (NodeStep sampleRpc m) sampleChain sampleTrace sampleChain := by
  refine .cons ⟨List.prefix_rfl, fun entry h => by cases h⟩ (.cons ⟨List.prefix_rfl, ?_⟩ (.nil _))
  exact ⟨sampleChain, ⟨by simp, [], [], by simp, by simp, .inl hm⟩, rfl⟩

/-- In the sample the search goes through both blocks. -/
theorem sampleTrace_scanned :
    HintedResult sampleRpc sampleTx.1 none 2 sampleChain (.ok [0x4B]) := by
  rcases fetch_eq_scan sampleRpc sampleTx.1 none 2 (by decide) sampleChain sampleChain
      (by simp [sampleChain]) (by decide +kernel) sampleTrace _ sampleTrace_runs
      (sampleTrace_served 2 le_rfl) with
    ⟨tx, -, -, htrace⟩ | ⟨h, hhint, -⟩ | hscan
  · cases htrace
  · cases hhint
  · exact hscan

end Scan

end Komms
