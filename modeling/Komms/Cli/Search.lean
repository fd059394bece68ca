import Komms.Cli.Rpc

/-!
# The runs of a search

`Search` describes the exchanges of the loop over the pages, and its result: when a page is asked
for, from which hash, and what is made of what the node has sent. The runs of
`fetchTransactionPayload` are described with it, whatever the node replies (`fetch_search`).
-/

namespace Komms

open Cbor

section Search

variable {Addr Tx : Type} {rpc : RpcTransaction Tx} {txId : Bytes32} {k : Nat}
variable {low : Option Bytes32} {searchedBefore : List Tx} {trace : Trace Addr Tx}
variable {r : Except String Bytes}

/-- The transactions of a reply that are searched. -/
def examined : Exchange (@Reply Addr Tx) → List Tx
  | ⟨.getBlock .., .ok block⟩ => block.transactions
  | ⟨.getBlocks .., .ok resp⟩ => resp.blocks.flatMap RpcBlock.transactions
  | _ => []

/-- Each page is asked from the last hash of the page before, and none after an error. -/
def Follows : Option Bytes32 → Trace Addr Tx → Prop
  | _, [] => True
  | low, ⟨.getBlocks lowHash true true, .ok resp⟩ :: rest =>
    lowHash = low ∧ Follows resp.blockHashes.getLast? rest
  | low, ⟨.getBlocks lowHash true true, .error _⟩ :: rest => lowHash = low ∧ rest = []
  | _, _ => False

/-- A page of blocks that the node has sent. -/
def Sent (blocks : List (RpcBlock Tx)) (x : Exchange (@Reply Addr Tx)) : Prop :=
  ∃ low resp, x = ⟨.getBlocks low true true, .ok resp⟩ ∧ resp.blocks = blocks

/-- All pages have been read, or the last one was empty. -/
def Exhausted (k : Nat) (pages : Trace Addr Tx) : Prop :=
  (pages.length = k ∧ ∀ x ∈ pages, ∃ blocks, Sent blocks x) ∨
    ∃ x, pages.getLast? = some x ∧ Sent [] x

/-- Pages after which another one is asked for: nothing has been found, and none was empty. -/
structure Unfinished (rpc : RpcTransaction Tx) (txId : Bytes32) (searchedBefore : List Tx)
    (pages : Trace Addr Tx) : Prop where
  unfound : findPayloadInBlock rpc txId (searchedBefore ++ pages.flatMap examined) = .ok none
  filled : ∀ x ∈ pages, ∃ blocks, blocks ≠ [] ∧ Sent blocks x

/-- A search through at most `k` pages, after transactions that have been searched before. It
goes on only while it has to, stops where it finds something, and finds nothing only if nothing
it was sent is it. -/
structure Search (rpc : RpcTransaction Tx) (txId : Bytes32) (k : Nat) (low : Option Bytes32)
    (searchedBefore : List Tx) (pages : Trace Addr Tx) (r : Except String Bytes) : Prop where
  bounded : pages.length ≤ k
  follows : Follows low pages
  needed : ∀ before page after, pages = before ++ page :: after →
    Unfinished rpc txId searchedBefore before
  ended : findPayloadInBlock rpc txId (searchedBefore ++ pages.flatMap examined) ≠ .ok none →
    r = searched (findPayloadInBlock rpc txId (searchedBefore ++ pages.flatMap examined))
  unfound : findPayloadInBlock rpc txId (searchedBefore ++ pages.flatMap examined) = .ok none →
    (r = .error notFound ∧ Exhausted k pages) ∨
      (r = .error "get_blocks" ∧
        ∃ low e, pages.getLast? = some ⟨.getBlocks low true true, .error e⟩)

section Page

variable {resp : GetBlocksResponse Tx} {e : String}

@[simp] theorem sent_ok {blocks : List (RpcBlock Tx)} {low : Option Bytes32} :
    Sent blocks (⟨.getBlocks low true true, .ok resp⟩ : Exchange (@Reply Addr Tx)) ↔
      resp.blocks = blocks := by
  constructor
  · rintro ⟨low', resp', h, hblocks⟩
    cases h
    exact hblocks
  · intro h
    exact ⟨low, resp, rfl, h⟩

theorem not_sent_error {blocks : List (RpcBlock Tx)} {low : Option Bytes32} :
    ¬ Sent blocks (⟨.getBlocks low true true, .error e⟩ : Exchange (@Reply Addr Tx)) := by
  rintro ⟨low', resp', h, -⟩
  cases h

/-- A page is searched after what has been searched before. -/
theorem find_page (hbefore : findPayloadInBlock rpc txId searchedBefore = .ok none)
    (low : Option Bytes32) : findPayloadInBlock rpc txId (searchedBefore ++
        ([⟨.getBlocks low true true, .ok resp⟩] : Trace Addr Tx).flatMap examined) =
      findPayloadInBlocks rpc txId resp.blocks := by
  rw [findPayloadInBlock_append_of_none hbefore, findPayloadInBlocks_eq, List.flatMap_singleton,
    examined]

/-- A page in which nothing is found, before the others. -/
theorem flatMap_examined_cons (low : Option Bytes32) (rest : Trace Addr Tx) :
    searchedBefore ++
        (⟨.getBlocks low true true, .ok resp⟩ :: rest : Trace Addr Tx).flatMap examined =
      searchedBefore ++ resp.blocks.flatMap RpcBlock.transactions ++ rest.flatMap examined := by
  rw [List.flatMap_cons, List.append_assoc, examined]

theorem exhausted_cons_iff (hne : resp.blocks ≠ []) {rest : Trace Addr Tx} :
    Exhausted (k + 1) (⟨.getBlocks low true true, .ok resp⟩ :: rest) ↔ Exhausted k rest := by
  simp only [Exhausted, List.length_cons, Nat.add_right_cancel_iff, List.forall_mem_cons, sent_ok,
    exists_eq', true_and, List.getLast?_cons]
  cases rest.getLast? <;> simp [hne]

theorem unfinished_nil (hbefore : findPayloadInBlock rpc txId searchedBefore = .ok none) :
    Unfinished rpc txId searchedBefore ([] : Trace Addr Tx) where
  unfound := by rwa [List.flatMap_nil, List.append_nil]
  filled := List.forall_mem_nil _

theorem unfinished_cons_iff (hne : resp.blocks ≠ []) {rest : Trace Addr Tx} :
    Unfinished rpc txId searchedBefore (⟨.getBlocks low true true, .ok resp⟩ :: rest) ↔
      Unfinished rpc txId (searchedBefore ++ resp.blocks.flatMap RpcBlock.transactions) rest := by
  have hfilled : ∃ blocks, blocks ≠ [] ∧
      Sent blocks (⟨.getBlocks low true true, .ok resp⟩ : Exchange (@Reply Addr Tx)) :=
    ⟨resp.blocks, hne, sent_ok.mpr rfl⟩
  constructor
  · rintro ⟨hunfound, hall⟩
    exact ⟨flatMap_examined_cons low rest ▸ hunfound, (List.forall_mem_cons.mp hall).2⟩
  · rintro ⟨hunfound, hall⟩
    exact ⟨flatMap_examined_cons low rest ▸ hunfound, List.forall_mem_cons.mpr ⟨hfilled, hall⟩⟩

end Page

/-- No page is asked for after something has been found, or when no page is left. -/
theorem search_nil_iff : Search rpc txId k low searchedBefore ([] : Trace Addr Tx) r ↔
    (findPayloadInBlock rpc txId searchedBefore ≠ .ok none ∧
      r = searched (findPayloadInBlock rpc txId searchedBefore)) ∨
    (findPayloadInBlock rpc txId searchedBefore = .ok none ∧ k = 0 ∧ r = .error notFound) := by
  have hsearch : searchedBefore ++ ([] : Trace Addr Tx).flatMap examined = searchedBefore :=
    List.append_nil _
  have hneeded (before : Trace Addr Tx) (page : Exchange (@Reply Addr Tx)) (after : Trace Addr Tx)
      (h : [] = before ++ page :: after) : Unfinished rpc txId searchedBefore before := by
    cases before <;> cases h
  constructor
  · intro h
    have hended := h.ended
    have hunfound := h.unfound
    rw [hsearch] at hended hunfound
    by_cases hfound : findPayloadInBlock rpc txId searchedBefore = .ok none
    · refine .inr ⟨hfound, ?_⟩
      rcases hunfound hfound with ⟨hr, ⟨hlength, -⟩ | ⟨x, hlast, -⟩⟩ | ⟨-, low', e, hlast⟩
      · exact ⟨hlength.symm, hr⟩
      · cases hlast
      · cases hlast
    · exact .inl ⟨hfound, hended hfound⟩
  · rintro (⟨hfound, rfl⟩ | ⟨hnone, rfl, rfl⟩)
    · exact ⟨Nat.zero_le k, trivial, hneeded, fun _ => by rw [hsearch],
        fun h => absurd (hsearch ▸ h) hfound⟩
    · exact ⟨le_rfl, trivial, hneeded, fun h => absurd hnone (hsearch ▸ h),
        fun _ => .inl ⟨rfl, .inl ⟨rfl, List.forall_mem_nil _⟩⟩⟩

/-- A page in which nothing is found, before the others. -/
theorem search_cons_iff {resp : GetBlocksResponse Tx} {rest : Trace Addr Tx}
    (hne : resp.blocks ≠ [])
    (hbefore : findPayloadInBlock rpc txId searchedBefore = .ok none) :
    Search rpc txId (k + 1) low searchedBefore (⟨.getBlocks low true true, .ok resp⟩ :: rest) r ↔
      Search rpc txId k resp.blockHashes.getLast?
        (searchedBefore ++ resp.blocks.flatMap RpcBlock.transactions) rest r := by
  have hsearch := @flatMap_examined_cons Addr Tx searchedBefore resp low rest
  have hlast (e : String) : (∃ low' : Option Bytes32,
        (⟨.getBlocks low true true, .ok resp⟩ :: rest : Trace Addr Tx).getLast? =
          some ⟨.getBlocks low' true true, .error e⟩) ↔
      ∃ low', rest.getLast? = some ⟨.getBlocks low' true true, .error e⟩ := by
    rw [List.getLast?_cons]
    cases rest.getLast? <;> simp
  constructor
  · intro h
    refine ⟨Nat.le_of_succ_le_succ h.bounded, h.follows.2, fun before page after heq => ?_,
      fun hfound => ?_, fun hnone => ?_⟩
    · exact (unfinished_cons_iff hne).mp
        (h.needed (⟨.getBlocks low true true, .ok resp⟩ :: before) page after (by rw [heq]; rfl))
    · rw [← hsearch] at hfound ⊢
      exact h.ended hfound
    · rw [← hsearch] at hnone
      rcases h.unfound hnone with ⟨hr, hexhausted⟩ | ⟨hr, low', e, herror⟩
      · exact .inl ⟨hr, (exhausted_cons_iff hne).mp hexhausted⟩
      · obtain ⟨low', herror⟩ := (hlast e).mp ⟨low', herror⟩
        exact .inr ⟨hr, low', e, herror⟩
  · intro h
    refine ⟨Nat.succ_le_succ h.bounded, ⟨rfl, h.follows⟩, fun before page after heq => ?_,
      fun hfound => ?_, fun hnone => ?_⟩
    · cases before with
      | nil => exact unfinished_nil hbefore
      | cons first before =>
          obtain ⟨rfl, htail⟩ := List.cons.inj heq
          exact (unfinished_cons_iff hne).mpr (h.needed before page after htail)
    · rw [hsearch] at hfound ⊢
      exact h.ended hfound
    · rw [hsearch] at hnone
      rcases h.unfound hnone with ⟨hr, hexhausted⟩ | ⟨hr, low', e, herror⟩
      · exact .inl ⟨hr, (exhausted_cons_iff hne).mpr hexhausted⟩
      · obtain ⟨low', herror⟩ := (hlast e).mpr ⟨low', herror⟩
        exact .inr ⟨hr, low', e, herror⟩

/-- No page follows one after which the search is over. -/
theorem Search.eq_nil {x : Exchange (@Reply Addr Tx)} {rest : Trace Addr Tx}
    (h : Search rpc txId k low searchedBefore (x :: rest) r)
    (hover : ¬ Unfinished rpc txId searchedBefore [x]) : rest = [] := by
  cases rest with
  | nil => rfl
  | cons y rest => exact absurd (h.needed [x] y rest rfl) hover

/-- A search that has found nothing asks for a page. -/
theorem Search.exists_page (h : Search rpc txId (k + 1) low searchedBefore trace r)
    (hbefore : findPayloadInBlock rpc txId searchedBefore = .ok none) :
    ∃ reply rest, trace = ⟨.getBlocks low true true, reply⟩ :: rest := by
  have hne : trace ≠ [] := by
    rintro rfl
    rcases search_nil_iff.mp h with ⟨hfound, -⟩ | ⟨-, hk, -⟩
    · exact hfound hbefore
    · cases hk
  have hfollows := h.follows
  revert hfollows
  fun_cases Follows low trace with
  | case1 => exact absurd rfl hne
  | case2 lowHash resp rest =>
      rintro ⟨rfl, -⟩
      exact ⟨_, _, rfl⟩
  | case3 lowHash e rest =>
      rintro ⟨rfl, -⟩
      exact ⟨_, _, rfl⟩
  | case4 => exact False.elim

/-- What was found before is the result, and no page is asked for. -/
theorem search_of_found (hfound : findPayloadInBlock rpc txId searchedBefore ≠ .ok none) :
    Search rpc txId k low searchedBefore trace r ↔
      trace = [] ∧ r = searched (findPayloadInBlock rpc txId searchedBefore) := by
  constructor
  · intro h
    cases trace with
    | nil =>
        rcases search_nil_iff.mp h with ⟨-, hr⟩ | ⟨hnone, -⟩
        · exact ⟨rfl, hr⟩
        · exact absurd hnone hfound
    | cons page after =>
        have hnone := (h.needed [] page after rfl).unfound
        rw [List.flatMap_nil, List.append_nil] at hnone
        exact absurd hnone hfound
  · rintro ⟨rfl, rfl⟩
    exact search_nil_iff.mpr (.inl ⟨hfound, rfl⟩)

/-- Another page is asked for after one with blocks in which nothing is found. -/
theorem unfinished_page_iff {reply : Except String (GetBlocksResponse Tx)}
    (hbefore : findPayloadInBlock rpc txId searchedBefore = .ok none) :
    Unfinished rpc txId searchedBefore
        ([⟨.getBlocks low true true, reply⟩] : Trace Addr Tx) ↔
      ∃ resp, reply = .ok resp ∧ resp.blocks ≠ [] ∧
        findPayloadInBlocks rpc txId resp.blocks = .ok none := by
  constructor
  · rintro ⟨hunfound, hfilled⟩
    obtain ⟨blocks, hne, hsent⟩ := hfilled _ List.mem_cons_self
    cases reply with
    | error e => exact absurd hsent not_sent_error
    | ok resp =>
        obtain rfl := sent_ok.mp hsent
        exact ⟨resp, rfl, hne, (find_page hbefore low).symm.trans hunfound⟩
  · rintro ⟨resp, rfl, hne, hnone⟩
    exact ⟨(find_page hbefore low).trans hnone,
      List.forall_mem_singleton.mpr ⟨_, hne, sent_ok.mpr rfl⟩⟩

/-- What comes of the last page. -/
def pageResult (rpc : RpcTransaction Tx) (txId : Bytes32) :
    Except String (GetBlocksResponse Tx) → Except String Bytes
  | .error _ => .error "get_blocks"
  | .ok resp => searched (findPayloadInBlocks rpc txId resp.blocks)

/-- The last page: it fails, or it is empty, or the search ends in it. -/
theorem search_last_iff {reply : Except String (GetBlocksResponse Tx)}
    (hbefore : findPayloadInBlock rpc txId searchedBefore = .ok none)
    (hover : ¬ Unfinished rpc txId searchedBefore
      ([⟨.getBlocks low true true, reply⟩] : Trace Addr Tx)) :
    Search rpc txId (k + 1) low searchedBefore (⟨.getBlocks low true true, reply⟩ :: trace) r ↔
      trace = [] ∧ r = pageResult rpc txId reply := by
  have hneeded (before : Trace Addr Tx) (page : Exchange (@Reply Addr Tx)) (after : Trace Addr Tx)
      (h : [⟨.getBlocks low true true, reply⟩] = before ++ page :: after) :
      Unfinished rpc txId searchedBefore before := by
    cases before with
    | nil => exact unfinished_nil hbefore
    | cons first before =>
        have htail := (List.cons.inj h).2
        cases before <;> cases htail
  cases reply with
  | error e =>
      have hsearch : searchedBefore ++ ([⟨.getBlocks low true true, .error e⟩] :
          Trace Addr Tx).flatMap examined = searchedBefore := List.append_nil _
      constructor
      · intro h
        obtain rfl := h.eq_nil hover
        refine ⟨rfl, ?_⟩
        rcases h.unfound (by rwa [hsearch]) with ⟨-, ⟨-, hsent⟩ | ⟨x, hlast, hsent⟩⟩ | ⟨hr, -⟩
        · obtain ⟨blocks, hsent⟩ := hsent _ List.mem_cons_self
          exact absurd hsent not_sent_error
        · obtain rfl := Option.some.inj hlast
          exact absurd hsent not_sent_error
        · exact hr
      · rintro ⟨rfl, rfl⟩
        refine ⟨by simp, ⟨rfl, rfl⟩, hneeded, fun hfound => ?_, fun _ => .inr ⟨rfl, low, e, rfl⟩⟩
        rw [hsearch] at hfound
        exact absurd hbefore hfound
  | ok resp =>
      have hsearch := @find_page Addr _ _ _ _ resp hbefore low
      have hempty (hnone : findPayloadInBlocks rpc txId resp.blocks = .ok none) :
          resp.blocks = [] := by
        by_contra hne
        exact hover ((unfinished_page_iff hbefore).mpr ⟨resp, rfl, hne, hnone⟩)
      constructor
      · intro h
        obtain rfl := h.eq_nil hover
        refine ⟨rfl, ?_⟩
        by_cases hnone : findPayloadInBlocks rpc txId resp.blocks = .ok none
        · rcases h.unfound (hsearch.trans hnone) with ⟨hr, -⟩ | ⟨-, low', e, hlast⟩
          · rw [hr, pageResult, hnone, searched]
          · cases hlast
        · rw [h.ended (hsearch.symm ▸ hnone), hsearch, pageResult]
      · rintro ⟨rfl, rfl⟩
        refine ⟨by simp, ⟨rfl, trivial⟩, hneeded, fun _ => by rw [hsearch, pageResult],
          fun hnone => .inl ?_⟩
        rw [hsearch] at hnone
        exact ⟨by rw [pageResult, hnone, searched],
          .inr ⟨_, rfl, sent_ok.mpr (hempty hnone)⟩⟩

/-- One page: the loop is over, or it goes on from the last hash of the page. -/
theorem runs_page_iff {reply : Except String (GetBlocksResponse Tx)} :
    (scanPages rpc txId (k + 1) low).Runs (⟨.getBlocks low true true, reply⟩ :: trace) r ↔
      (¬ (∃ resp, reply = .ok resp ∧ resp.blocks ≠ [] ∧
          findPayloadInBlocks rpc txId resp.blocks = .ok none) ∧
        trace = [] ∧ r = pageResult rpc txId reply) ∨
      ∃ resp, reply = .ok resp ∧ resp.blocks ≠ [] ∧
        findPayloadInBlocks rpc txId resp.blocks = .ok none ∧
        (scanPages rpc txId k resp.blockHashes.getLast?).Runs trace r := by
  rw [scanPages, Program.runs_ask_cons]
  cases reply with
  | error e => simp [pageResult, eq_comm]
  | ok resp =>
      by_cases hempty : resp.blocks = []
      · simp [pageResult, hempty, findPayloadInBlocks, searched, eq_comm]
      · simp only [List.isEmpty_iff, hempty, if_false, runs_search, pageResult]
        simp [hempty]

/-- The runs of the loop are the searches. -/
theorem scanPages_search_iff (hbefore : findPayloadInBlock rpc txId searchedBefore = .ok none) :
    (scanPages rpc txId k low).Runs trace r ↔ Search rpc txId k low searchedBefore trace r := by
  induction k generalizing low searchedBefore trace with
  | zero =>
      rw [scanPages, Program.runs_done]
      constructor
      · rintro ⟨rfl, rfl⟩
        exact search_nil_iff.mpr (.inr ⟨hbefore, rfl, rfl⟩)
      · intro h
        obtain rfl := List.eq_nil_of_length_eq_zero (Nat.le_zero.mp h.bounded)
        rcases search_nil_iff.mp h with ⟨hfound, -⟩ | ⟨-, -, hr⟩
        · exact absurd hbefore hfound
        · exact ⟨rfl, hr.symm⟩
  | succ k ih =>
      have hask (reply : Except String (GetBlocksResponse Tx)) (rest : Trace Addr Tx) :
          (scanPages rpc txId (k + 1) low).Runs (⟨.getBlocks low true true, reply⟩ :: rest) r ↔
            Search rpc txId (k + 1) low searchedBefore (⟨.getBlocks low true true, reply⟩ :: rest)
              r := by
        rw [runs_page_iff]
        by_cases hover : ∃ resp, reply = .ok resp ∧ resp.blocks ≠ [] ∧
            findPayloadInBlocks rpc txId resp.blocks = .ok none
        · obtain ⟨resp, rfl, hne, hnone⟩ := hover
          have hsearched : findPayloadInBlock rpc txId
              (searchedBefore ++ resp.blocks.flatMap RpcBlock.transactions) = .ok none := by
            rwa [findPayloadInBlock_append_of_none hbefore, ← findPayloadInBlocks_eq]
          rw [search_cons_iff hne hbefore, ← ih hsearched]
          simp [hne, hnone]
        · rw [search_last_iff hbefore (hover ∘ (unfinished_page_iff hbefore).mp)]
          constructor
          · rintro (⟨-, hdone⟩ | ⟨resp, hreply, hne, hnone, -⟩)
            · exact hdone
            · exact absurd ⟨resp, hreply, hne, hnone⟩ hover
          · intro hdone
            exact .inl ⟨hover, hdone⟩
      constructor
      · intro h
        obtain ⟨reply, rest, -, rfl⟩ := Program.runs_ask.mp h
        exact (hask reply rest).mp h
      · intro h
        obtain ⟨reply, rest, rfl⟩ := h.exists_page hbefore
        exact (hask reply rest).mpr h

/-- The block that is hinted at, as the node sends it. -/
def Hinted (hint : Option Bytes32) (hinted : Trace Addr Tx) : Prop :=
  (hint = none ∧ hinted = []) ∨
    ∃ h block, hint = some h ∧ hinted = [⟨.getBlock h true, .ok block⟩]

/-- The runs without the mempool. -/
theorem scanBlocks_search_iff {hint : Option Bytes32} :
    (scanBlocks rpc txId hint).Runs trace r ↔
      (∃ h e, hint = some h ∧ trace = [⟨.getBlock h true, .error e⟩] ∧
        r = .error "get_block with --block-hash") ∨
      ∃ hinted pages, trace = hinted ++ pages ∧ Hinted hint hinted ∧
        Search rpc txId 250 none (hinted.flatMap examined) pages r := by
  cases hint with
  | none =>
      have hnil : findPayloadInBlock rpc txId [] = .ok none := rfl
      rw [scanBlocks, scanPages_search_iff hnil]
      constructor
      · intro h
        exact .inr ⟨[], trace, rfl, .inl ⟨rfl, rfl⟩, h⟩
      · rintro (⟨h, -, hhint, -⟩ | ⟨hinted, pages, rfl, ⟨-, rfl⟩ | ⟨h, -, hhint, -⟩, hsearch⟩)
        · cases hhint
        · exact hsearch
        · cases hhint
  | some h =>
      have hblock (block : RpcBlock Tx) (pages : Trace Addr Tx) :
          (scanBlocks rpc txId (some h)).Runs (⟨.getBlock h true, .ok block⟩ :: pages) r ↔
            Search rpc txId 250 none block.transactions pages r := by
        rw [scanBlocks, Program.runs_ask_cons, runs_search]
        by_cases hfound : findPayloadInBlock rpc txId block.transactions = .ok none
        · simp [hfound, scanPages_search_iff hfound]
        · simp [hfound, search_of_found hfound]
      constructor
      · intro hrun
        obtain ⟨reply, pages, hnext, rfl⟩ := Program.runs_ask.mp hrun
        cases reply with
        | error e =>
            obtain ⟨rfl, hr⟩ := Program.runs_done.mp hnext
            exact .inl ⟨h, e, rfl, rfl, hr.symm⟩
        | ok block =>
            refine .inr ⟨[⟨.getBlock h true, .ok block⟩], pages, rfl, .inr ⟨h, block, rfl, rfl⟩, ?_⟩
            rw [List.flatMap_singleton]
            exact (hblock block pages).mp hrun
      · rintro (⟨h', e, hhint, rfl, rfl⟩ |
          ⟨hinted, pages, rfl, ⟨hhint, -⟩ | ⟨h', block, hhint, rfl⟩, hsearch⟩)
        · obtain rfl := Option.some.inj hhint
          exact .ask (.done _)
        · cases hhint
        · obtain rfl := Option.some.inj hhint
          rw [List.flatMap_singleton] at hsearch
          exact (hblock block pages).mpr hsearch

/-- The runs, whatever the node does: what is fetched is the mempool entry that it sends, or what
a search finds in the hinted block and in the pages it sends. -/
theorem fetch_search (rpc : RpcTransaction Tx) (txId : Bytes32) (hint : Option Bytes32)
    (trace : Trace Addr Tx) (r : Except String Bytes) :
    (fetchTransactionPayload rpc txId hint).Runs trace r ↔
      (∃ entry, trace = [⟨.getMempoolEntry txId false false, .ok entry⟩] ∧
        r = .ok (rpc.payload entry.transaction)) ∨
      (∃ e h e', hint = some h ∧ trace = [⟨.getMempoolEntry txId false false, .error e⟩,
          ⟨.getBlock h true, .error e'⟩] ∧ r = .error "get_block with --block-hash") ∨
      ∃ e hinted pages,
        trace = ⟨.getMempoolEntry txId false false, .error e⟩ :: (hinted ++ pages) ∧
          Hinted hint hinted ∧ Search rpc txId 250 none (hinted.flatMap examined) pages r := by
  constructor
  · intro hrun
    obtain ⟨reply, tail, hnext, rfl⟩ := Program.runs_ask.mp hrun
    cases reply with
    | ok entry =>
        obtain ⟨rfl, hr⟩ := Program.runs_done.mp hnext
        exact .inl ⟨entry, rfl, hr.symm⟩
    | error e =>
        rcases scanBlocks_search_iff.mp hnext with
          ⟨h, e', hhint, rfl, hr⟩ | ⟨hinted, pages, rfl, hhinted, hsearch⟩
        · exact .inr (.inl ⟨e, h, e', hhint, rfl, hr⟩)
        · exact .inr (.inr ⟨e, hinted, pages, rfl, hhinted, hsearch⟩)
  · rintro (⟨entry, rfl, rfl⟩ | ⟨e, h, e', hhint, rfl, rfl⟩ |
      ⟨e, hinted, pages, rfl, hhinted, hsearch⟩)
    · exact .ask (.done _)
    · exact .ask (scanBlocks_search_iff.mpr (.inl ⟨h, e', hhint, rfl, rfl⟩))
    · exact .ask (scanBlocks_search_iff.mpr (.inr ⟨hinted, pages, rfl, hhinted, hsearch⟩))

def sampleRpc : RpcTransaction (Bytes32 × Bytes) where
  payload := Prod.snd
  id tx := .ok tx.1

def sampleTx : Bytes32 × Bytes := (List.Vector.replicate 32 9, [0x4B])

/-- A chain of two blocks, with a transaction in the second one. -/
def sampleChain : List (Bytes32 × RpcBlock (Bytes32 × Bytes)) :=
  [(List.Vector.replicate 32 1, ⟨[]⟩), (List.Vector.replicate 32 2, ⟨[sampleTx]⟩)]

def sampleTrace : Trace Unit (Bytes32 × Bytes) :=
  [⟨.getMempoolEntry sampleTx.1 false false, .error "not in the mempool"⟩,
    ⟨.getBlocks none true true, .ok ⟨sampleChain.map Prod.fst, sampleChain.map Prod.snd⟩⟩]

theorem sampleTrace_runs :
    (fetchTransactionPayload sampleRpc sampleTx.1 none).Runs sampleTrace (.ok [0x4B]) := by
  have hfound : findPayloadInBlocks sampleRpc sampleTx.1 (sampleChain.map Prod.snd) =
      .ok (some [0x4B]) := by
    simp [findPayloadInBlocks, findPayloadInBlock, sampleRpc, sampleChain, sampleTx]
  refine .ask (.ask (runs_search.mpr (.inl ⟨?_, rfl, ?_⟩)))
  · rw [hfound]
    simp
  · rw [hfound]
    rfl

/-- The transaction is found in the first page. -/
theorem sampleTrace_search : ∃ e hinted pages,
    sampleTrace = ⟨.getMempoolEntry sampleTx.1 false false, .error e⟩ :: (hinted ++ pages) ∧
      Hinted none hinted ∧
      Search sampleRpc sampleTx.1 250 none (hinted.flatMap examined) pages (.ok [0x4B]) := by
  rcases (fetch_search sampleRpc sampleTx.1 none sampleTrace _).mp sampleTrace_runs with
    ⟨entry, htrace, -⟩ | ⟨e, h, e', hhint, -⟩ | hsearch
  · cases htrace
  · cases hhint
  · exact hsearch

end Search

end Komms
