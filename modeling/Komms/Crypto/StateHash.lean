import Komms.Collections.PrefixCode
import Komms.Collections.SortedMap
import Komms.Collections.StableSort
import Komms.Crypto.HashChain
import Komms.Protocol.Event
import Komms.Protocol.Locality
import Mathlib.Data.List.Lex

/-!
# Cumulative state hash

The hash of an accepting block covers the hash before it and a CBOR array of the
projected events, sorted by `tx_id` and copied verbatim. The elements carry no lengths:
that they can be told apart rests on the canonical encodings being a prefix-free code
(`canonical_prefixFree`).

BLAKE2b-256 is a parameter, an arbitrary function from byte strings to 32 bytes. The
source feeds its hasher in pieces; the input is their concatenation.
-/

namespace Komms

open Cbor

namespace StateHash

/-- Domain-separation prefix for the genesis state hash. -/
def genesisDomain : Bytes := utf8 "KOMMS_STATE_GENESIS_v1.1"

/-- One projected event contributing to a block's state hash. -/
structure ProjectedEvent where
  txId : Bytes32
  canonicalCbor : Bytes
  deriving DecidableEq

/-- What the genesis hash is taken of. -/
def genesisInput : Bytes := genesisDomain ++ List.replicate 32 0

def stateHashGenesis (blake2b256 : Bytes → Bytes32) : Bytes32 := blake2b256 genesisInput

/-- A CBOR head in the shortest form. -/
def encodeCborUintHeader (majorTypeByte : UInt8) (value : UInt64) : Bytes :=
  let initial := majorTypeByte &&& 0xE0
  if value < 24 then [initial ||| value.toUInt8]
  else if value < 0x100 then [initial ||| 24, value.toUInt8]
  else if value < 0x10000 then (initial ||| 25) :: beBytes 2 value.toNat
  else if value < 0x100000000 then (initial ||| 26) :: beBytes 4 value.toNat
  else (initial ||| 27) :: beBytes 8 value.toNat

/-- The events in the order in which they are hashed. The source sorts their indices with
the stable `sort_by`. -/
def sortedEvents (events : List ProjectedEvent) : List ProjectedEvent :=
  events.sortByKey fun e => e.txId.1

/-- What is hashed after the hash before it. -/
def hashedArray (events : List ProjectedEvent) : Bytes :=
  encodeCborUintHeader 0x80 (.ofNat events.length) ++
    (sortedEvents events).flatMap (·.canonicalCbor)

/-- What the hash of a block is taken of. -/
def nextInput (prior : Bytes32) (events : List ProjectedEvent) : Bytes :=
  prior.1 ++ hashedArray events

def stateHashNext (blake2b256 : Bytes → Bytes32) (prior : Bytes32)
    (events : List ProjectedEvent) : Bytes32 :=
  blake2b256 (nextInput prior events)

/-- The state hash after a sequence of blocks. -/
def stateHash (blake2b256 : Bytes → Bytes32) (blocks : List (List ProjectedEvent)) : Bytes32 :=
  blocks.foldl (stateHashNext blake2b256) (stateHashGenesis blake2b256)

section Header

open Canonical (majorOf argOf majorOf_eq majorOf_lt readU8 readU8_ok_iff readArgument
  readArgument_ok_iff spans_head_iff)

variable {majorTypeByte : UInt8} {value : UInt64}

/-- Setting the low bits of a major type byte adds the additional information. -/
theorem initial_or {i : UInt8} (h : i.toNat < 32) :
    (majorTypeByte &&& 0xE0) ||| i = initialByte (majorOf majorTypeByte) i.toNat := by
  have hhigh : ∀ n < 256, n &&& 224 = 2 ^ 5 * (n / 32) := by decide +kernel
  rw [← UInt8.toNat_inj, initialByte_toNat (majorOf_lt _) h, UInt8.toNat_or, UInt8.toNat_and,
    majorOf_eq]
  show majorTypeByte.toNat &&& 224 ||| _ = _
  rw [hhigh _ majorTypeByte.toNat_lt, ← Nat.two_pow_add_eq_or_of_lt h, Nat.mul_comm]

/-- A head with the additional information `i`, in the words of the source. -/
theorem head_eq_or {i : UInt8} (hi : i.toNat < 32) (hinfo : info value.toNat = i.toNat) :
    head (majorOf majorTypeByte) value.toNat =
      ((majorTypeByte &&& 0xE0) ||| i) :: beBytes (argWidth i.toNat) value.toNat := by
  rw [initial_or hi, head, argBytes, hinfo]

/-- The header is the shortest head of the major type and the value. -/
theorem encodeCborUintHeader_eq_head (majorTypeByte : UInt8) (value : UInt64) :
    encodeCborUintHeader majorTypeByte value = head (majorOf majorTypeByte) value.toNat := by
  have hvalue := value.toNat_lt
  have hbound (n : UInt64) : value < n ↔ value.toNat < n.toNat := UInt64.lt_iff_toNat_lt
  simp only [encodeCborUintHeader, hbound]
  split_ifs with h24 h8 h16 h32
  · have hsmall : value.toNat < 24 := h24
    have hbyte : value.toUInt8.toNat = value.toNat := by
      rw [UInt64.toNat_toUInt8]
      omega
    rw [head_eq_or (i := value.toUInt8) (by omega) (by rw [hbyte, info_of_lt hsmall]), hbyte,
      argWidth_of_lt hsmall, beBytes]
  · refine (head_eq_or (i := 24) (by decide) ?_).symm
    have hlarge : ¬ value.toNat < 24 := h24
    exact (if_neg hlarge).trans (if_pos h8)
  · refine (head_eq_or (i := 25) (by decide) ?_).symm
    exact (if_neg h24).trans ((if_neg h8).trans (if_pos h16))
  · refine (head_eq_or (i := 26) (by decide) ?_).symm
    exact (if_neg h24).trans ((if_neg h8).trans ((if_neg h16).trans (if_pos h32)))
  · refine (head_eq_or (i := 27) (by decide) ?_).symm
    exact (if_neg h24).trans ((if_neg h8).trans ((if_neg h16).trans (if_neg h32)))

theorem encodeCborUintHeader_array : encodeCborUintHeader 0x80 value = head 4 value.toNat :=
  encodeCborUintHeader_eq_head 0x80 value

/-- The canonical reader reads the major type and the value back, and everything. -/
theorem readArgument_encodeCborUintHeader (majorTypeByte : UInt8) (value : UInt64) :
    ∃ initial, readU8 (encodeCborUintHeader majorTypeByte value) 0 = .ok (initial, 1) ∧
      majorOf initial = majorOf majorTypeByte ∧ argOf initial < 28 ∧
      readArgument (encodeCborUintHeader majorTypeByte value) 1 (argOf initial) 0 =
        .ok (value.toNat, (encodeCborUintHeader majorTypeByte value).length) := by
  rw [encodeCborUintHeader_eq_head]
  obtain ⟨initial, p, hinitial, hmajor, hinfo, hargs⟩ :=
    (spans_head_iff (majorOf_lt majorTypeByte)).mp (Spans.whole_iff.mpr rfl)
  obtain ⟨-, rfl⟩ := Spans.singleton_iff.mp hinitial
  exact ⟨initial, readU8_ok_iff.mpr hinitial, hmajor, hinfo ▸ info_lt value.toNat,
    readArgument_ok_iff.mpr ⟨value.toNat_lt, hinfo, hargs⟩⟩

end Header

/-- The canonical byte strings are a prefix-free code. -/
theorem canonical_prefixFree :
    Coding.PrefixFree {b : Bytes | Canonical.validateCanonical b = .ok ()} :=
  fun _ hb _ hc h => Canonical.eq_of_accepted_continuation hb hc h

/-- Canonical byte strings can be concatenated without separators. -/
theorem canonical_uniquelyDecodable : InformationTheory.UniquelyDecodable
    {b : Bytes | Canonical.validateCanonical b = .ok ()} :=
  canonical_prefixFree.uniquelyDecodable (by decide)

/-- The blocks of a chain: their events are canonical. -/
def CanonicalBlock (events : List ProjectedEvent) : Prop :=
  ∀ e ∈ events, Canonical.validateCanonical e.canonicalCbor = .ok ()

instance decidableCanonicalBlock (events : List ProjectedEvent) :
    Decidable (CanonicalBlock events) :=
  inferInstanceAs (Decidable (∀ e ∈ events, Canonical.validateCanonical e.canonicalCbor = .ok ()))

/-- The canonical byte strings of a block in the order of the transaction ids. -/
def sortedCbor (events : List ProjectedEvent) : List Bytes :=
  (sortedEvents events).map (·.canonicalCbor)

/-- The chain of the state hashes. -/
def chain (blake2b256 : Bytes → Bytes32) : HashChain.Chain Bytes (List ProjectedEvent) Bytes32 where
  hash := blake2b256
  start := genesisInput
  next := nextInput

section Chain

variable {prior prior' : Bytes32} {events events' : List ProjectedEvent}

/-- The 33rd byte tells a block from the genesis. -/
theorem genesisInput_ne_nextInput : genesisInput ≠ nextInput prior events := by
  intro h
  have hbyte : genesisInput[32]? = some 0 := by decide +kernel
  have hhead : (nextInput prior events)[32]? =
      some (initialByte 4 (info (UInt64.ofNat events.length).toNat)) := by
    rw [nextInput, hashedArray, encodeCborUintHeader_array,
      List.getElem?_append_right prior.2.le, prior.2]
    rfl
  rw [h, hhead, Option.some.injEq, ← UInt8.toNat_inj, initialByte_toNat (by decide)
    (Nat.lt_trans (info_lt _) (by decide))] at hbyte
  have hzero : (0 : UInt8).toNat = 0 := rfl
  omega

/-- The input of a block determines the hash before it and its canonical byte strings. -/
theorem nextInput_inj (h : CanonicalBlock events) (h' : CanonicalBlock events')
    (heq : nextInput prior events = nextInput prior' events') :
    prior = prior' ∧ sortedCbor events = sortedCbor events' := by
  simp only [nextInput, hashedArray, encodeCborUintHeader_array] at heq
  obtain ⟨hprior, hrest⟩ := List.append_inj heq (prior.2.trans prior'.2.symm)
  have hread := congrArg readHead hrest
  rw [readHead_head (by decide) (UInt64.toNat_lt _),
    readHead_head (by decide) (UInt64.toNat_lt _)] at hread
  have hbody := (Prod.mk.inj (Prod.mk.inj (Option.some.inj hread)).2).2
  have hmem {es : List ProjectedEvent} (hes : CanonicalBlock es) :
      ∀ b ∈ sortedCbor es, Canonical.validateCanonical b = .ok () := by
    intro b hb
    obtain ⟨e, he, rfl⟩ := List.mem_map.mp hb
    exact hes e ((List.sortByKey_perm _ es).subset he)
  refine ⟨Subtype.ext hprior, canonical_uniquelyDecodable _ _ (hmem h) (hmem h') ?_⟩
  rw [sortedCbor, sortedCbor, ← List.flatMap_def, ← List.flatMap_def, hbody]

theorem chain_separated (blake2b256 : Bytes → Bytes32) :
    (chain blake2b256).Separated CanonicalBlock sortedCbor where
  start _ _ _ := genesisInput_ne_nextInput
  next _ _ _ _ hb hb' heq := nextInput_inj hb hb' heq

end Chain

/-- State hashes that agree after two sequences of canonical blocks were taken of the same
blocks, up to the order that sorting removes, or there is a collision among what was hashed. -/
theorem stateHash_commits (blake2b256 : Bytes → Bytes32)
    {blocks blocks' : List (List ProjectedEvent)} (h : ∀ b ∈ blocks, CanonicalBlock b)
    (h' : ∀ b ∈ blocks', CanonicalBlock b)
    (heq : stateHash blake2b256 blocks = stateHash blake2b256 blocks') :
    blocks.map sortedCbor = blocks'.map sortedCbor ∨
      HashChain.Collision blake2b256
        ((chain blake2b256).hashed blocks ++ (chain blake2b256).hashed blocks') :=
  HashChain.Chain.commits (chain_separated blake2b256) h h' heq

/-- The last bytes of a message, as an executable hash function. -/
def lastBytes (message : Bytes) : Bytes32 :=
  List.Vector.ofFn fun i => message.reverse.getD i 0

/-- Two events of different transactions. -/
def sampleEvents : List ProjectedEvent :=
  [⟨List.Vector.replicate 32 0x01, [0xA1, 0x00, 0x01]⟩,
    ⟨List.Vector.replicate 32 0x02, [0xA1, 0x00, 0x02]⟩]

theorem stateHash_commits_sample :
    [[], sampleEvents].map sortedCbor = [[], sampleEvents.reverse].map sortedCbor ∨
      HashChain.Collision lastBytes ((chain lastBytes).hashed [[], sampleEvents] ++
        (chain lastBytes).hashed [[], sampleEvents.reverse]) :=
  stateHash_commits lastBytes (by decide +kernel) (by decide +kernel) (by decide +kernel)

/-- The projections of one transaction's events can be hashed in either order. -/
def TiesCommute (events : List ProjectedEvent) : Prop :=
  ∀ e ∈ events, ∀ e' ∈ events, e.txId = e'.txId →
    e.canonicalCbor ++ e'.canonicalCbor = e'.canonicalCbor ++ e.canonicalCbor

/-- The events of a block can be listed in any order, for every hash before them, exactly
when those of one transaction commute: the stable sort leaves them as they came. -/
theorem stateHashNext_perm_iff (events : List ProjectedEvent) :
    (∀ (blake2b256 : Bytes → Bytes32) prior events', events'.Perm events →
      nextInput prior events' = nextInput prior events ∧
        stateHashNext blake2b256 prior events' = stateHashNext blake2b256 prior events) ↔
      TiesCommute events := by
  have hties : TiesCommute events ↔
      List.TiesCommute (fun e => e.txId.1) (·.canonicalCbor) events := by
    have hkey (e e' : ProjectedEvent) : e.txId = e'.txId ↔ e.txId.1 = e'.txId.1 :=
      Subtype.ext_iff
    simp only [TiesCommute, List.TiesCommute, hkey]
  rw [hties, ← List.flatMap_sortByKey_perm_iff]
  constructor
  · intro h events' hperm
    have hinput := (h lastBytes (List.Vector.replicate 32 0) events' hperm).1
    rw [nextInput, nextInput, hashedArray, hashedArray, hperm.length_eq] at hinput
    exact List.append_cancel_left (List.append_cancel_left hinput)
  · intro h blake2b256 prior events' hperm
    have hinput : nextInput prior events' = nextInput prior events := by
      rw [nextInput, nextInput, hashedArray, hashedArray, hperm.length_eq, sortedEvents,
        sortedEvents, h events' hperm]
    exact ⟨hinput, congrArg blake2b256 hinput⟩

/-- Two events of one transaction are hashed in the order in which they are listed. -/
theorem nextInput_tie : ∃ e e' : ProjectedEvent, e.txId = e'.txId ∧ CanonicalBlock [e, e'] ∧
    [e', e].Perm [e, e'] ∧
    nextInput (stateHashGenesis lastBytes) [e', e] ≠
      nextInput (stateHashGenesis lastBytes) [e, e'] ∧
    stateHashNext lastBytes (stateHashGenesis lastBytes) [e', e] ≠
      stateHashNext lastBytes (stateHashGenesis lastBytes) [e, e'] :=
  ⟨⟨List.Vector.replicate 32 0x01, [0xA1, 0x00, 0x01]⟩,
    ⟨List.Vector.replicate 32 0x01, [0xA1, 0x00, 0x02]⟩, rfl, by decide +kernel,
    List.Perm.swap _ _ _, by decide +kernel, by decide +kernel⟩

section Agreement

variable {events : List ProjectedEvent}

/-- The events are canonical items with a level of nesting to spare. -/
def NestedBlock (events : List ProjectedEvent) : Prop :=
  ∀ e ∈ events, ∃ i, Canonical.Denotes e.canonicalCbor i ∧ i.depth < Canonical.maxNestingDepth

/-- Items of the events in their order. -/
theorem exists_items (h : NestedBlock events) : ∃ items : List Item,
    List.Forall₂ (fun i e => i.encode = e.canonicalCbor) items events ∧
      ∀ i ∈ items, i.Canonical ∧ i.depth < Canonical.maxNestingDepth := by
  induction events with
  | nil => exact ⟨[], .nil, List.forall_mem_nil _⟩
  | cons e events ih =>
      obtain ⟨⟨i, hi, hdepth⟩, hevents⟩ := List.forall_mem_cons.mp h
      obtain ⟨items, hitems, hall⟩ := ih hevents
      exact ⟨i :: items, .cons hi.1 hitems, List.forall_mem_cons.mpr ⟨⟨hi.2.1, hdepth⟩, hall⟩⟩

theorem encodeList_of_items {items : List Item}
    (h : List.Forall₂ (fun i e => i.encode = e.canonicalCbor) items events) :
    Item.encodeList items = events.flatMap (·.canonicalCbor) := by
  induction h with
  | nil => rfl
  | cons hi _ ih => rw [Item.encodeList, List.flatMap_cons, hi, ih]

/-- What is hashed is one array of the events. -/
theorem hashedArray_denotes (hlength : events.length < 2 ^ 64) (h : NestedBlock events) :
    ∃ items : List Item,
      List.Forall₂ (fun i e => i.encode = e.canonicalCbor) items (sortedEvents events) ∧
        Canonical.Denotes (hashedArray events) (.array items) := by
  have hperm : (sortedEvents events).Perm events := List.sortByKey_perm _ events
  obtain ⟨items, hitems, hall⟩ := exists_items fun e he => h e (hperm.subset he)
  have hcount : items.length = events.length := hitems.length_eq.trans hperm.length_eq
  refine ⟨items, hitems, ?encode, ?canonical, ?depth⟩
  case encode =>
    rw [Item.encode, hashedArray, encodeCborUintHeader_array, encodeList_of_items hitems, hcount,
      UInt64.toNat_ofNat_of_lt' hlength]
  case canonical =>
    exact Item.canonical_array.mpr ⟨hcount ▸ hlength, fun i hi => (hall i hi).1⟩
  case depth =>
    exact Nat.lt_succ_iff.mp (Item.depth_array_lt.mpr fun i hi => (hall i hi).2)

/-- The header that is written is read back by the canonical reader, for every major type and
every value, and what is hashed of a block is accepted as the array of its events in the order
of the transaction ids. A slice has fewer than 2^64 elements. -/
theorem header_agrees_with_reader :
    (∀ majorTypeByte value, ∃ initial,
      Canonical.readU8 (encodeCborUintHeader majorTypeByte value) 0 = .ok (initial, 1) ∧
      Canonical.majorOf initial = Canonical.majorOf majorTypeByte ∧
      Canonical.argOf initial < 28 ∧
      Canonical.readArgument (encodeCborUintHeader majorTypeByte value) 1
          (Canonical.argOf initial) 0 =
        .ok (value.toNat, (encodeCborUintHeader majorTypeByte value).length)) ∧
    ∀ (prior : Bytes32) (events : List ProjectedEvent), events.length < 2 ^ 64 →
      NestedBlock events →
        nextInput prior events = prior.1 ++ hashedArray events ∧
        (∀ blake2b256 : Bytes → Bytes32,
          stateHashNext blake2b256 prior events = blake2b256 (prior.1 ++ hashedArray events)) ∧
        Canonical.validateCanonical (hashedArray events) = .ok () ∧
        ((sortedEvents events).Perm events ∧
          (sortedEvents events).Pairwise fun e e' => e.txId.1 ≤ e'.txId.1) ∧
        ∃ items : List Item,
          List.Forall₂ (fun i e => i.encode = e.canonicalCbor) items (sortedEvents events) ∧
          Canonical.Denotes (hashedArray events) (.array items) := by
  refine ⟨readArgument_encodeCborUintHeader, fun prior events hlength h => ?_⟩
  obtain ⟨items, hitems, hdenotes⟩ := hashedArray_denotes hlength h
  exact ⟨rfl, fun _ => rfl, Canonical.validateCanonical_ok_iff.mpr ⟨_, hdenotes⟩,
    ⟨List.sortByKey_perm _ events, List.sortByKey_sorted _ events⟩, items, hitems, hdenotes⟩

theorem sampleEvents_accepted :
    Canonical.validateCanonical (hashedArray sampleEvents) = .ok () := by
  have hnested : NestedBlock sampleEvents := by
    intro e he
    rcases List.mem_pair.mp he with rfl | rfl
    · exact ⟨.map [(0, .uint 1)], ⟨rfl, rfl, by decide +kernel⟩, by decide +kernel⟩
    · exact ⟨.map [(0, .uint 2)], ⟨rfl, rfl, by decide +kernel⟩, by decide +kernel⟩
  exact (header_agrees_with_reader.2 (.replicate 32 0x00) sampleEvents (by decide) hnested).2.2.1

end Agreement

end StateHash

end Komms
