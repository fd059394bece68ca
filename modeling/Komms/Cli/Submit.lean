import Komms.Collections.Largest
import Komms.Collections.StableSort
import Komms.Control.Except
import Komms.Protocol.Event

/-!
# UTXO selection

`pickUtxos` takes entries in descending order of their amounts until they pay for the
fee of as many inputs and for an output. The source computes on `u64` with wrapping
addition and multiplication, a `usize` has 64 bits, and the text is that of the error it
bails out with. Of an entry it reads the amount, and the caller of the selection the
outpoint.

`exactFee` and `total` are what the fee and the sum are without wrapping. `NoOverflow`
says that nothing wraps while the loop runs.
-/

namespace Komms.Submit

structure TransactionOutpoint where
  transactionId : Bytes32
  index : UInt32
  deriving DecidableEq

structure RpcUtxosByAddressesEntry where
  outpoint : TransactionOutpoint
  amount : UInt64
  deriving DecidableEq

/-- The mempool relay-fee floor. -/
def minRelayFeePerGram : UInt64 := 100

/-- The estimate of the compute mass of a signed transaction. -/
def predictedComputeMass (numUtxos : Nat) (numOuts payloadLen : UInt64) : UInt64 :=
  let baseTxBytes : UInt64 := 94
  let signedP2pkInputBytes : UInt64 := 118
  let p2pkOutputBytes : UInt64 := 53
  let p2pkScriptPubKeyLen : UInt64 := 35
  let massPerTxByte : UInt64 := 1
  let massPerScriptPubKeyByte : UInt64 := 10
  let gramsPerSigop : UInt64 := 1000
  let serializedSize :=
    baseTxBytes + signedP2pkInputBytes * .ofNat numUtxos + p2pkOutputBytes * numOuts + payloadLen
  let computeForSize := serializedSize * massPerTxByte
  let outputSpkMass := (2 + p2pkScriptPubKeyLen) * massPerScriptPubKeyByte * numOuts
  let scriptMass := gramsPerSigop * .ofNat numUtxos
  computeForSize + outputSpkMass + scriptMass

def requiredFee (numUtxos : Nat) (numOuts payloadLen priorityFee : UInt64) : UInt64 :=
  minRelayFeePerGram * predictedComputeMass numUtxos numOuts payloadLen + priorityFee

/-- The inputs, their sum, the fee and the value of the output. -/
abbrev Selection := List RpcUtxosByAddressesEntry × UInt64 × UInt64 × UInt64

def insufficientUtxos : String := "insufficient UTXOs for fee + output (fund the change address)"

/-- The loop of `pickUtxos` over the entries that are left. -/
def pickLoop (payloadLen priorityFee : UInt64) :
    List RpcUtxosByAddressesEntry → List RpcUtxosByAddressesEntry → UInt64 →
      Except String Selection
  | [], _, _ => .error insufficientUtxos
  | e :: v, picked, sum =>
    let sum := sum + e.amount
    let picked := picked ++ [e]
    let n := picked.length
    let fee := requiredFee n 1 payloadLen priorityFee
    if sum > fee then
      let out := sum - fee
      if out > 0 then .ok (picked, sum, fee, out) else pickLoop payloadLen priorityFee v picked sum
    else pickLoop payloadLen priorityFee v picked sum

/-- The entries by descending amount, in their order where amounts are equal. -/
def largestFirst (entries : List RpcUtxosByAddressesEntry) : List RpcUtxosByAddressesEntry :=
  entries.sortByKey fun e => OrderDual.toDual e.amount.toNat

def pickUtxos (entries : List RpcUtxosByAddressesEntry) (payloadLen priorityFee : UInt64) :
    Except String Selection :=
  pickLoop payloadLen priorityFee (largestFirst entries) [] 0

/-- The sum of the amounts, without wrapping. -/
def total (entries : List RpcUtxosByAddressesEntry) : Nat :=
  (entries.map fun e => e.amount.toNat).sum

/-- The predicted mass, without wrapping. -/
def exactMass (numUtxos numOuts payloadLen : Nat) : Nat :=
  94 + 118 * numUtxos + 53 * numOuts + payloadLen + (2 + 35) * 10 * numOuts + 1000 * numUtxos

/-- The required fee, without wrapping. -/
def exactFee (numUtxos numOuts payloadLen priorityFee : Nat) : Nat :=
  100 * exactMass numUtxos numOuts payloadLen + priorityFee

theorem predictedComputeMass_toNat (n : Nat) (outs len : UInt64) :
    (predictedComputeMass n outs len).toNat = exactMass n outs.toNat len.toNat % 2 ^ 64 := by
  simp only [predictedComputeMass, exactMass, UInt64.toNat_add, UInt64.toNat_mul,
    UInt64.toNat_ofNat', UInt64.reduceToNat, Nat.reducePow, Nat.reduceAdd, Nat.reduceMul,
    Nat.reduceMod]
  omega

theorem requiredFee_toNat (n : Nat) (outs len fee : UInt64) :
    (requiredFee n outs len fee).toNat =
      exactFee n outs.toNat len.toNat fee.toNat % 2 ^ 64 := by
  simp only [requiredFee, exactFee, minRelayFeePerGram, UInt64.toNat_add, UInt64.toNat_mul,
    predictedComputeMass_toNat, UInt64.reduceToNat, Nat.reducePow]
  omega

theorem exactFee_mono {m n outs len fee : Nat} (h : m ≤ n) :
    exactFee m outs len fee ≤ exactFee n outs len fee := by
  simp only [exactFee, exactMass]
  omega

theorem total_concat (picked : List RpcUtxosByAddressesEntry) (e : RpcUtxosByAddressesEntry) :
    total (picked ++ [e]) = total picked + e.amount.toNat := by
  simp [total]

/-- What the loop returns when it stops with these entries. -/
def selection (payloadLen priorityFee : UInt64) (picked : List RpcUtxosByAddressesEntry) :
    Selection :=
  let fee := requiredFee picked.length 1 payloadLen priorityFee
  (picked, .ofNat (total picked), fee, .ofNat (total picked) - fee)

/-- The sum is above the fee, as the loop computes them. -/
def Pays (payloadLen priorityFee : UInt64) (picked : List RpcUtxosByAddressesEntry) : Prop :=
  requiredFee picked.length 1 payloadLen priorityFee < .ofNat (total picked)

instance decidablePays (payloadLen priorityFee : UInt64)
    (picked : List RpcUtxosByAddressesEntry) : Decidable (Pays payloadLen priorityFee picked) :=
  inferInstanceAs (Decidable (_ < _))

/-- With the next `n` entries, and with fewer not, what has been picked pays. -/
structure FirstPaying (payloadLen priorityFee : UInt64)
    (picked v : List RpcUtxosByAddressesEntry) (n : Nat) : Prop where
  pos : 0 < n
  le : n ≤ v.length
  pays : Pays payloadLen priorityFee (picked ++ v.take n)
  least : ∀ m, 0 < m → m < n → ¬ Pays payloadLen priorityFee (picked ++ v.take m)

section Loop

variable {payloadLen priorityFee : UInt64} {picked v : List RpcUtxosByAddressesEntry}
variable {e : RpcUtxosByAddressesEntry} {r : Selection} {n : Nat}

/-- Fee and output of a sum above the fee balance. -/
theorem add_sub_toNat {fee sum : UInt64} (h : fee < sum) :
    fee.toNat + (sum - fee).toNat = sum.toNat := by
  have hlt := UInt64.lt_iff_toNat_lt.mp h
  rw [UInt64.toNat_sub_of_le _ _ (UInt64.le_of_lt h)]
  omega

/-- What is left of a sum above the fee is an output. -/
theorem sub_pos_of_lt {fee sum : UInt64} (h : fee < sum) : 0 < sum - fee := by
  have hbalance := add_sub_toNat h
  rw [UInt64.lt_iff_toNat_lt] at h ⊢
  have hzero : (0 : UInt64).toNat = 0 := rfl
  omega

/-- One step of the loop: it stops if the entries pay with the next one. -/
theorem pickLoop_cons : pickLoop payloadLen priorityFee (e :: v) picked (.ofNat (total picked)) =
    if Pays payloadLen priorityFee (picked ++ [e]) then
      .ok (selection payloadLen priorityFee (picked ++ [e]))
    else pickLoop payloadLen priorityFee v (picked ++ [e]) (.ofNat (total (picked ++ [e]))) := by
  have hsum : UInt64.ofNat (total picked) + e.amount = .ofNat (total (picked ++ [e])) := by
    rw [total_concat, UInt64.ofNat_add, UInt64.ofNat_toNat]
  simp only [pickLoop, hsum]
  by_cases hpays : Pays payloadLen priorityFee (picked ++ [e])
  · rw [if_pos hpays]
    exact (if_pos hpays).trans (if_pos (sub_pos_of_lt hpays))
  · rw [if_neg hpays]
    exact if_neg hpays

theorem firstPaying_one (h : Pays payloadLen priorityFee (picked ++ [e])) :
    FirstPaying payloadLen priorityFee picked (e :: v) n ↔ n = 1 := by
  constructor
  · intro hfirst
    by_contra hne
    have hpos := hfirst.pos
    exact hfirst.least 1 Nat.one_pos (by omega) h
  · intro hn
    subst hn
    exact ⟨Nat.one_pos, by simp, h, fun m hm hlt => by omega⟩

/-- If the first entry does not make it pay, the search goes on with the entry picked. -/
theorem firstPaying_succ (h : ¬ Pays payloadLen priorityFee (picked ++ [e])) :
    FirstPaying payloadLen priorityFee picked (e :: v) (n + 1) ↔
      FirstPaying payloadLen priorityFee (picked ++ [e]) v n := by
  have htake (m : Nat) : picked ++ (e :: v).take (m + 1) = picked ++ [e] ++ v.take m := by
    rw [List.take_succ_cons, List.append_assoc, List.singleton_append]
  constructor
  · intro hfirst
    obtain ⟨-, hle, hpays, hleast⟩ := hfirst
    rw [htake] at hpays
    refine ⟨Nat.pos_of_ne_zero fun hzero => ?_, Nat.le_of_succ_le_succ hle, hpays,
      fun m hm hlt => ?_⟩
    · rw [hzero, List.take_zero, List.append_nil] at hpays
      exact h hpays
    · have hnot := hleast (m + 1) (Nat.succ_pos m) (Nat.succ_lt_succ hlt)
      rwa [htake] at hnot
  · intro hfirst
    obtain ⟨hpos, hle, hpays, hleast⟩ := hfirst
    refine ⟨Nat.succ_pos n, Nat.succ_le_succ hle, by rwa [htake], fun m hm hlt => ?_⟩
    obtain ⟨m, rfl⟩ := Nat.exists_eq_succ_of_ne_zero hm.ne'
    rw [htake]
    rcases Nat.eq_zero_or_pos m with rfl | hm'
    · rwa [List.take_zero, List.append_nil]
    · exact hleast m hm' (Nat.lt_of_succ_lt_succ hlt)

/-- The loop stops at the first prefix that pays. -/
theorem pickLoop_eq_ok :
    pickLoop payloadLen priorityFee v picked (.ofNat (total picked)) = .ok r ↔
      ∃ n, FirstPaying payloadLen priorityFee picked v n ∧
        selection payloadLen priorityFee (picked ++ v.take n) = r := by
  induction v generalizing picked with
  | nil =>
      refine iff_of_false (by simp [pickLoop]) fun h => ?_
      obtain ⟨n, hfirst, -⟩ := h
      have hpos := hfirst.pos
      have hle := hfirst.le
      rw [List.length_nil] at hle
      omega
  | cons e v ih =>
      rw [pickLoop_cons]
      split_ifs with hpays
      · simp only [firstPaying_one hpays, exists_eq_left, List.take_succ_cons, List.take_zero,
          Except.ok.injEq]
      · rw [ih]
        constructor
        · intro h
          obtain ⟨n, hfirst, hr⟩ := h
          refine ⟨n + 1, (firstPaying_succ hpays).mpr hfirst, ?_⟩
          rwa [List.take_succ_cons, ← List.singleton_append, ← List.append_assoc]
        · intro h
          obtain ⟨n, hfirst, hr⟩ := h
          obtain ⟨n, rfl⟩ := Nat.exists_eq_succ_of_ne_zero hfirst.pos.ne'
          refine ⟨n, (firstPaying_succ hpays).mp hfirst, ?_⟩
          rwa [List.take_succ_cons, ← List.singleton_append, ← List.append_assoc] at hr

end Loop

section Exact

variable {entries s picked : List RpcUtxosByAddressesEntry} {payloadLen priorityFee : UInt64}
variable {sum fee out : UInt64} {r : Selection} {n : Nat}

theorem length_largestFirst : (largestFirst entries).length = entries.length :=
  (List.sortByKey_perm _ entries).length_eq

theorem largestFirst_descending : (largestFirst entries).Descending fun e => e.amount.toNat :=
  List.sortByKey_sorted (fun e : RpcUtxosByAddressesEntry => OrderDual.toDual e.amount.toNat)
    entries

theorem total_take_mono {m : Nat} (h : m ≤ n) : total (s.take m) ≤ total (s.take n) :=
  ((List.take_sublist_take_left h).map _).sum_le_sum fun _ _ => Nat.zero_le _

/-- The first prefix of the largest entries that pays. -/
def FirstLargest (entries : List RpcUtxosByAddressesEntry) (payloadLen priorityFee : UInt64)
    (n : Nat) : Prop :=
  FirstPaying payloadLen priorityFee [] (largestFirst entries) n

theorem pickUtxos_eq_ok : pickUtxos entries payloadLen priorityFee = .ok r ↔
    ∃ n, FirstLargest entries payloadLen priorityFee n ∧
      selection payloadLen priorityFee ((largestFirst entries).take n) = r :=
  pickLoop_eq_ok

/-- A selection that fails has seen every prefix, and none of them paid. -/
theorem not_pays_of_error {error : String}
    (h : pickUtxos entries payloadLen priorityFee = .error error) :
    ∀ n, 0 < n → n ≤ entries.length →
      ¬ Pays payloadLen priorityFee ((largestFirst entries).take n) := by
  intro n
  induction n using Nat.strongRecOn with
  | ind n ih =>
      intro hpos hle hpays
      have hfirst : FirstLargest entries payloadLen priorityFee n :=
        ⟨hpos, by rwa [length_largestFirst], hpays,
          fun m hm hlt => ih m hlt hm (hlt.le.trans hle)⟩
      have hok := pickUtxos_eq_ok.mpr ⟨n, hfirst, rfl⟩
      rw [h] at hok
      cases hok

/-- Neither the sum nor the fee of the first `n` entries is beyond 64 bits. -/
def Fits (entries : List RpcUtxosByAddressesEntry) (payloadLen priorityFee : UInt64) (n : Nat) :
    Prop :=
  total ((largestFirst entries).take n) < 2 ^ 64 ∧
    exactFee n 1 payloadLen.toNat priorityFee.toNat < 2 ^ 64

/-- The exact sum of the first `n` entries does not exceed their exact fee. -/
def Short (entries : List RpcUtxosByAddressesEntry) (payloadLen priorityFee : UInt64) (n : Nat) :
    Prop :=
  total ((largestFirst entries).take n) ≤ exactFee n 1 payloadLen.toNat priorityFee.toNat

/-- Nothing wraps while the loop runs: as long as all prefixes before were short, the sum and
the fee fit. -/
def NoOverflow (entries : List RpcUtxosByAddressesEntry) (payloadLen priorityFee : UInt64) :
    Prop :=
  ∀ n, 0 < n → n ≤ entries.length →
    (∀ m, 0 < m → m < n → Short entries payloadLen priorityFee m) →
    Fits entries payloadLen priorityFee n

theorem length_take_largestFirst (h : n ≤ entries.length) :
    ((largestFirst entries).take n).length = n := by
  rw [List.length_take, length_largestFirst, Nat.min_eq_left h]

theorem Fits.mono {m : Nat} (h : Fits entries payloadLen priorityFee n) (hm : m ≤ n) :
    Fits entries payloadLen priorityFee m :=
  ⟨(total_take_mono hm).trans_lt h.1, (exactFee_mono hm).trans_lt h.2⟩

theorem Fits.sum_toNat (h : Fits entries payloadLen priorityFee n) :
    (UInt64.ofNat (total ((largestFirst entries).take n))).toNat =
      total ((largestFirst entries).take n) :=
  UInt64.toNat_ofNat_of_lt' h.1

theorem Fits.fee_toNat (h : Fits entries payloadLen priorityFee n) :
    (requiredFee n 1 payloadLen priorityFee).toNat =
      exactFee n 1 payloadLen.toNat priorityFee.toNat := by
  rw [requiredFee_toNat]
  exact Nat.mod_eq_of_lt h.2

/-- Where nothing wraps the loop compares the exact numbers. -/
theorem Fits.pays_iff (h : Fits entries payloadLen priorityFee n) (hn : n ≤ entries.length) :
    Pays payloadLen priorityFee ((largestFirst entries).take n) ↔
      ¬ Short entries payloadLen priorityFee n := by
  rw [Pays, length_take_largestFirst hn, UInt64.lt_iff_toNat_lt, h.sum_toNat, h.fee_toNat, Short,
    Nat.not_le]

/-- Nothing wraps if the sum of all amounts and the fee of all inputs fit. -/
theorem noOverflow_of_total (htotal : total entries < 2 ^ 64)
    (hfee : exactFee entries.length 1 payloadLen.toNat priorityFee.toNat < 2 ^ 64) :
    NoOverflow entries payloadLen priorityFee := by
  have hall : Fits entries payloadLen priorityFee entries.length := by
    refine ⟨?_, hfee⟩
    rw [← @length_largestFirst entries, List.take_length]
    exact ((List.sortByKey_perm _ entries).map _).sum_eq.trans_lt htotal
  exact fun n _ hle _ => hall.mono hle

/-- Without overflow the prefixes that do not pay are short. -/
theorem NoOverflow.short (h : NoOverflow entries payloadLen priorityFee)
    (hnot : ∀ m, 0 < m → m < n → ¬ Pays payloadLen priorityFee ((largestFirst entries).take m))
    (hn : n ≤ entries.length + 1) :
    ∀ m, 0 < m → m < n → Short entries payloadLen priorityFee m := by
  intro m
  induction m using Nat.strongRecOn with
  | ind m ih =>
      intro hpos hlt
      have hle : m ≤ entries.length := by omega
      have hfits := h m hpos hle fun m' hpos' hlt' => ih m' hlt' hpos' (hlt'.trans hlt)
      by_contra hshort
      exact hnot m hpos hlt ((hfits.pays_iff hle).mpr hshort)

/-- What is selected without overflow fits, and no shorter prefix would have paid. -/
theorem NoOverflow.of_firstLargest (h : NoOverflow entries payloadLen priorityFee)
    (hfirst : FirstLargest entries payloadLen priorityFee n) :
    (∀ m, 0 < m → m < n → Short entries payloadLen priorityFee m) ∧
      Fits entries payloadLen priorityFee n := by
  have hle : n ≤ entries.length := by
    have hle := hfirst.le
    rwa [length_largestFirst] at hle
  have hshort := h.short (n := n) (fun m hm hlt => hfirst.least m hm hlt) (by omega)
  exact ⟨hshort, h n hfirst.pos hle hshort⟩

/-- No choice of fewer than `n` entries pays for itself if no such prefix does. -/
theorem total_le_of_short (h : ∀ m, 0 < m → m < n → Short entries payloadLen priorityFee m)
    (hs : s.Subperm entries) (hne : s ≠ []) (hlength : s.length < n) :
    total s ≤ exactFee s.length 1 payloadLen.toNat priorityFee.toNat :=
  List.weight_le_of_prefixes (fun m => exactFee m 1 payloadLen.toNat priorityFee.toNat)
    largestFirst_descending h (hs.trans (List.sortByKey_perm _ entries).symm.subperm) hne hlength

/-- What a selection consists of. -/
theorem exists_firstLargest
    (h : pickUtxos entries payloadLen priorityFee = .ok (picked, sum, fee, out)) :
    ∃ n, FirstLargest entries payloadLen priorityFee n ∧ n ≤ entries.length ∧ fee < sum ∧
      picked = (largestFirst entries).take n ∧ picked.length = n ∧
      sum = .ofNat (total ((largestFirst entries).take n)) ∧
      fee = requiredFee n 1 payloadLen priorityFee ∧ out = sum - fee := by
  obtain ⟨n, hfirst, hselection⟩ := pickUtxos_eq_ok.mp h
  have hle : n ≤ entries.length := length_largestFirst ▸ hfirst.le
  have hpays := hfirst.pays
  rw [List.nil_append, Pays, length_take_largestFirst hle] at hpays
  rw [selection, length_take_largestFirst hle] at hselection
  cases hselection
  exact ⟨n, hfirst, hle, hpays, rfl, length_take_largestFirst hle, rfl, rfl, rfl⟩

/-- The inputs are entries of largest amount, no fewer entries would have paid, and inputs,
fee and output balance. -/
structure Optimal (entries : List RpcUtxosByAddressesEntry) (payloadLen priorityFee : UInt64)
    (picked : List RpcUtxosByAddressesEntry) (sum fee out : UInt64) : Prop where
  largest : ∃ rest, (picked ++ rest).Perm entries ∧
    ∀ e ∈ picked, ∀ e' ∈ rest, e'.amount ≤ e.amount
  sum_eq : sum.toNat = total picked
  fee_eq : fee = requiredFee picked.length 1 payloadLen priorityFee
  out_pos : 0 < out
  balance : fee.toNat + out.toNat = sum.toNat
  minimal : ∀ s, s.Subperm entries → s ≠ [] → s.length < picked.length →
    total s ≤ (requiredFee s.length 1 payloadLen priorityFee).toNat

/-- A prefix of the sorted entries, and what it leaves, are the entries. -/
theorem exists_rest (n : Nat) : ∃ rest, ((largestFirst entries).take n ++ rest).Perm entries ∧
    ∀ e ∈ (largestFirst entries).take n, ∀ e' ∈ rest, e'.amount ≤ e.amount := by
  refine ⟨(largestFirst entries).drop n, ?_, fun e he e' he' => ?_⟩
  · rw [List.take_append_drop]
    exact List.sortByKey_perm _ entries
  · exact UInt64.le_iff_toNat_le.mpr (largestFirst_descending.drop_le_take n e he e' he')

/-- The selection of a run in which nothing wraps is optimal, and it fails only where no
choice of entries pays for itself. -/
theorem pickUtxos_optimal (h : NoOverflow entries payloadLen priorityFee) :
    (∀ picked sum fee out, pickUtxos entries payloadLen priorityFee = .ok (picked, sum, fee, out) →
      Optimal entries payloadLen priorityFee picked sum fee out) ∧
    (∀ error, pickUtxos entries payloadLen priorityFee = .error error →
      ∀ s, s.Subperm entries → s ≠ [] →
        total s ≤ (requiredFee s.length 1 payloadLen priorityFee).toNat) := by
  constructor
  · intro picked sum fee out hpick
    obtain ⟨n, hfirst, hle, hlt, rfl, hlength, hsum, hfee, rfl⟩ := exists_firstLargest hpick
    obtain ⟨hshort, hfits⟩ := h.of_firstLargest hfirst
    refine ⟨exists_rest n, ?_, ?_, sub_pos_of_lt hlt, add_sub_toNat hlt, ?_⟩
    · rw [hsum, hfits.sum_toNat]
    · rw [hlength, hfee]
    · intro s hs hne hfewer
      rw [hlength] at hfewer
      rw [(hfits.mono hfewer.le).fee_toNat]
      exact total_le_of_short hshort hs hne hfewer
  · intro error hpick s hs hne
    have hnot := not_pays_of_error hpick
    have hshort := h.short (n := entries.length + 1)
      (fun m hm hlt => hnot m hm (Nat.le_of_lt_succ hlt)) (Nat.le_refl _)
    have hlength := hs.length_le
    have hfits := h s.length (List.length_pos_iff.mpr hne) hlength
      fun m hm hlt => hshort m hm (by omega)
    rw [hfits.fee_toNat]
    exact total_le_of_short hshort hs hne (Nat.lt_succ_of_le hlength)

/-- Three entries, of which the larger two are needed. -/
def sampleEntries : List RpcUtxosByAddressesEntry :=
  [⟨⟨List.Vector.replicate 32 0x0A, 0⟩, 150_000⟩, ⟨⟨List.Vector.replicate 32 0x0B, 1⟩, 90_000⟩,
    ⟨⟨List.Vector.replicate 32 0x0C, 0⟩, 170_000⟩]

theorem sampleEntries_optimal :
    pickUtxos sampleEntries 100 0 = .ok
      ([⟨⟨List.Vector.replicate 32 0x0C, 0⟩, 170_000⟩,
        ⟨⟨List.Vector.replicate 32 0x0A, 0⟩, 150_000⟩], 320_000, 285_300, 34_700) ∧
    Optimal sampleEntries 100 0
      [⟨⟨List.Vector.replicate 32 0x0C, 0⟩, 170_000⟩,
        ⟨⟨List.Vector.replicate 32 0x0A, 0⟩, 150_000⟩] 320_000 285_300 34_700 := by
  have hpick : pickUtxos sampleEntries 100 0 = .ok
      ([⟨⟨List.Vector.replicate 32 0x0C, 0⟩, 170_000⟩,
        ⟨⟨List.Vector.replicate 32 0x0A, 0⟩, 150_000⟩], 320_000, 285_300, 34_700) := by
    decide +kernel
  have hfits : NoOverflow sampleEntries 100 0 :=
    noOverflow_of_total (by decide +kernel) (by decide +kernel)
  exact ⟨hpick, (pickUtxos_optimal hfits).1 _ _ _ _ hpick⟩

/-- The identities of a selection on unbounded integers. -/
structure ExactArithmetic (payloadLen priorityFee : UInt64)
    (picked : List RpcUtxosByAddressesEntry) (sum fee out : UInt64) : Prop where
  sum_eq : sum.toNat = total picked
  fee_ge : minRelayFeePerGram.toNat * exactMass picked.length 1 payloadLen.toNat +
    priorityFee.toNat ≤ fee.toNat
  balance : out.toNat + fee.toNat = sum.toNat

/-- If a prefix that fits pays, the loop never sees a longer one. -/
theorem noOverflow_of_fits (h : Fits entries payloadLen priorityFee n)
    (hfirst : FirstLargest entries payloadLen priorityFee n) :
    NoOverflow entries payloadLen priorityFee := by
  have hle : n ≤ entries.length := length_largestFirst ▸ hfirst.le
  intro m hpos _ hbefore
  rcases Nat.lt_or_ge n m with hlt | hge
  · exact absurd (hbefore n hfirst.pos hlt) ((h.pays_iff hle).mp hfirst.pays)
  · exact h.mono hge

/-- A selection is exact if and only if nothing has wrapped on the way to it. -/
theorem exactArithmetic_iff
    (h : pickUtxos entries payloadLen priorityFee = .ok (picked, sum, fee, out)) :
    ExactArithmetic payloadLen priorityFee picked sum fee out ↔
      NoOverflow entries payloadLen priorityFee := by
  obtain ⟨n, hfirst, hle, hlt, rfl, hlength, hsum, hfee, rfl⟩ := exists_firstLargest h
  constructor
  · intro hexact
    refine noOverflow_of_fits ⟨?_, ?_⟩ hfirst
    · rw [← hexact.sum_eq]
      exact UInt64.toNat_lt _
    · have hge := hexact.fee_ge
      rw [hlength] at hge
      exact Nat.lt_of_le_of_lt hge (UInt64.toNat_lt _)
  · intro hfits
    obtain ⟨-, hfits⟩ := hfits.of_firstLargest hfirst
    refine ⟨?_, ?_, ?_⟩
    · rw [hsum, hfits.sum_toNat]
    · rw [hlength, hfee, hfits.fee_toNat]
      exact Nat.le_refl _
    · rw [Nat.add_comm, add_sub_toNat hlt]

/-- A single entry of ten coins. -/
def richEntry : RpcUtxosByAddressesEntry :=
  ⟨⟨List.Vector.replicate 32 0x0A, 0⟩, 1_000_000_000⟩

theorem richEntry_exact :
    ExactArithmetic 100 5 [richEntry] 1_000_000_000 173_505 999_826_495 := by
  have hpick : pickUtxos [richEntry] 100 5 =
      .ok ([richEntry], 1_000_000_000, 173_505, 999_826_495) := by
    decide +kernel
  exact (exactArithmetic_iff hpick).mpr
    (noOverflow_of_total (by decide +kernel) (by decide +kernel))

/-- With the largest priority fee the required fee wraps to one sompi less than without any. -/
theorem richEntry_wraps : ∃ picked sum fee out,
    pickUtxos [richEntry] 100 0xFFFFFFFFFFFFFFFF = .ok (picked, sum, fee, out) ∧
      fee = 173_499 ∧ ¬ ExactArithmetic 100 0xFFFFFFFFFFFFFFFF picked sum fee out := by
  refine ⟨[richEntry], 1_000_000_000, 173_499, 999_826_501, by decide +kernel, rfl, fun h => ?_⟩
  have hge := h.fee_ge
  revert hge
  decide +kernel

end Exact

end Komms.Submit
