import Komms.Cli.Hexutil
import Komms.Cli.Rpc
import Komms.Control.InPlace
import Komms.Protocol.Signing

/-!
# Submitting a payload

`submitKommsPayload` builds a transaction with the payload of an event, signs its inputs one
after the other in place, and submits it. The consensus rules of Kaspa and secp256k1 are
parameters. `Kaspa.Documented` says that a signature hash covers neither the signature scripts
nor the mass, and `Secp256k1.Documented` that a key accepts what it has signed.
-/

namespace Komms.Submit

open Cbor Hexutil

structure TransactionInput where
  previousOutpoint : TransactionOutpoint
  signatureScript : Bytes
  sequence : UInt64
  sigOpCount : UInt8
  deriving DecidableEq

structure TransactionOutput where
  value : UInt64
  scriptPublicKey : ScriptPublicKey
  deriving DecidableEq

structure Transaction where
  version : UInt16
  inputs : List TransactionInput
  outputs : List TransactionOutput
  lockTime : UInt64
  subnetworkId : List.Vector UInt8 20
  gas : UInt64
  payload : Bytes
  mass : UInt64 := 0
  deriving DecidableEq

/-- A transaction with the entries that its inputs spend. -/
structure MutableTransaction where
  tx : Transaction
  entries : List (Option UtxoEntry)
  deriving DecidableEq

inductive ScriptClass where
  | nonStandard
  | pubKey
  | pubKeyEcdsa
  | scriptHash
  deriving DecidableEq

/-- What the client uses of the consensus crates. -/
structure Kaspa (Addr Tx : Type) where
  txVersion : UInt16
  subnetworkIdNative : List.Vector UInt8 20
  sigHashAll : UInt8
  payToAddressScript : Addr → ScriptPublicKey
  scriptClass : ScriptPublicKey → ScriptClass
  calcSchnorrSignatureHash : MutableTransaction → Nat → UInt8 → Bytes32
  calcEcdsaSignatureHash : MutableTransaction → Nat → UInt8 → Bytes32
  /-- The mass under the mempool cofactors of a network, if the contextual mass is defined. -/
  normalizedMass : NetworkType → MutableTransaction → Option UInt64
  toRpc : Transaction → Tx

/-- What the client uses of secp256k1. A Schnorr signature takes auxiliary randomness. -/
structure Secp256k1 where
  SecretKey : Type
  PublicKey : Type
  fromSlice : Bytes → Option SecretKey
  publicKey : SecretKey → PublicKey
  signSchnorr : SecretKey → Bytes32 → Bytes32 → Bytes64
  signEcdsa : SecretKey → Bytes32 → Bytes64
  verifySchnorr : PublicKey → Bytes32 → Bytes64 → Bool
  verifyEcdsa : PublicKey → Bytes32 → Bytes64 → Bool

namespace MutableTransaction

def setSignatureScript (signable : MutableTransaction) (i : Nat) (script : Bytes) :
    MutableTransaction :=
  { signable with tx := { signable.tx with
      inputs := signable.tx.inputs.modify i fun input =>
        { input with signatureScript := script } } }

def withMass (signable : MutableTransaction) (mass : UInt64) : MutableTransaction :=
  { signable with tx := { signable.tx with mass } }

end MutableTransaction

/-- What `pickUtxos` reads of an entry. -/
def entryOf (e : RpcUtxo) : RpcUtxosByAddressesEntry := ⟨e.outpoint, e.utxoEntry.amount⟩

/-- The loop of `pickUtxos` on the entries as the node sends them. -/
def pickRpcLoop (payloadLen priorityFee : UInt64) :
    List RpcUtxo → List RpcUtxo → UInt64 → Except String (List RpcUtxo × UInt64 × UInt64 × UInt64)
  | [], _, _ => .error insufficientUtxos
  | e :: v, picked, sum =>
    let sum := sum + e.utxoEntry.amount
    let picked := picked ++ [e]
    let n := picked.length
    let fee := requiredFee n 1 payloadLen priorityFee
    if sum > fee then
      let out := sum - fee
      if out > 0 then .ok (picked, sum, fee, out)
      else pickRpcLoop payloadLen priorityFee v picked sum
    else pickRpcLoop payloadLen priorityFee v picked sum

def pickRpcUtxos (entries : List RpcUtxo) (payloadLen priorityFee : UInt64) :
    Except String (List RpcUtxo × UInt64 × UInt64 × UInt64) :=
  pickRpcLoop payloadLen priorityFee
    (entries.sortByKey fun e => OrderDual.toDual e.utxoEntry.amount.toNat) [] 0

section Source

variable {Addr Tx : Type} (k : Kaspa Addr Tx) (s : Secp256k1)

/-- The outer byte of a signature script pushes the 65 bytes that follow it. -/
def pushSignature (sig : Bytes64) (sighashByte : UInt8) : Bytes := 65 :: sig.1 ++ [sighashByte]

def unsupportedScript (i : Nat) : String :=
  "unsupported UTXO script for input " ++ toString i ++ ": use a standard pay-to-pubkey " ++
    "(Schnorr) or pay-to-pubkey-ecdsa address for --change-address"

/-- The signature script of an input, `aux` being the randomness of the signatures. -/
def signatureScript (key : s.SecretKey) (aux : Nat → Bytes32) (signable : MutableTransaction)
    (i : Nat) : Except String Bytes := do
  let entry ← .okOr signable.entries[i]?.join ("missing utxo entry for input " ++ toString i)
  match k.scriptClass entry.scriptPublicKey with
  | .pubKey =>
    let sigHash := k.calcSchnorrSignatureHash signable i k.sigHashAll
    .ok (pushSignature (s.signSchnorr key (aux i) sigHash) k.sigHashAll)
  | .pubKeyEcdsa =>
    let sigHash := k.calcEcdsaSignatureHash signable i k.sigHashAll
    .ok (pushSignature (s.signEcdsa key sigHash) k.sigHashAll)
  | .scriptHash | .nonStandard => .error (unsupportedScript i)

/-- The inputs are signed in place. -/
def signInputs (key : s.SecretKey) (aux : Nat → Bytes32) (signable : MutableTransaction) :
    Except String MutableTransaction :=
  InPlace.fill MutableTransaction.setSignatureScript (signatureScript k s key aux)
    (List.range signable.tx.inputs.length) signable

def unsignedTransaction (changeAddress : Addr) (payload : Bytes) (picked : List RpcUtxo)
    (outputValue : UInt64) : MutableTransaction where
  tx :=
    { version := k.txVersion
      inputs := picked.map fun e => ⟨e.outpoint, [], 0, 1⟩
      outputs := [⟨outputValue, k.payToAddressScript changeAddress⟩]
      lockTime := 0
      subnetworkId := k.subnetworkIdNative
      gas := 0
      payload }
  entries := picked.map fun e => some e.utxoEntry

/-- The transaction that is submitted, once the node has listed the entries. -/
def buildTransaction (key : s.SecretKey) (aux : Nat → Bytes32) (changeAddress : Addr)
    (payload : Bytes) (priorityFee : UInt64) (networkType : NetworkType) (entries : List RpcUtxo) :
    Except String MutableTransaction := do
  let (picked, _, _, outputValue) ←
    (pickRpcUtxos entries (.ofNat payload.length) priorityFee).mapError fun _ => "UTXO selection"
  let signed ← signInputs k s key aux
    (unsignedTransaction k changeAddress payload picked outputValue)
  let mass ← .okOr (k.normalizedMass networkType signed) "contextual mass"
  .ok (signed.withMass mass)

variable (c : Ciborium) (hex : FasterHex)

/-- The payload and the key, before the node is asked anything. -/
def payloadAndKey (ev : ParsedKommsEvent) (privateKeySechex : RString) :
    Except String (Bytes × s.SecretKey) := do
  let payload ← (encodeKommsPayload c ev).mapError fun _ => "encode KOMMS payload"
  let sk ← parseHexBytes hex privateKeySechex
  .failIf (sk.1.length ≠ 32) "private key must be 32 bytes (64 hex chars)"
  let key ← .okOr (s.fromSlice sk.1) "invalid secp256k1 key"
  .ok (payload, key)

def submitKommsPayload (aux : Nat → Bytes32) (ev : ParsedKommsEvent) (changeAddress : Addr)
    (privateKeySechex : RString) (priorityFee : UInt64) (networkType : NetworkType) :
    Client Addr Tx Bytes32 :=
  .lift (payloadAndKey s c hex ev privateKeySechex) fun (payload, key) =>
    .ask (.getUtxosByAddresses [changeAddress]) fun
      | .error _ => .done (.error "get_utxos_by_addresses")
      | .ok entries => .lift (buildTransaction k s key aux changeAddress payload priorityFee
          networkType entries) fun signed =>
        .ask (.submitTransaction (k.toRpc signed.tx) false) fun
          | .error _ => .done (.error "submit_transaction")
          | .ok tid => .done (.ok tid)

end Source

section Selection

variable {payloadLen priorityFee : UInt64} {picked v : List RpcUtxo} {sum : UInt64}
variable {r : List RpcUtxo × UInt64 × UInt64 × UInt64}

/-- A selection of what `pickUtxos` reads. -/
def selectionOf (r : List RpcUtxo × UInt64 × UInt64 × UInt64) : Selection :=
  (r.1.map entryOf, r.2)

/-- The loop picks the entries that `pickUtxos` picks. -/
theorem map_pickRpcLoop : (pickRpcLoop payloadLen priorityFee v picked sum).map selectionOf =
    pickLoop payloadLen priorityFee (v.map entryOf) (picked.map entryOf) sum := by
  induction v generalizing picked sum with
  | nil => rfl
  | cons e v ih =>
      have hpicked : picked.map entryOf ++ [entryOf e] = (picked ++ [e]).map entryOf := by simp
      have hamount : (entryOf e).amount = e.utxoEntry.amount := rfl
      simp only [pickRpcLoop, pickLoop, List.map_cons, hpicked, List.length_map, hamount]
      split_ifs
      · rfl
      · exact ih
      · exact ih

/-- They come next in the list. -/
theorem pickRpcLoop_prefix (h : pickRpcLoop payloadLen priorityFee v picked sum = .ok r) :
    ∃ n, r.1 = picked ++ v.take n := by
  induction v generalizing picked sum with
  | nil => cases h
  | cons e v ih =>
      have hnext {sum : UInt64} (h : pickRpcLoop payloadLen priorityFee v (picked ++ [e]) sum =
          .ok r) : ∃ n, r.1 = picked ++ (e :: v).take n := by
        obtain ⟨n, hn⟩ := ih h
        exact ⟨n + 1, by rw [hn, List.append_assoc, List.singleton_append, List.take_succ_cons]⟩
      simp only [pickRpcLoop] at h
      split_ifs at h
      · obtain rfl := Except.ok.inj h
        exact ⟨1, by rw [List.take_succ_cons, List.take_zero]⟩
      · exact hnext h
      · exact hnext h

theorem map_pickRpcUtxos (entries : List RpcUtxo) :
    (pickRpcUtxos entries payloadLen priorityFee).map selectionOf =
      pickUtxos (entries.map entryOf) payloadLen priorityFee := by
  have hsort : (entries.sortByKey fun e => OrderDual.toDual e.utxoEntry.amount.toNat).map entryOf =
      largestFirst (entries.map entryOf) :=
    List.map_insertionSort _ _ entryOf entries fun _ _ _ _ => Iff.rfl
  rw [pickRpcUtxos, map_pickRpcLoop, hsort]
  rfl

theorem subperm_of_pickRpcUtxos {entries : List RpcUtxo}
    (h : pickRpcUtxos entries payloadLen priorityFee = .ok r) : r.1.Subperm entries := by
  obtain ⟨n, hn⟩ := pickRpcLoop_prefix h
  rw [hn, List.nil_append]
  exact (List.take_sublist _ _).subperm.trans (List.sortByKey_perm _ entries).subperm

end Selection

section Signing

variable {Addr Tx : Type} {k : Kaspa Addr Tx} {s : Secp256k1} {key : s.SecretKey}
variable {aux : Nat → Bytes32} {signable signed : MutableTransaction} {i : Nat}

/-- What a signature hash covers: all but the signature scripts and the mass. -/
def MutableTransaction.covered (signable : MutableTransaction) : MutableTransaction :=
  { signable with tx := { signable.tx with
      inputs := signable.tx.inputs.map fun input => { input with signatureScript := [] }
      mass := 0 } }

/-- What the consensus rules promise of signature hashes. -/
structure Kaspa.Documented (k : Kaspa Addr Tx) : Prop where
  schnorrHash : ∀ m m' i t, m.covered = m'.covered →
    k.calcSchnorrSignatureHash m i t = k.calcSchnorrSignatureHash m' i t
  ecdsaHash : ∀ m m' i t, m.covered = m'.covered →
    k.calcEcdsaSignatureHash m i t = k.calcEcdsaSignatureHash m' i t

/-- What secp256k1 promises of signatures. -/
structure Secp256k1.Documented (s : Secp256k1) : Prop where
  schnorr : ∀ key aux message,
    s.verifySchnorr (s.publicKey key) message (s.signSchnorr key aux message) = true
  ecdsa : ∀ key message, s.verifyEcdsa (s.publicKey key) message (s.signEcdsa key message) = true

/-- A signature script satisfies the script of the entry that an input spends: it pushes a
signature of the transaction. -/
inductive Unlocks (k : Kaspa Addr Tx) (s : Secp256k1) (pk : s.PublicKey)
    (signed : MutableTransaction) (i : Nat) (spk : ScriptPublicKey) : Bytes → Prop where
  | schnorr {sig : Bytes64} (hclass : k.scriptClass spk = .pubKey)
      (hsig : s.verifySchnorr pk (k.calcSchnorrSignatureHash signed i k.sigHashAll) sig = true) :
      Unlocks k s pk signed i spk (pushSignature sig k.sigHashAll)
  | ecdsa {sig : Bytes64} (hclass : k.scriptClass spk = .pubKeyEcdsa)
      (hsig : s.verifyEcdsa pk (k.calcEcdsaSignatureHash signed i k.sigHashAll) sig = true) :
      Unlocks k s pk signed i spk (pushSignature sig k.sigHashAll)

/-- The classes of scripts that can be signed for. -/
def Supported (k : Kaspa Addr Tx) (e : UtxoEntry) : Prop :=
  k.scriptClass e.scriptPublicKey = .pubKey ∨ k.scriptClass e.scriptPublicKey = .pubKeyEcdsa

@[simp] theorem covered_setSignatureScript (i : Nat) (script : Bytes) :
    (signable.setSignatureScript i script).covered = signable.covered := by
  have hmap (inputs : List TransactionInput) :
      (inputs.modify i fun input => { input with signatureScript := script }).map
          (fun input => { input with signatureScript := [] }) =
        inputs.map fun input => { input with signatureScript := [] } := by
    induction inputs generalizing i with
    | nil => rw [List.modify_nil]
    | cons input inputs ih =>
        cases i with
        | zero => rfl
        | succ i => rw [List.modify_succ_cons, List.map_cons, List.map_cons, ih]
  simp only [MutableTransaction.covered, MutableTransaction.setSignatureScript, hmap]

@[simp] theorem mass_setSignatureScript (i : Nat) (script : Bytes) :
    (signable.setSignatureScript i script).tx.mass = signable.tx.mass := rfl

@[simp] theorem covered_withMass (mass : UInt64) :
    (signable.withMass mass).covered = signable.covered := rfl

/-- No signature depends on the scripts that have been written before it. -/
theorem signatureScript_unread (hk : k.Documented) :
    InPlace.Unread MutableTransaction.setSignatureScript (signatureScript k s key aux) := by
  intro signable i script j
  have hcovered := @covered_setSignatureScript signable i script
  have hentries : (signable.setSignatureScript i script).entries = signable.entries := rfl
  simp only [signatureScript, hentries, hk.schnorrHash _ _ _ _ hcovered,
    hk.ecdsaHash _ _ _ _ hcovered]

/-- What is signed unlocks the entry. -/
theorem unlocks_of_signatureScript (hs : s.Documented) {e : UtxoEntry} {script : Bytes}
    (he : signable.entries[i]? = some (some e))
    (h : signatureScript k s key aux signable i = .ok script) :
    Unlocks k s (s.publicKey key) signable i e.scriptPublicKey script := by
  rw [signatureScript, he] at h
  simp only [Option.join_some, Except.okOr, Except.ok_bind] at h
  split at h
  case h_1 hclass =>
    obtain rfl := Except.ok.inj h
    exact .schnorr hclass (hs.schnorr key (aux i) _)
  case h_2 hclass =>
    obtain rfl := Except.ok.inj h
    exact .ecdsa hclass (hs.ecdsa key _)
  case h_3 => cases h
  case h_4 => cases h

/-- A script that unlocks an entry does so in every transaction that is covered alike. -/
theorem Unlocks.of_covered (hk : k.Documented) {pk : s.PublicKey} {spk : ScriptPublicKey}
    {script : Bytes} (h : Unlocks k s pk signable i spk script)
    (hcovered : signed.covered = signable.covered) : Unlocks k s pk signed i spk script := by
  cases h with
  | schnorr hclass hsig => exact .schnorr hclass (hk.schnorrHash _ _ _ _ hcovered ▸ hsig)
  | ecdsa hclass hsig => exact .ecdsa hclass (hk.ecdsaHash _ _ _ _ hcovered ▸ hsig)

/-- There is a signature script for an entry exactly when its script is supported. -/
theorem signatureScript_supported {e : UtxoEntry} (he : signable.entries[i]? = some (some e)) :
    (∃ script, signatureScript k s key aux signable i = .ok script) ↔ Supported k e := by
  rw [signatureScript, he, Supported]
  simp only [Option.join_some, Except.okOr, Except.ok_bind]
  cases k.scriptClass e.scriptPublicKey <;> simp

theorem signatureScript_unsupported {e : UtxoEntry} (he : signable.entries[i]? = some (some e))
    (h : ¬ Supported k e) :
    signatureScript k s key aux signable i = .error (unsupportedScript i) := by
  rw [Supported] at h
  rw [signatureScript, he]
  simp only [Option.join_some, Except.okOr, Except.ok_bind]
  cases hclass : k.scriptClass e.scriptPublicKey <;> simp_all

theorem inputs_setAll (is : List Nat) (scripts : List Bytes) :
    (InPlace.setAll MutableTransaction.setSignatureScript is scripts signable).tx.inputs =
      InPlace.setAll (fun inputs i script =>
        inputs.modify i fun input => { input with signatureScript := script }) is scripts
        signable.tx.inputs := by
  rw [InPlace.setAll, InPlace.setAll]
  induction is.zip scripts generalizing signable with
  | nil => rfl
  | cons x l ih => rw [List.foldl_cons, List.foldl_cons, ih]; rfl

theorem inputs_signed (scripts : List Bytes) (h : scripts.length = signable.tx.inputs.length) :
    (InPlace.setAll MutableTransaction.setSignatureScript (List.range signable.tx.inputs.length)
        scripts signable).tx.inputs =
      List.zipWith (fun input script => { input with signatureScript := script })
        signable.tx.inputs scripts := by
  rw [inputs_setAll]
  exact InPlace.setAll_modify (fun script input => { input with signatureScript := script })
    signable.tx.inputs scripts h

/-- All inputs are signed for in the transaction that results. -/
theorem signInputs_unlocks (hk : k.Documented) (hs : s.Documented)
    (h : signInputs k s key aux signable = .ok signed) : signed.covered = signable.covered ∧
      signed.tx.mass = signable.tx.mass ∧
      ∀ i input e, signable.tx.inputs[i]? = some input → signable.entries[i]? = some (some e) →
        ∃ input', signed.tx.inputs[i]? = some input' ∧
          input'.previousOutpoint = input.previousOutpoint ∧
          Unlocks k s (s.publicKey key) signed i e.scriptPublicKey input'.signatureScript := by
  obtain ⟨scripts, hscripts, rfl⟩ := (InPlace.fill_eq_ok (signatureScript_unread hk)).mp h
  have hlength : scripts.length = signable.tx.inputs.length := by
    rw [← hscripts.length_eq, List.length_range]
  have hcovered := InPlace.setAll_invariant MutableTransaction.covered
    (fun _ => covered_setSignatureScript) (List.range signable.tx.inputs.length) scripts signable
  have hmass := InPlace.setAll_invariant (fun m : MutableTransaction => m.tx.mass)
    (fun _ => mass_setSignatureScript) (List.range signable.tx.inputs.length) scripts signable
  refine ⟨hcovered, hmass, ?_⟩
  intro i input e hinput he
  have hi : i < scripts.length := hlength ▸ (List.getElem?_eq_some_iff.mp hinput).1
  have hscript : signatureScript k s key aux signable i = .ok scripts[i] := by
    have hget := hscripts.get (by rwa [List.length_range, ← hlength]) hi
    simpa using hget
  refine ⟨{ input with signatureScript := scripts[i] }, ?_, rfl,
    (unlocks_of_signatureScript hs he hscript).of_covered hk hcovered⟩
  rw [inputs_signed scripts hlength, List.getElem?_zipWith, hinput, List.getElem?_eq_getElem hi]

end Signing

section Sample

/-- An instance with the standard scripts, whose hashes are the first bytes of the payload. -/
def Kaspa.reference : Kaspa Unit Transaction where
  txVersion := 0
  subnetworkIdNative := List.Vector.replicate 20 0
  sigHashAll := 1
  payToAddressScript _ := ⟨0, 0x20 :: List.replicate 32 7 ++ [0xAC]⟩
  scriptClass spk :=
    match spk.script.length, spk.script.getLast? with
    | 34, some 0xAC => .pubKey
    | 35, some 0xAB => .pubKeyEcdsa
    | 35, some 0x87 => .scriptHash
    | _, _ => .nonStandard
  calcSchnorrSignatureHash m i t := .ofFn fun j => (.ofNat i :: t :: m.covered.tx.payload).getD j 0
  calcEcdsaSignatureHash m i t := .ofFn fun j => (t :: .ofNat i :: m.covered.tx.payload).getD j 0
  normalizedMass _ m := some (.ofNat m.tx.inputs.length)
  toRpc tx := tx

theorem Kaspa.reference_documented : Kaspa.reference.Documented where
  schnorrHash m m' i t h := by simp only [Kaspa.reference, h]
  ecdsaHash m m' i t h := by simp only [Kaspa.reference, h]

/-- An instance whose signatures are tags. -/
def Secp256k1.reference : Secp256k1 where
  SecretKey := Bytes32
  PublicKey := Bytes32
  fromSlice b := if h : b.length = 32 then some ⟨b, h⟩ else none
  publicKey key := key
  signSchnorr key _ message := tag key message.1
  signEcdsa key message := tag key message.1
  verifySchnorr key message sig := sig.1 = (tag key message.1).1
  verifyEcdsa key message sig := sig.1 = (tag key message.1).1

theorem Secp256k1.reference_documented : Secp256k1.reference.Documented where
  schnorr _ _ _ := decide_eq_true rfl
  ecdsa _ _ := decide_eq_true rfl

def sampleServer : ParsedKommsEvent where
  v := 0
  t := .serverCreate
  sid := some (List.Vector.replicate 32 7)

def samplePrivateKey : RString :=
  ⟨"0101010101010101010101010101010101010101010101010101010101010101", by decide +kernel⟩

/-- An entry that pays to a public key. -/
def sampleUtxo (amount : UInt64) : RpcUtxo :=
  ⟨⟨List.Vector.replicate 32 0x0A, 0⟩,
    ⟨amount, ⟨0, 0x20 :: List.replicate 32 7 ++ [0xAC]⟩, 0, false⟩⟩

/-- An entry that pays to a script hash. -/
def sampleScriptHash : RpcUtxo :=
  ⟨⟨List.Vector.replicate 32 0x0B, 1⟩,
    ⟨140_000, ⟨0, 0xAA :: 0x20 :: List.replicate 32 7 ++ [0x87]⟩, 0, false⟩⟩

def samplePayload : Bytes :=
  kommsPayloadPrefix ++ [0xA4, 0, 0, 1, 0, 2, 0x58, 0x20] ++ List.replicate 32 7 ++ [8, 0xF4]

def sampleKey : Secp256k1.reference.SecretKey := (List.Vector.replicate 32 1 : Bytes32)

instance : DecidableEq Secp256k1.reference.SecretKey := inferInstanceAs (DecidableEq Bytes32)

theorem sampleServer_ready : payloadAndKey .reference .reference .reference sampleServer
    samplePrivateKey = .ok (samplePayload, sampleKey) := by
  decide +kernel

/-- Auxiliary randomness that is not random. -/
def sampleAux (_ : Nat) : Bytes32 := List.Vector.replicate 32 0

end Sample

section Submission

variable {Addr Tx : Type} {k : Kaspa Addr Tx} {s : Secp256k1} {c : Ciborium} {hex : FasterHex}
variable {key : s.SecretKey} {aux : Nat → Bytes32} {ev : ParsedKommsEvent} {changeAddress : Addr}
variable {privateKeySechex : RString} {priorityFee : UInt64} {networkType : NetworkType}
variable {payload : Bytes} {entries picked : List RpcUtxo} {out : UInt64}
variable {final : MutableTransaction} {trace : Trace Addr Tx} {r : Except String Bytes32}

/-- What can happen after the payload and the key are in order. -/
inductive SubmitRun (k : Kaspa Addr Tx) (s : Secp256k1) (key : s.SecretKey) (aux : Nat → Bytes32)
    (changeAddress : Addr) (payload : Bytes) (priorityFee : UInt64) (networkType : NetworkType) :
    Trace Addr Tx → Except String Bytes32 → Prop where
  | unlisted (e : String) : SubmitRun k s key aux changeAddress payload priorityFee networkType
      [⟨.getUtxosByAddresses [changeAddress], .error e⟩] (.error "get_utxos_by_addresses")
  | unbuilt {entries : List RpcUtxo} {e : String}
      (hbuild : buildTransaction k s key aux changeAddress payload priorityFee networkType entries =
        .error e) :
      SubmitRun k s key aux changeAddress payload priorityFee networkType
        [⟨.getUtxosByAddresses [changeAddress], .ok entries⟩] (.error e)
  | submitted {entries : List RpcUtxo} {final : MutableTransaction}
      (hbuild : buildTransaction k s key aux changeAddress payload priorityFee networkType entries =
        .ok final) (reply : Except String Bytes32) :
      SubmitRun k s key aux changeAddress payload priorityFee networkType
        [⟨.getUtxosByAddresses [changeAddress], .ok entries⟩,
          ⟨.submitTransaction (k.toRpc final.tx) false, reply⟩]
        (reply.mapError fun _ => "submit_transaction")

/-- The node is asked for the entries of the change address, and then at most once to submit. -/
theorem submit_runs (hrun : (submitKommsPayload k s c hex aux ev changeAddress privateKeySechex
      priorityFee networkType).Runs trace r) :
    (∃ e, payloadAndKey s c hex ev privateKeySechex = .error e ∧ trace = [] ∧ r = .error e) ∨
      ∃ payload key, payloadAndKey s c hex ev privateKeySechex = .ok (payload, key) ∧
        SubmitRun k s key aux changeAddress payload priorityFee networkType trace r := by
  rw [submitKommsPayload] at hrun
  cases hpayload : payloadAndKey s c hex ev privateKeySechex with
  | error e =>
      rw [hpayload] at hrun
      obtain ⟨rfl, rfl⟩ := Program.runs_done.mp hrun
      exact .inl ⟨e, rfl, rfl, rfl⟩
  | ok x =>
      obtain ⟨payload, key⟩ := x
      rw [hpayload] at hrun
      obtain ⟨reply, tail, hnext, rfl⟩ := Program.runs_ask.mp hrun
      refine .inr ⟨payload, key, rfl, ?_⟩
      cases reply with
      | error e =>
          obtain ⟨rfl, rfl⟩ := Program.runs_done.mp hnext
          exact .unlisted e
      | ok entries =>
          dsimp only at hnext
          cases hbuild : buildTransaction k s key aux changeAddress payload priorityFee networkType
              entries with
          | error e =>
              rw [hbuild] at hnext
              obtain ⟨rfl, rfl⟩ := Program.runs_done.mp hnext
              exact .unbuilt hbuild
          | ok signed =>
              rw [hbuild] at hnext
              obtain ⟨reply, tail, hdone, rfl⟩ := Program.runs_ask.mp hnext
              cases reply <;> obtain ⟨rfl, rfl⟩ := Program.runs_done.mp hdone <;>
                exact .submitted hbuild _

/-- A run that submits what is built. -/
theorem runs_of_build (hpayload : payloadAndKey s c hex ev privateKeySechex = .ok (payload, key))
    (hbuild : buildTransaction k s key aux changeAddress payload priorityFee networkType entries =
      .ok final) (tid : Bytes32) :
    (submitKommsPayload k s c hex aux ev changeAddress privateKeySechex priorityFee
        networkType).Runs
      [⟨.getUtxosByAddresses [changeAddress], .ok entries⟩,
        ⟨.submitTransaction (k.toRpc final.tx) false, .ok tid⟩] (.ok tid) := by
  rw [submitKommsPayload, hpayload]
  refine .ask ?_
  dsimp only
  rw [hbuild]
  exact .ask (.done _)

/-- A run that fails when the entries are listed. -/
theorem runs_of_build_error {e : String}
    (hpayload : payloadAndKey s c hex ev privateKeySechex = .ok (payload, key))
    (hbuild : buildTransaction k s key aux changeAddress payload priorityFee networkType entries =
      .error e) :
    (submitKommsPayload k s c hex aux ev changeAddress privateKeySechex priorityFee
        networkType).Runs
      [⟨.getUtxosByAddresses [changeAddress], .ok entries⟩] (.error e) := by
  rw [submitKommsPayload, hpayload]
  refine .ask ?_
  dsimp only
  rw [hbuild]
  exact .done _

/-- A transaction that carries the payload of an event, and spends entries of a node to the
change address. -/
structure Submitted (k : Kaspa Addr Tx) (s : Secp256k1) (c : Ciborium) (key : s.SecretKey)
    (ev : ParsedKommsEvent) (changeAddress : Addr) (priorityFee : UInt64)
    (networkType : NetworkType) (entries picked : List RpcUtxo) (out : UInt64)
    (final : MutableTransaction) : Prop where
  payload : encodeKommsPayload c ev = .ok final.tx.payload
  form : final.covered = unsignedTransaction k changeAddress final.tx.payload picked out
  unlocks : ∀ i e, picked[i]? = some e → ∃ input, final.tx.inputs[i]? = some input ∧
    input.previousOutpoint = e.outpoint ∧
    Unlocks k s (s.publicKey key) final i e.utxoEntry.scriptPublicKey input.signatureScript
  listed : picked.Subperm entries
  nonempty : picked ≠ []
  positive : 0 < out
  balance : NoOverflow (entries.map entryOf) (.ofNat final.tx.payload.length) priorityFee →
    total (picked.map entryOf) = out.toNat + exactFee picked.length 1
      (UInt64.ofNat final.tx.payload.length).toNat priorityFee.toNat
  mass : k.normalizedMass networkType (final.withMass 0) = some final.tx.mass

theorem covered_unsigned : (unsignedTransaction k changeAddress payload picked out).covered =
    unsignedTransaction k changeAddress payload picked out := by
  simp [MutableTransaction.covered, unsignedTransaction]

/-- What a selection spends. -/
theorem spends_of_pickRpcUtxos {payloadLen sum fee : UInt64}
    (h : pickRpcUtxos entries payloadLen priorityFee = .ok (picked, sum, fee, out)) :
    picked.Subperm entries ∧ picked ≠ [] ∧ 0 < out ∧
      (NoOverflow (entries.map entryOf) payloadLen priorityFee →
        total (picked.map entryOf) =
          out.toNat + exactFee picked.length 1 payloadLen.toNat priorityFee.toNat) := by
  have hpick : pickUtxos (entries.map entryOf) payloadLen priorityFee =
      .ok (picked.map entryOf, sum, fee, out) := by
    rw [← map_pickRpcUtxos, h]
    rfl
  obtain ⟨n, hfirst, hle, hlt, htake, hlength, rfl, rfl, rfl⟩ := exists_firstLargest hpick
  rw [List.length_map] at hlength
  refine ⟨subperm_of_pickRpcUtxos h, ?_, sub_pos_of_lt hlt, fun hfits => ?_⟩
  · rintro rfl
    exact absurd hfirst.pos (by rw [← hlength]; exact Nat.lt_irrefl 0)
  · obtain ⟨-, hfits⟩ := hfits.of_firstLargest hfirst
    have hbalance := add_sub_toNat hlt
    rw [hfits.sum_toNat, hfits.fee_toNat, ← htake] at hbalance
    rw [hlength, ← hbalance, Nat.add_comm, htake]

/-- What is built spends entries of the node for the payload. -/
theorem submitted_of_build (hk : k.Documented) (hs : s.Documented)
    (hpayload : encodeKommsPayload c ev = .ok payload)
    (h : buildTransaction k s key aux changeAddress payload priorityFee networkType entries =
      .ok final) :
    ∃ picked out, Submitted k s c key ev changeAddress priorityFee networkType entries picked out
      final := by
  obtain ⟨⟨picked, sum, fee, out⟩, hpick, hrest⟩ := Except.bind_eq_ok.mp h
  obtain ⟨signed, hsign, hrest⟩ := Except.bind_eq_ok.mp hrest
  obtain ⟨mass, hmass, hfinal⟩ := Except.bind_eq_ok.mp hrest
  obtain rfl := Except.ok.inj hfinal
  obtain ⟨hlisted, hnonempty, hpositive, hbalance⟩ :=
    spends_of_pickRpcUtxos (Except.mapError_eq_ok.mp hpick)
  obtain ⟨hcovered, hzero, hunlocks⟩ := signInputs_unlocks hk hs hsign
  rw [covered_unsigned] at hcovered
  have htx : signed.tx.payload = payload := congrArg (fun m => m.tx.payload) hcovered
  have hsigned : (signed.withMass mass).tx.payload = payload := htx
  refine ⟨picked, out, ?_⟩
  constructor
  case payload => rw [hsigned, hpayload]
  case form => rw [hsigned, covered_withMass, hcovered]
  case unlocks =>
    intro i e he
    obtain ⟨input, hinput, houtpoint, hscript⟩ := hunlocks i ⟨e.outpoint, [], 0, 1⟩ e.utxoEntry
      (by simp [unsignedTransaction, he]) (by simp [unsignedTransaction, he])
    exact ⟨input, hinput, houtpoint, hscript.of_covered hk (covered_withMass mass)⟩
  case listed => exact hlisted
  case nonempty => exact hnonempty
  case positive => exact hpositive
  case balance => rwa [hsigned]
  case mass =>
    have hwithMass : (signed.withMass mass).withMass 0 = signed := by
      rw [MutableTransaction.withMass, MutableTransaction.withMass]
      exact congrArg (fun mass => { signed with tx := { signed.tx with mass } }) hzero.symm
    rw [hwithMass]
    exact Except.okOr_eq_ok.mp hmass

/-- The key is the one that the text of the private key names. -/
theorem payloadAndKey_eq_ok : payloadAndKey s c hex ev privateKeySechex = .ok (payload, key) ↔
    encodeKommsPayload c ev = .ok payload ∧ ∃ sk, parseHexBytes hex privateKeySechex = .ok sk ∧
      sk.1.length = 32 ∧ s.fromSlice sk.1 = some key := by
  constructor
  · intro h
    obtain ⟨payload', hencode, h⟩ := Except.bind_eq_ok.mp h
    obtain ⟨sk, hsk, h⟩ := Except.bind_eq_ok.mp h
    obtain ⟨hlength, h⟩ := Except.failIf_bind_eq_ok.mp h
    obtain ⟨key', hkey, h⟩ := Except.bind_eq_ok.mp h
    obtain ⟨rfl, rfl⟩ := Prod.mk.inj (Except.ok.inj h)
    exact ⟨Except.mapError_eq_ok.mp hencode, sk, hsk, not_not.mp hlength,
      Except.okOr_eq_ok.mp hkey⟩
  · rintro ⟨hencode, sk, hsk, hlength, hkey⟩
    refine Except.bind_eq_ok.mpr ⟨payload, Except.mapError_eq_ok.mpr hencode, ?_⟩
    refine Except.bind_eq_ok.mpr ⟨sk, hsk, ?_⟩
    refine Except.failIf_bind_eq_ok.mpr ⟨not_not.mpr hlength, ?_⟩
    exact Except.bind_eq_ok.mpr ⟨key, Except.okOr_eq_ok.mpr hkey, rfl⟩

theorem encode_of_payloadAndKey
    (h : payloadAndKey s c hex ev privateKeySechex = .ok (payload, key)) :
    encodeKommsPayload c ev = .ok payload :=
  (payloadAndKey_eq_ok.mp h).1

/-- What is built carries the payload. -/
theorem payload_of_build
    (h : buildTransaction k s key aux changeAddress payload priorityFee networkType entries =
      .ok final) : final.tx.payload = payload := by
  obtain ⟨⟨picked, sum, fee, out⟩, -, hrest⟩ := Except.bind_eq_ok.mp h
  obtain ⟨signed, hsign, hrest⟩ := Except.bind_eq_ok.mp hrest
  obtain ⟨mass, -, hfinal⟩ := Except.bind_eq_ok.mp hrest
  obtain rfl := Except.ok.inj hfinal
  have hunchanged (m : MutableTransaction) (i : Nat) (script : Bytes) :
      (m.setSignatureScript i script).tx.payload = m.tx.payload := rfl
  exact InPlace.fill_invariant (fun m : MutableTransaction => m.tx.payload) hunchanged hsign

/-- Whatever the node does, it is asked to submit at most once, and last. The transaction then
carries the payload of the event, spends entries that the node has listed, returns what they are
worth without the fee, and its inputs are signed for as a whole with the private key that was
given. -/
theorem submit_sound (k : Kaspa Addr Tx) (s : Secp256k1) (c : Ciborium) (hex : FasterHex)
    (hk : k.Documented) (hs : s.Documented) (aux : Nat → Bytes32) (ev : ParsedKommsEvent)
    (changeAddress : Addr) (privateKeySechex : RString) (priorityFee : UInt64)
    (networkType : NetworkType) (trace : Trace Addr Tx) (r : Except String Bytes32)
    (hrun : (submitKommsPayload k s c hex aux ev changeAddress privateKeySechex priorityFee
      networkType).Runs trace r) (tx : Tx) (orphan : Bool) (reply : Except String Bytes32)
    (hsubmit : ⟨.submitTransaction tx orphan, reply⟩ ∈ trace) :
    ∃ key entries picked out final,
      trace = [⟨.getUtxosByAddresses [changeAddress], .ok entries⟩,
        ⟨.submitTransaction tx orphan, reply⟩] ∧
      r = reply.mapError (fun _ => "submit_transaction") ∧ orphan = false ∧
      tx = k.toRpc final.tx ∧
      payloadAndKey s c hex ev privateKeySechex = .ok (final.tx.payload, key) ∧
      (∃ sk, parseHexBytes hex privateKeySechex = .ok sk ∧ sk.1.length = 32 ∧
        s.fromSlice sk.1 = some key) ∧
      Submitted k s c key ev changeAddress priorityFee networkType entries picked out final := by
  rcases submit_runs hrun with ⟨e, -, rfl, -⟩ | ⟨payload, key, hpayload, hcases⟩
  · cases hsubmit
  · cases hcases with
    | unlisted e => simp at hsubmit
    | unbuilt hbuild => simp at hsubmit
    | submitted hbuild reply' =>
        simp only [List.mem_cons, List.not_mem_nil, or_false, Sigma.mk.injEq, reduceCtorEq,
          false_and, false_or, Request.submitTransaction.injEq] at hsubmit
        obtain ⟨⟨rfl, rfl⟩, hreply⟩ := hsubmit
        obtain rfl := eq_of_heq hreply
        obtain ⟨hencode, hkey⟩ := payloadAndKey_eq_ok.mp hpayload
        obtain ⟨picked, out, hfinal⟩ := submitted_of_build hk hs hencode hbuild
        rw [← payload_of_build hbuild] at hpayload
        exact ⟨key, _, picked, out, _, rfl, rfl, rfl, rfl, hpayload, hkey, hfinal⟩

/-- The inputs of a transaction over entries are signed in place, or the first entry that is not
supported is reported. -/
theorem signInputs_unsigned (hk : k.Documented) :
    ((∀ e ∈ picked, Supported k e.utxoEntry) ∧ ∃ signed, signInputs k s key aux
        (unsignedTransaction k changeAddress payload picked out) = .ok signed) ∨
      ∃ before e after, picked = before ++ e :: after ∧
        (∀ x ∈ before, Supported k x.utxoEntry) ∧ ¬ Supported k e.utxoEntry ∧
        signInputs k s key aux (unsignedTransaction k changeAddress payload picked out) =
          .error (unsupportedScript before.length) := by
  have hrange : (unsignedTransaction k changeAddress payload picked out).tx.inputs.length =
      picked.length := List.length_map _
  have hentry (i : Nat) (hi : i < picked.length) :
      (unsignedTransaction k changeAddress payload picked out).entries[i]? =
        some (some picked[i].utxoEntry) := by
    simp [unsignedTransaction, hi]
  cases hsign : signInputs k s key aux (unsignedTransaction k changeAddress payload picked out) with
  | ok signed =>
      obtain ⟨scripts, hscripts, -⟩ := (InPlace.fill_eq_ok (signatureScript_unread hk)).mp hsign
      refine .inl ⟨fun e he => ?_, signed, rfl⟩
      obtain ⟨i, hi, rfl⟩ := List.mem_iff_getElem.mp he
      have hlength := hscripts.length_eq
      rw [List.length_range, hrange] at hlength
      have hget := hscripts.get (by rwa [List.length_range, hrange]) (hlength ▸ hi)
      rw [List.get_eq_getElem, List.getElem_range] at hget
      exact (signatureScript_supported (hentry i hi)).mp ⟨_, hget⟩
  | error error =>
      obtain ⟨i, hi, hbefore, herror⟩ :=
        (InPlace.fill_range_eq_error (signatureScript_unread hk)).mp hsign
      rw [hrange] at hi
      have hunsupported : ¬ Supported k picked[i].utxoEntry := fun hsupported => by
        obtain ⟨script, hscript⟩ := (signatureScript_supported (hentry i hi)).mpr hsupported
        rw [hscript] at herror
        cases herror
      have hlength : (picked.take i).length = i := by
        rw [List.length_take, Nat.min_eq_left hi.le]
      refine .inr ⟨picked.take i, picked[i], picked.drop (i + 1), ?_, fun x hx => ?_,
        hunsupported, ?_⟩
      · rw [← List.drop_eq_getElem_cons hi, List.take_append_drop]
      · obtain ⟨j, hj, rfl⟩ := List.mem_take_iff_getElem.mp hx
        have hlt : j < i := by omega
        exact (signatureScript_supported (hentry j (hlt.trans hi))).mp (hbefore j hlt)
      · rw [hlength, ← Except.error.inj (herror.symm.trans
          (signatureScript_unsupported (hentry i hi) hunsupported))]

/-- A server is created by a transaction that spends the sample entry. -/
theorem sampleServer_submitted : ∃ tid tx, (submitKommsPayload .reference .reference .reference
      .reference sampleAux sampleServer () samplePrivateKey 0 .testnet).Runs
      [⟨.getUtxosByAddresses [()], .ok [sampleUtxo 1_000_000]⟩,
        ⟨.submitTransaction tx false, .ok tid⟩] (.ok tid) ∧
    ∃ picked out final, tx = final.tx ∧ Submitted .reference .reference .reference sampleKey
      sampleServer () 0 .testnet [sampleUtxo 1_000_000] picked out final := by
  obtain ⟨final, hbuild, -⟩ := Except.exists_ok_of_any
    (x := buildTransaction .reference .reference sampleKey sampleAux () samplePayload 0 .testnet
      [sampleUtxo 1_000_000]) (p := fun _ => true) (by decide +kernel)
  have hrun := runs_of_build sampleServer_ready hbuild (List.Vector.replicate 32 9)
  refine ⟨_, _, hrun, ?_⟩
  obtain ⟨key, entries, picked, out, final, htrace, -, -, htx, hready, -, hsubmitted⟩ :=
    submit_sound .reference .reference .reference .reference Kaspa.reference_documented
      Secp256k1.reference_documented sampleAux sampleServer () samplePrivateKey 0 .testnet _ _ hrun
      _ _ _ (List.mem_cons_of_mem _ List.mem_cons_self)
  obtain rfl : [sampleUtxo 1_000_000] = entries := by simpa using htrace
  obtain rfl : sampleKey = key :=
    (Prod.mk.inj (Except.ok.inj (sampleServer_ready.symm.trans hready))).2
  exact ⟨picked, out, final, htx, hsubmitted⟩

/-- If the entries that are picked are not all pay-to-pubkey, the run fails with the number of
the first input that cannot be signed for, and nothing is submitted. Otherwise a transaction is
submitted, unless its mass is not defined. -/
theorem submit_refuses (k : Kaspa Addr Tx) (s : Secp256k1) (c : Ciborium) (hex : FasterHex)
    (hk : k.Documented) (aux : Nat → Bytes32) (ev : ParsedKommsEvent) (changeAddress : Addr)
    (privateKeySechex : RString) (priorityFee : UInt64) (networkType : NetworkType)
    (trace : Trace Addr Tx) (r : Except String Bytes32)
    (hrun : (submitKommsPayload k s c hex aux ev changeAddress privateKeySechex priorityFee
      networkType).Runs trace r) (payload : Bytes)
    (hencode : encodeKommsPayload c ev = .ok payload) (entries picked : List RpcUtxo)
    (hlisted : ⟨.getUtxosByAddresses [changeAddress], .ok entries⟩ ∈ trace) (sum fee out : UInt64)
    (hpick : pickRpcUtxos entries (.ofNat payload.length) priorityFee =
      .ok (picked, sum, fee, out)) :
    ((∀ e ∈ picked, Supported k e.utxoEntry) ∧ ∃ key signed,
        payloadAndKey s c hex ev privateKeySechex = .ok (payload, key) ∧
        signInputs k s key aux (unsignedTransaction k changeAddress payload picked out) =
          .ok signed ∧
        ((∃ mass reply, k.normalizedMass networkType signed = some mass ∧
            ⟨.submitTransaction (k.toRpc (signed.withMass mass).tx) false, reply⟩ ∈ trace) ∨
          k.normalizedMass networkType signed = none ∧
            trace = [⟨.getUtxosByAddresses [changeAddress], .ok entries⟩] ∧
            r = .error "contextual mass")) ∨
      ∃ before e after, picked = before ++ e :: after ∧
        (∀ x ∈ before, Supported k x.utxoEntry) ∧ ¬ Supported k e.utxoEntry ∧
        trace = [⟨.getUtxosByAddresses [changeAddress], .ok entries⟩] ∧
        r = .error (unsupportedScript before.length) := by
  rcases submit_runs hrun with ⟨e, -, rfl, -⟩ | ⟨payload', key, hpayload, hcases⟩
  · cases hlisted
  · obtain rfl := Except.ok.inj (hencode.symm.trans (encode_of_payloadAndKey hpayload))
    have hbuilt : buildTransaction k s key aux changeAddress payload priorityFee networkType
        entries =
          signInputs k s key aux (unsignedTransaction k changeAddress payload picked out) >>=
          fun signed => .okOr (k.normalizedMass networkType signed) "contextual mass" >>=
            fun mass => .ok (signed.withMass mass) := by
      rw [buildTransaction, hpick]
      rfl
    cases hcases with
    | unlisted e => simp at hlisted
    | unbuilt hbuild =>
        obtain rfl : entries = _ := by simpa using hlisted
        rw [hbuild] at hbuilt
        rcases @signInputs_unsigned _ _ k s key aux changeAddress payload picked out hk with
          ⟨hsupported, signed, hsign⟩ | ⟨before, e, after, hsplit, hbefore, he, hsign⟩
        · rw [hsign, Except.ok_bind] at hbuilt
          refine .inl ⟨hsupported, key, signed, hpayload, hsign, .inr ?_⟩
          cases hmass : k.normalizedMass networkType signed with
          | none =>
              rw [hmass] at hbuilt
              exact ⟨rfl, rfl, congrArg Except.error (Except.error.inj hbuilt)⟩
          | some mass =>
              rw [hmass] at hbuilt
              cases hbuilt
        · rw [hsign] at hbuilt
          exact .inr ⟨before, e, after, hsplit, hbefore, he, rfl,
            congrArg Except.error (Except.error.inj hbuilt)⟩
    | submitted hbuild reply =>
        obtain rfl : entries = _ := by simpa using hlisted
        rw [hbuild] at hbuilt
        rcases @signInputs_unsigned _ _ k s key aux changeAddress payload picked out hk with
          ⟨hsupported, signed, hsign⟩ | ⟨before, e, after, -, -, -, hsign⟩
        · rw [hsign, Except.ok_bind] at hbuilt
          obtain ⟨mass, hmass, hfinal⟩ := Except.bind_eq_ok.mp hbuilt.symm
          obtain rfl := Except.ok.inj hfinal
          exact .inl ⟨hsupported, key, signed, hpayload, hsign, .inl ⟨mass, reply,
            Except.okOr_eq_ok.mp hmass, List.mem_cons_of_mem _ List.mem_cons_self⟩⟩
        · rw [hsign] at hbuilt
          cases hbuilt

/-- Two entries are needed, and the second one pays to a script hash. -/
theorem sampleScriptHash_refused : ∃ r : Except String Bytes32, (submitKommsPayload .reference
      .reference .reference .reference sampleAux sampleServer () samplePrivateKey 0 .testnet).Runs
      [⟨.getUtxosByAddresses [()], .ok [sampleScriptHash, sampleUtxo 150_000]⟩] r ∧
    ∃ before e after, [sampleUtxo 150_000, sampleScriptHash] = before ++ e :: after ∧
      ¬ Supported .reference e.utxoEntry ∧ r = .error (unsupportedScript before.length) := by
  have hpick : pickRpcUtxos [sampleScriptHash, sampleUtxo 150_000] (.ofNat samplePayload.length) 0 =
      .ok ([sampleUtxo 150_000, sampleScriptHash], 290_000, 279_900, 10_100) := by
    decide +kernel
  have hbuild : buildTransaction .reference .reference sampleKey sampleAux () samplePayload 0
      .testnet [sampleScriptHash, sampleUtxo 150_000] = .error (unsupportedScript 1) := by
    decide +kernel
  have hrun := runs_of_build_error sampleServer_ready hbuild
  refine ⟨_, hrun, ?_⟩
  rcases submit_refuses .reference .reference .reference .reference Kaspa.reference_documented
      sampleAux sampleServer () samplePrivateKey 0 .testnet _ _ hrun samplePayload
      (encode_of_payloadAndKey sampleServer_ready) _ _ List.mem_cons_self _ _ _ hpick with
    ⟨hsupported, -⟩ | ⟨before, e, after, hsplit, -, he, -, hr⟩
  · have hscript := hsupported sampleScriptHash (by simp)
    rcases hscript with hclass | hclass <;> exact absurd hclass (by decide +kernel)
  · exact ⟨before, e, after, hsplit, he, hr⟩

end Submission

end Komms.Submit
