import Komms.Cli.Hexutil
import Komms.Cli.Output
import Komms.Protocol.Signing

/-!
# The `decode` command

`decodePayload` shows a payload as JSON. The strict mode parses it as an on-chain payload; the
other parses the map as well as it can, without the check that the encoding is canonical, and
reports the first error of validation as a warning (`decodePayload_strict_iff`).

The `Debug` form of a ciborium value is a parameter, as the crates are.
-/

namespace Komms

open Cbor
open Canonical (validateCanonical)

/-- What `decode` fails with: the error of the strict parser, or a message. -/
inductive DecodeError where
  | payload (e : KommsPayloadError)
  | message (text : String)
  deriving DecidableEq

section Source

variable (c : Ciborium) (e : Ed25519) (hex : FasterHex) (debug : Value → String)

/-- The bytes after the prefix, or all of them. -/
def cborOf (bytes : Bytes) : Bytes := (stripKommsEnvelope bytes).getD bytes

/-- The event in a mode, with the warning about it. -/
def decodeEvent (bytes : Bytes) (strict : Bool) :
    Except DecodeError (ParsedKommsEvent × Option String) :=
  if strict then do
    let ev ← (parseKommsPayload c bytes).mapError .payload
    .ok (ev, none)
  else do
    let ev ← (parseCborMap c (cborOf bytes)).mapError fun e => .message e.message
    .ok (ev, (validateEvent ev).getError?.map ValidationError.message)

def addCborDebug (bytes : Bytes) (prettyCbor : Bool) (json : Json) : Except DecodeError Json :=
  if prettyCbor then
    match c.fromReader (cborOf bytes) with
    | .error _ => .error (.message "CBOR debug parse")
    | .ok v => .ok (json.set "cbor_debug" (.string (debug v)))
  else .ok json

/-- The signature of the event under the key that is given. Its 64 bytes are always read. -/
def checkSig (ev : ParsedKommsEvent) (pkHex : Option String) : Except DecodeError Unit := do
  let pkS ← .okOr pkHex (.message "--ed25519-pubkey-hex required with --verify-sig")
  let pk ← (Hexutil.parseHex32 hex pkS).mapError .message
  let vk ← .okOr (e.fromBytes pk) (.message "ed25519 public key")
  let sig ← .okOr ev.sig (.message "event has no sig")
  let msg ← (signingPayloadCbor c ev).mapError fun _ => .message "signing payload"
  .failIf (¬ e.verifyStrict vk msg sig) (.message "ed25519 verify")

def addSigVerified (ev : ParsedKommsEvent) (verifySig : Bool) (pkHex : Option String)
    (json : Json) : Except DecodeError Json :=
  if verifySig then do
    checkSig c e hex ev pkHex
    .ok (json.set "sig_verified" (.bool true))
  else .ok json

def withWarning (json : Json) (validation : Option String) : Json :=
  match validation with
  | some msg => json.set "validation_warning" (.string msg)
  | none => json

/-- The JSON of an event with its warning, and with what the flags ask for. -/
def renderEvent (bytes : Bytes) (prettyCbor verifySig : Bool) (pkHex : Option String)
    (ev : ParsedKommsEvent) (validation : Option String) : Except DecodeError Json := do
  let json ← addCborDebug c debug bytes prettyCbor (withWarning (eventToJson hex ev) validation)
  addSigVerified c e hex ev verifySig pkHex json

def decodePayload (bytes : Bytes) (strict prettyCbor verifySig : Bool) (pkHex : Option String) :
    Except DecodeError Json := do
  let (ev, validation) ← decodeEvent c bytes strict
  renderEvent c e hex debug bytes prettyCbor verifySig pkHex ev validation

end Source

section Modes

variable {c : Ciborium} {e : Ed25519} {hex : FasterHex} {debug : Value → String}
variable {bytes cbor : Bytes} {ev : ParsedKommsEvent} {validation : Option String}

theorem cborOf_prefixed (cbor : Bytes) : cborOf (kommsPayloadPrefix ++ cbor) = cbor := by
  rw [cborOf, stripKommsEnvelope_eq_some.mpr rfl]
  rfl

theorem decodeEvent_strict : decodeEvent c (kommsPayloadPrefix ++ cbor) true =
      .ok (ev, validation) ↔
    (validateCanonical cbor = .ok () ∧ parseCborMap c cbor = .ok ev ∧ validateEvent ev = .ok ()) ∧
      validation = none := by
  simp only [decodeEvent, if_true, Except.bind_eq_ok, Except.mapError_eq_ok,
    parseKommsPayload_eq_ok, List.append_cancel_left_eq, Except.ok.injEq, Prod.mk.injEq]
  constructor
  · rintro ⟨_, ⟨_, rfl, h⟩, rfl, rfl⟩
    exact ⟨h, rfl⟩
  · rintro ⟨h, rfl⟩
    exact ⟨ev, ⟨cbor, rfl, h⟩, rfl, rfl⟩

theorem decodeEvent_lenient : decodeEvent c (kommsPayloadPrefix ++ cbor) false =
      .ok (ev, validation) ↔
    parseCborMap c cbor = .ok ev ∧
      (validateEvent ev).getError?.map ValidationError.message = validation := by
  simp only [decodeEvent, Bool.false_eq_true, if_false, Except.bind_eq_ok, Except.mapError_eq_ok,
    cborOf_prefixed, Except.ok.injEq, Prod.mk.injEq]
  constructor
  · rintro ⟨_, h, rfl, hvalidation⟩
    exact ⟨h, hvalidation⟩
  · rintro ⟨h, hvalidation⟩
    exact ⟨ev, h, rfl, hvalidation⟩

/-- There is no warning about an event exactly when it is valid. -/
theorem no_warning_iff :
    (validateEvent ev).getError?.map ValidationError.message = none ↔
      validateEvent ev = .ok () := by
  cases h : validateEvent ev with
  | ok u => simp [Except.getError?]
  | error err => simp [Except.getError?]

/-- What is strictly decoded is canonical and decoded without a warning. -/
theorem decodeEvent_strict_iff : decodeEvent c (kommsPayloadPrefix ++ cbor) true =
      .ok (ev, validation) ↔
    validateCanonical cbor = .ok () ∧ validation = none ∧
      decodeEvent c (kommsPayloadPrefix ++ cbor) false = .ok (ev, validation) := by
  rw [decodeEvent_strict, decodeEvent_lenient]
  constructor
  · rintro ⟨⟨hcanonical, hparse, hvalid⟩, rfl⟩
    exact ⟨hcanonical, rfl, hparse, no_warning_iff.mpr hvalid⟩
  · rintro ⟨hcanonical, rfl, hparse, hwarning⟩
    exact ⟨⟨hcanonical, hparse, no_warning_iff.mp hwarning⟩, rfl⟩

/-- The JSON of an event has no warning of its own. -/
theorem get?_withWarning (ev : ParsedKommsEvent) (validation : Option String) :
    (withWarning (eventToJson hex ev) validation).get? "validation_warning" =
      validation.map .string := by
  cases validation with
  | none =>
      apply Json.get?_ofMembers_eq_none
      rw [eventMembers_keys]
      decide
  | some msg =>
      have hobject : (eventToJson hex ev).IsObject := Json.isObject_ofMembers (eventMembers hex ev)
      exact Json.get?_set_self hobject "validation_warning" (.string msg)

theorem get?_addCborDebug {prettyCbor : Bool} {json json' : Json}
    (h : addCborDebug c debug bytes prettyCbor json = .ok json') :
    json'.get? "validation_warning" = json.get? "validation_warning" := by
  rw [addCborDebug] at h
  split_ifs at h
  · split at h
    · cases h
    · obtain rfl := Except.ok.inj h
      exact Json.get?_set_of_ne (by decide) _
  · obtain rfl := Except.ok.inj h
    rfl

theorem get?_addSigVerified {verifySig : Bool} {pkHex : Option String} {json json' : Json}
    (h : addSigVerified c e hex ev verifySig pkHex json = .ok json') :
    json'.get? "validation_warning" = json.get? "validation_warning" := by
  rw [addSigVerified] at h
  split_ifs at h
  · obtain ⟨-, hjson⟩ := Except.check_bind_eq_ok.mp h
    obtain rfl := Except.ok.inj hjson
    exact Json.get?_set_of_ne (by decide) _
  · obtain rfl := Except.ok.inj h
    rfl

/-- The flags change nothing about the warning. -/
theorem get?_renderEvent {prettyCbor verifySig : Bool} {pkHex : Option String} {json : Json}
    (h : renderEvent c e hex debug bytes prettyCbor verifySig pkHex ev validation = .ok json) :
    json.get? "validation_warning" = validation.map .string := by
  obtain ⟨json', hdebug, hsig⟩ := Except.bind_eq_ok.mp h
  rw [get?_addSigVerified hsig, get?_addCborDebug hdebug, get?_withWarning]

/-- The strict mode gives a JSON exactly when the encoding is canonical and the other mode gives
this JSON without a warning. -/
theorem decodePayload_strict_eq_ok {prettyCbor verifySig : Bool} {pkHex : Option String}
    {json : Json} : decodePayload c e hex debug (kommsPayloadPrefix ++ cbor) true prettyCbor
        verifySig pkHex = .ok json ↔
      validateCanonical cbor = .ok () ∧ json.get? "validation_warning" = none ∧
        decodePayload c e hex debug (kommsPayloadPrefix ++ cbor) false prettyCbor verifySig pkHex =
          .ok json := by
  simp only [decodePayload, Except.bind_eq_ok, Prod.exists, decodeEvent_strict_iff]
  constructor
  · rintro ⟨ev, validation, ⟨hcanonical, rfl, hdecode⟩, hrender⟩
    exact ⟨hcanonical, get?_renderEvent hrender, ev, none, hdecode, hrender⟩
  · rintro ⟨hcanonical, hwarning, ev, validation, hdecode, hrender⟩
    have hnone : validation = none := by
      rw [get?_renderEvent hrender] at hwarning
      exact Option.map_eq_none_iff.mp hwarning
    exact ⟨ev, validation, ⟨hcanonical, hnone, hdecode⟩, hrender⟩

end Modes

/-- Of what has the prefix, the strict mode decodes the canonical payloads that the other mode
decodes without a warning, to the same JSON. -/
theorem decodePayload_strict_iff (c : Ciborium) (e : Ed25519) (hex : FasterHex)
    (debug : Value → String) (cbor : Bytes) (prettyCbor verifySig : Bool)
    (pkHex : Option String) :
    ((∃ json, decodePayload c e hex debug (kommsPayloadPrefix ++ cbor) true prettyCbor verifySig
        pkHex = .ok json) ↔
      validateCanonical cbor = .ok () ∧
        ∃ json, decodePayload c e hex debug (kommsPayloadPrefix ++ cbor) false prettyCbor verifySig
            pkHex = .ok json ∧ json.get? "validation_warning" = none) ∧
    ∀ json json', decodePayload c e hex debug (kommsPayloadPrefix ++ cbor) true prettyCbor
          verifySig pkHex = .ok json →
        decodePayload c e hex debug (kommsPayloadPrefix ++ cbor) false prettyCbor verifySig pkHex =
          .ok json' → json = json' := by
  constructor
  · constructor
    · rintro ⟨json, h⟩
      obtain ⟨hcanonical, hwarning, hlenient⟩ := decodePayload_strict_eq_ok.mp h
      exact ⟨hcanonical, json, hlenient, hwarning⟩
    · rintro ⟨hcanonical, json, hlenient, hwarning⟩
      exact ⟨json, decodePayload_strict_eq_ok.mpr ⟨hcanonical, hwarning, hlenient⟩⟩
  · intro json json' h h'
    obtain ⟨-, -, hlenient⟩ := decodePayload_strict_eq_ok.mp h
    exact Except.ok.inj (hlenient.symm.trans h')

/-- A v0 bookmark with a byte after it is decoded without a warning, and refused strictly. -/
theorem trailing_byte_not_warned :
    (∃ json, decodePayload .reference .reference .reference (fun _ => "") (v0Bookmark ++ [0x00])
      false false false none = .ok json ∧ json.get? "validation_warning" = none) ∧
    decodePayload .reference .reference .reference (fun _ => "") (v0Bookmark ++ [0x00]) true false
      false none = .error (.payload (.canonical (.trailingBytes 42))) := by
  constructor
  · obtain ⟨json, hjson, hwarning⟩ := Except.exists_ok_of_any
      (x := decodePayload .reference .reference .reference (fun _ => "") (v0Bookmark ++ [0x00])
        false false false none)
      (p := fun json => (json.get? "validation_warning").isNone) (by decide +kernel)
    exact ⟨json, hjson, Option.isNone_iff_eq_none.mp hwarning⟩
  · exact Except.getError?_eq_some.mp (by decide +kernel)

end Komms
