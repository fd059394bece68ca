import Komms.Collections.PrefixCode
import Komms.Control.Except
import Komms.Crypto.FasterHex
import Mathlib.Data.String.Basic

/-!
# Request authentication

`sign` makes the signature header of a request and `verify` checks the three headers of
one. HMAC-SHA-256 is a parameter, an arbitrary function of key and message, and the
reading of the clock is an input: the seconds since the epoch, or nothing if the clock
is before it. The timestamp arithmetic is that of a release build, which wraps.
-/

namespace Komms.RequestAuth

open Cbor

structure VerifiedCaller where
  caller : String
  deriving DecidableEq

inductive RequestAuthError where
  | missingCaller
  | missingTimestamp
  | missingSignature
  | malformedTimestamp
  | malformedSignature
  | clockSkew
  | timestampDrift (driftSecs allowedSecs : UInt64)
  | emptyCaller
  | unknownCaller
  | hmacMismatch
  deriving DecidableEq

def newline : Bytes := [0x0A]

/-- The HMAC input: caller, timestamp, method and path, each with a newline, and the body. -/
def canonicalInput (caller tsDecimal method path : String) (body : Bytes) : Bytes :=
  utf8 caller ++ newline ++ utf8 tsDecimal ++ newline ++ utf8 method ++ newline ++ utf8 path ++
    newline ++ body

/-- `i64::unsigned_abs`. -/
def unsignedAbs (n : Int64) : UInt64 := .ofNat n.toInt.natAbs

section Source

variable (hex : FasterHex) (hmacSha256 : Bytes → Bytes → Bytes32)

def sign (secret : Bytes) (caller tsDecimal method path : String) (body : Bytes) : String :=
  hex.hexString (hmacSha256 secret (canonicalInput caller tsDecimal method path body)).1

def verify (clock : Option UInt64) (secrets : SortedMap String Bytes) (method path : String)
    (body : Bytes) (callerHeader tsHeader sigHeader : Option String) (skewSecs : UInt64) :
    Except RequestAuthError VerifiedCaller := do
  let callerHeader ← .okOr callerHeader .missingCaller
  let caller := Str.trim callerHeader
  .failIf (caller = "") .emptyCaller
  let tsStr ← .okOr tsHeader .missingTimestamp
  let sigHex ← .okOr sigHeader .missingSignature
  let ts ← .okOr (Str.parseI64 tsStr) .malformedTimestamp
  let now ← .okOr (clock.map UInt64.toInt64) .clockSkew
  let drift := unsignedAbs (now - ts)
  .failIf (drift > skewSecs) (.timestampDrift drift skewSecs)
  let secret ← .okOr (secrets.get? caller) .unknownCaller
  let expected := hmacSha256 secret (canonicalInput caller tsStr method path body)
  let actual ← .okOr (hex.hexDecode (utf8 (Str.trim sigHex)) 32) .malformedSignature
  if expected = actual then .ok ⟨caller⟩ else .error .hmacMismatch

end Source

/-- The balanced remainder is no further from zero than the number. -/
theorem natAbs_bmod_le (x : Int) : (x.bmod (2 ^ 64)).natAbs ≤ x.natAbs := by
  have hrem := Int.bmod_eq_emod x (2 ^ 64)
  split at hrem <;> omega

theorem toInt_toInt64 (x : UInt64) : x.toInt64.toInt = (x.toNat : Int).bmod (2 ^ 64) :=
  BitVec.toInt_eq_toNat_bmod x.toBitVec

/-- The difference of the two times, as it wraps. -/
theorem toInt_clock_sub (clock : UInt64) (ts : Int64) :
    (clock.toInt64 - ts).toInt = ((clock.toNat : Int) - ts.toInt).bmod (2 ^ 64) := by
  rw [Int64.toInt_sub, toInt_toInt64, Int.bmod_sub_bmod]

/-- The subtraction may wrap, but the drift never exceeds the distance of the two times. -/
theorem drift_le (clock : UInt64) (ts : Int64) :
    (unsignedAbs (clock.toInt64 - ts)).toNat ≤ ((clock.toNat : Int) - ts.toInt).natAbs := by
  calc (unsignedAbs (clock.toInt64 - ts)).toNat
      ≤ (clock.toInt64 - ts).toInt.natAbs := by
        rw [unsignedAbs, UInt64.toNat_ofNat']
        exact Nat.mod_le _ _
    _ ≤ ((clock.toNat : Int) - ts.toInt).natAbs := by
        rw [toInt_clock_sub]
        exact natAbs_bmod_le _

section Verify

variable {hex : FasterHex} {hmacSha256 : Bytes → Bytes → Bytes32} {clock : Option UInt64}
variable {secrets secrets' : SortedMap String Bytes} {method path : String} {body : Bytes}
variable {callerHeader tsHeader sigHeader : Option String} {skewSecs : UInt64}
variable {v : VerifiedCaller}

/-- A request is accepted if and only if every one of the checks is passed. -/
theorem verify_eq_ok :
    verify hex hmacSha256 clock secrets method path body callerHeader tsHeader sigHeader skewSecs =
        .ok v ↔
      ∃ caller tsStr sigHex ts now secret,
        callerHeader = some caller ∧ Str.trim caller ≠ "" ∧ tsHeader = some tsStr ∧
        sigHeader = some sigHex ∧ Str.parseI64 tsStr = some ts ∧ clock = some now ∧
        unsignedAbs (now.toInt64 - ts) ≤ skewSecs ∧ secrets.get? (Str.trim caller) = some secret ∧
        hex.hexDecode (utf8 (Str.trim sigHex)) 32 =
          some (hmacSha256 secret (canonicalInput (Str.trim caller) tsStr method path body)) ∧
        v = ⟨Str.trim caller⟩ := by
  simp only [verify, Except.bind_eq_ok, Except.okOr_eq_ok, Option.map_eq_some_iff,
    Except.ite_eq_ok]
  constructor
  · rintro ⟨caller, hcaller, ⟨⟩, hempty, tsStr, hts, sigHex, hsig, ts, hparse, _, ⟨now, hnow, rfl⟩,
      ⟨⟩, hdrift, secret, hsecret, actual, hactual, hmac, hv⟩
    refine ⟨caller, tsStr, sigHex, ts, now, secret, hcaller, Except.failIf_eq_ok.mp hempty, hts,
      hsig, hparse, hnow, ?_, hsecret, ?_, hv.symm⟩
    · exact UInt64.not_lt.mp (Except.failIf_eq_ok.mp hdrift)
    · rw [hactual, hmac]
  · rintro ⟨caller, tsStr, sigHex, ts, now, secret, hcaller, hempty, hts, hsig, hparse, hnow,
      hdrift, hsecret, hactual, hv⟩
    exact ⟨caller, hcaller, ⟨⟩, Except.failIf_eq_ok.mpr hempty, tsStr, hts, sigHex, hsig, ts,
      hparse, _, ⟨now, hnow, rfl⟩, ⟨⟩, Except.failIf_eq_ok.mpr (UInt64.not_lt.mpr hdrift), secret,
      hsecret, _, hactual, rfl, hv.symm⟩

/-- Of the secrets, `verify` reads the one of the caller. -/
theorem verify_congr
    (h : ∀ caller, callerHeader.map Str.trim = some caller →
      secrets.get? caller = secrets'.get? caller) :
    verify hex hmacSha256 clock secrets method path body callerHeader tsHeader sigHeader skewSecs =
      verify hex hmacSha256 clock secrets' method path body callerHeader tsHeader sigHeader
        skewSecs := by
  cases callerHeader with
  | none => simp only [verify, Except.okOr, Except.error_bind]
  | some caller => simp only [verify, Except.okOr, Except.ok_bind, h _ rfl]

/-- What is signed for a caller is accepted from it while the timestamp is fresh. -/
theorem verify_sign (hhex : hex.Documented) {caller tsStr : String} {secret : Bytes}
    {now : UInt64} {ts : Int64} (hsecret : secrets.get? caller = some secret)
    (hempty : caller ≠ "") (htrim : Str.trim caller = caller)
    (hts : Str.parseI64 tsStr = some ts)
    (hfresh : ((now.toNat : Int) - ts.toInt).natAbs ≤ skewSecs.toNat) :
    verify hex hmacSha256 (some now) secrets method path body (some caller) (some tsStr)
        (some (sign hex hmacSha256 secret caller tsStr method path body)) skewSecs =
      .ok ⟨caller⟩ := by
  refine verify_eq_ok.mpr ⟨caller, tsStr, _, ts, now, secret, rfl, ?_, rfl, rfl, hts, rfl, ?_, ?_,
    ?_, ?_⟩
  · rw [htrim]
    exact hempty
  · exact UInt64.le_iff_toNat_le.mpr ((drift_le now ts).trans hfresh)
  · rw [htrim]
    exact hsecret
  · rw [sign, hhex.trim_hexString, hhex.inverts _ (by decide), htrim]
  · rw [htrim]

end Verify

/-- Every caller with a secret can sign its requests, nothing is accepted that was not signed
with the secret of its caller, and no caller depends on the secret of another. -/
theorem verify_per_caller (hex : FasterHex) (hmacSha256 : Bytes → Bytes → Bytes32)
    (hhex : hex.Documented) :
    (∀ (secrets : SortedMap String Bytes) (caller tsStr method path : String)
        (body secret : Bytes) (now skewSecs : UInt64) (ts : Int64),
      secrets.get? caller = some secret → caller ≠ "" → Str.trim caller = caller →
      Str.parseI64 tsStr = some ts →
      ((now.toNat : Int) - ts.toInt).natAbs ≤ skewSecs.toNat →
        verify hex hmacSha256 (some now) secrets method path body (some caller) (some tsStr)
            (some (sign hex hmacSha256 secret caller tsStr method path body)) skewSecs =
          .ok ⟨caller⟩) ∧
    (∀ (clock : Option UInt64) (secrets : SortedMap String Bytes) (method path : String)
        (body : Bytes) (callerHeader tsHeader sigHeader : Option String) (skewSecs : UInt64)
        (v : VerifiedCaller),
      verify hex hmacSha256 clock secrets method path body callerHeader tsHeader sigHeader
          skewSecs = .ok v →
        callerHeader.map Str.trim = some v.caller ∧
        ∃ secret tsStr sigHex, secrets.get? v.caller = some secret ∧ tsHeader = some tsStr ∧
          sigHeader = some sigHex ∧ hex.hexDecode (utf8 (Str.trim sigHex)) 32 =
            some (hmacSha256 secret (canonicalInput v.caller tsStr method path body))) ∧
    ∀ (clock : Option UInt64) (secrets secrets' : SortedMap String Bytes) (method path : String)
        (body : Bytes) (callerHeader tsHeader sigHeader : Option String) (skewSecs : UInt64),
      (∀ caller, callerHeader.map Str.trim = some caller →
        secrets.get? caller = secrets'.get? caller) →
      verify hex hmacSha256 clock secrets method path body callerHeader tsHeader sigHeader
          skewSecs =
        verify hex hmacSha256 clock secrets' method path body callerHeader tsHeader sigHeader
          skewSecs := by
  refine ⟨?complete, ?sound, ?isolated⟩
  case complete =>
    intro secrets caller tsStr method path body secret now skewSecs ts hsecret hempty htrim hts
    exact verify_sign hhex hsecret hempty htrim hts
  case sound =>
    intro clock secrets method path body callerHeader tsHeader sigHeader skewSecs v h
    obtain ⟨caller, tsStr, sigHex, ts, now, secret, hcaller, -, hts, hsig, -, -, -, hsecret,
      hactual, rfl⟩ := verify_eq_ok.mp h
    exact ⟨congrArg (Option.map Str.trim) hcaller, secret, tsStr, sigHex, hsecret, hts, hsig,
      hactual⟩
  case isolated =>
    intro clock secrets secrets' method path body callerHeader tsHeader sigHeader skewSecs h
    exact verify_congr h

/-- The first bytes of key and message, in the place of HMAC. -/
def sampleHmac (secret message : Bytes) : Bytes32 :=
  List.Vector.ofFn fun i => (secret.take 4 ++ message).getD i 0

def sampleSecrets : SortedMap String Bytes :=
  (SortedMap.empty.insert "gateway" (.replicate 32 0x11)).insert "validator:5G" (.replicate 32 0x22)

/-- A gateway with a slow clock submits a request. -/
theorem gateway_verified :
    verify .reference sampleHmac (some 1000) sampleSecrets
        "POST" "/v1/submit" (utf8 "\x7b\x7d\n") (some "gateway") (some "0900")
        (some (sign .reference sampleHmac (.replicate 32 0x11) "gateway" "0900" "POST"
          "/v1/submit" (utf8 "\x7b\x7d\n"))) 300 =
      .ok ⟨"gateway"⟩ :=
  (verify_per_caller .reference _ FasterHex.reference_documented).1 sampleSecrets "gateway" "0900"
    "POST" "/v1/submit" _ (.replicate 32 0x11) 1000 300 900 (by decide +kernel) (by decide)
    (by decide +kernel) (by decide +kernel) (by decide +kernel)

section Drift

/-- The seconds between the clock and the timestamp. -/
def distance (now : UInt64) (ts : Int64) : Nat := ((now.toNat : Int) - ts.toInt).natAbs

/-- `a - b` leaves the range of an `i64`: a checked build panics, a release build wraps. -/
def subOverflows (a b : Int64) : Bool := a.toBitVec.ssubOverflow b.toBitVec

/-- The check of a timestamp is one of its distance from the clock: the subtraction is exact,
and `result` reports the distance when it is above the allowance. -/
structure DriftExact (now : UInt64) (ts : Int64) (skewSecs : UInt64)
    (result : Except RequestAuthError VerifiedCaller) : Prop where
  inRange : subOverflows now.toInt64 ts = false
  drift : (unsignedAbs (now.toInt64 - ts)).toNat = distance now ts
  reported : (∃ driftSecs, driftSecs.toNat = distance now ts ∧
    result = .error (.timestampDrift driftSecs skewSecs)) ↔ skewSecs.toNat < distance now ts

variable {now : UInt64} {ts : Int64}

theorem subOverflows_eq_false (hnow : now.toNat < 2 ^ 63) :
    subOverflows now.toInt64 ts = false ↔ (now.toNat : Int) - 2 ^ 63 < ts.toInt := by
  have hclock : now.toInt64.toBitVec.toInt = now.toNat := by
    have hexact : now.toInt64.toInt = now.toNat := by
      rw [toInt_toInt64]
      exact Int.bmod_eq_of_le (by omega) (by omega)
    exact hexact
  have hts : ts.toBitVec.toInt = ts.toInt := rfl
  have hhigh := ts.toInt_lt
  rw [subOverflows, BitVec.ssubOverflow, Bool.or_eq_false_iff, decide_eq_false_iff_not,
    decide_eq_false_iff_not, hclock, hts]
  constructor
  · intro h
    have hlow := h.1
    omega
  · intro h
    constructor <;> omega

/-- A timestamp that is not too far below the clock has an exact drift. -/
theorem drift_eq (hnow : now.toNat < 2 ^ 63) (hts : (now.toNat : Int) - 2 ^ 63 < ts.toInt) :
    (unsignedAbs (now.toInt64 - ts)).toNat = distance now ts := by
  have hhigh := ts.toInt_lt
  have hsub : (now.toInt64 - ts).toInt = (now.toNat : Int) - ts.toInt := by
    rw [toInt_clock_sub]
    exact Int.bmod_eq_of_le (by omega) (by omega)
  rw [unsignedAbs, UInt64.toNat_ofNat', hsub, distance]
  exact Nat.mod_eq_of_lt (by omega)

/-- Once the headers are there, the drift is what is reported, when it is too large. -/
theorem verify_eq_timestampDrift {hex : FasterHex} {hmacSha256 : Bytes → Bytes → Bytes32}
    {secrets : SortedMap String Bytes} {method path caller tsStr sigHex : String} {body : Bytes}
    {skewSecs driftSecs : UInt64} (hcaller : Str.trim caller ≠ "")
    (hts : Str.parseI64 tsStr = some ts) :
    verify hex hmacSha256 (some now) secrets method path body (some caller) (some tsStr)
        (some sigHex) skewSecs = .error (.timestampDrift driftSecs skewSecs) ↔
      driftSecs = unsignedAbs (now.toInt64 - ts) ∧ skewSecs < driftSecs := by
  have hcheck : Except.failIf (Str.trim caller = "") RequestAuthError.emptyCaller = .ok () :=
    Except.failIf_eq_ok.mpr hcaller
  simp only [verify, Except.okOr, Except.ok_bind, hcheck, hts, Option.map_some]
  by_cases hdrift : unsignedAbs (now.toInt64 - ts) > skewSecs
  · rw [Except.failIf_bind_of hdrift, Except.error.injEq, RequestAuthError.timestampDrift.injEq]
    constructor
    · rintro ⟨rfl, -⟩
      exact ⟨rfl, hdrift⟩
    · rintro ⟨rfl, -⟩
      exact ⟨rfl, rfl⟩
  · refine iff_of_false (fun h => ?_) (fun h => hdrift (h.1 ▸ h.2))
    rw [Except.failIf_eq_ok.mpr hdrift, Except.ok_bind] at h
    -- none of the checks that are left reports a drift
    rcases Except.bind_eq_error.mp h with hsecret | ⟨secret, -, h⟩
    · split at hsecret <;> cases hsecret
    · rcases Except.bind_eq_error.mp h with hsig | ⟨actual, -, h⟩
      · split at hsig <;> cases hsig
      · split at h <;> cases h

/-- The check of a timestamp is exact if and only if the timestamp is above the clock minus
2^63 seconds. -/
theorem timestamp_exact_iff (hex : FasterHex) (hmacSha256 : Bytes → Bytes → Bytes32)
    (secrets : SortedMap String Bytes) (method path caller tsStr sigHex : String) (body : Bytes)
    (skewSecs now : UInt64) (ts : Int64) (hcaller : Str.trim caller ≠ "")
    (hts : Str.parseI64 tsStr = some ts) (hnow : now.toNat < 2 ^ 63) :
    DriftExact now ts skewSecs (verify hex hmacSha256 (some now) secrets method path body
        (some caller) (some tsStr) (some sigHex) skewSecs) ↔
      (now.toNat : Int) - 2 ^ 63 < ts.toInt := by
  constructor
  · intro h
    exact (subOverflows_eq_false hnow).mp h.inRange
  · intro hlow
    have hdrift := drift_eq hnow hlow
    refine ⟨(subOverflows_eq_false hnow).mpr hlow, hdrift, ?_⟩
    simp only [verify_eq_timestampDrift hcaller hts]
    constructor
    · rintro ⟨driftSecs, hdistance, -, hskew⟩
      exact hdistance ▸ UInt64.lt_iff_toNat_lt.mp hskew
    · intro hskew
      exact ⟨_, hdrift, rfl, UInt64.lt_iff_toNat_lt.mpr (hdrift ▸ hskew)⟩

/-- A clock of 1000 seconds and a timestamp a hundred seconds before it. -/
theorem gateway_timestamp_exact :
    DriftExact 1000 900 300 (verify .reference sampleHmac (some 1000) sampleSecrets
      "POST" "/v1/submit" [] (some "gateway") (some "0900") (some "") 300) :=
  (timestamp_exact_iff .reference sampleHmac sampleSecrets "POST" "/v1/submit" "gateway" "0900" ""
    [] 300 1000 900 (by decide +kernel) (by decide +kernel) (by decide)).mpr (by decide)

/-- The earliest timestamp that parses is reported as less far from the clock than it is. -/
theorem earliest_timestamp_wraps :
    Str.parseI64 "-9223372036854775808" = some (-9223372036854775808) ∧
    subOverflows (1767225600 : UInt64).toInt64 (-9223372036854775808) = true ∧
    distance 1767225600 (-9223372036854775808) = 9223372038622001408 ∧
    verify .reference sampleHmac (some 1767225600) sampleSecrets "POST" "/v1/submit" []
        (some "gateway") (some "-9223372036854775808") (some "") 300 =
      .error (.timestampDrift 9223372035087550208 300) ∧
    ¬ DriftExact 1767225600 (-9223372036854775808) 300 (verify .reference sampleHmac
      (some 1767225600) sampleSecrets "POST" "/v1/submit" [] (some "gateway")
      (some "-9223372036854775808") (some "") 300) := by
  have hoverflow : subOverflows (1767225600 : UInt64).toInt64 (-9223372036854775808) = true := by
    decide +kernel
  refine ⟨by decide +kernel, hoverflow, by decide +kernel, by decide +kernel, fun h => ?_⟩
  rw [h.inRange] at hoverflow
  cases hoverflow

end Drift

section Replay

variable {hex : FasterHex} {hmacSha256 : Bytes → Bytes → Bytes32} {clock : Option UInt64}
variable {secrets : SortedMap String Bytes} {method path : String} {body : Bytes}
variable {callerHeader tsHeader sigHeader : Option String} {skewSecs : UInt64}
variable {v : VerifiedCaller}

/-- Of what an accepted request is checked for, only the drift depends on the clock. -/
theorem verify_at_iff (h : verify hex hmacSha256 clock secrets method path body callerHeader
    tsHeader sigHeader skewSecs = .ok v) : ∃ caller tsStr sigHex ts, callerHeader = some caller ∧
      Str.trim caller ≠ "" ∧ tsHeader = some tsStr ∧ sigHeader = some sigHex ∧
      Str.parseI64 tsStr = some ts ∧ ∀ now : UInt64,
        verify hex hmacSha256 (some now) secrets method path body callerHeader tsHeader sigHeader
            skewSecs = .ok v ↔ unsignedAbs (now.toInt64 - ts) ≤ skewSecs := by
  obtain ⟨caller, tsStr, sigHex, ts, -, secret, hcaller, hempty, hheader, hsig, hts, -, -, hsecret,
    hactual, hv⟩ := verify_eq_ok.mp h
  refine ⟨caller, tsStr, sigHex, ts, hcaller, hempty, hheader, hsig, hts, fun now => ?_⟩
  rw [verify_eq_ok]
  constructor
  · rintro ⟨_, tsStr', _, ts', now', _, -, -, hheader', -, hts', hnow, hdrift, -⟩
    obtain rfl := Option.some.inj (hheader.symm.trans hheader')
    obtain rfl := Option.some.inj (hts.symm.trans hts')
    obtain rfl := Option.some.inj hnow
    exact hdrift
  · intro hdrift
    exact ⟨caller, tsStr, sigHex, ts, now, secret, hcaller, hempty, hheader, hsig, hts, rfl, hdrift,
      hsecret, hactual, hv⟩

/-- Nothing of a request is remembered: one that was accepted is accepted again exactly as long
as the clock is no further from its timestamp than is allowed, and is refused for its drift at
any other time. -/
theorem replay_window (hex : FasterHex) (hmacSha256 : Bytes → Bytes → Bytes32)
    (clock : Option UInt64) (secrets : SortedMap String Bytes) (method path : String) (body : Bytes)
    (callerHeader tsHeader sigHeader : Option String) (skewSecs : UInt64) (v : VerifiedCaller)
    (h : verify hex hmacSha256 clock secrets method path body callerHeader tsHeader sigHeader
      skewSecs = .ok v) : ∃ tsStr ts, tsHeader = some tsStr ∧ Str.parseI64 tsStr = some ts ∧
      ∀ now : UInt64, now.toNat < 2 ^ 63 → (now.toNat : Int) - 2 ^ 63 < ts.toInt →
        (distance now ts ≤ skewSecs.toNat ↔ verify hex hmacSha256 (some now) secrets method path
          body callerHeader tsHeader sigHeader skewSecs = .ok v) ∧
        (skewSecs.toNat < distance now ts ↔ ∃ driftSecs, driftSecs.toNat = distance now ts ∧
          verify hex hmacSha256 (some now) secrets method path body callerHeader tsHeader sigHeader
            skewSecs = .error (.timestampDrift driftSecs skewSecs)) := by
  obtain ⟨caller, tsStr, sigHex, ts, rfl, hempty, rfl, rfl, hts, haccept⟩ := verify_at_iff h
  refine ⟨tsStr, ts, rfl, hts, fun now hnow hlow => ?_⟩
  have hdrift := drift_eq hnow hlow
  constructor
  · rw [haccept, UInt64.le_iff_toNat_le, hdrift]
  · simp only [verify_eq_timestampDrift hempty hts]
    constructor
    · intro hskew
      exact ⟨_, hdrift, rfl, UInt64.lt_iff_toNat_lt.mpr (hdrift ▸ hskew)⟩
    · rintro ⟨driftSecs, hdistance, -, hskew⟩
      exact hdistance ▸ UInt64.lt_iff_toNat_lt.mp hskew

/-- The signature of an upgrade request of the gateway. -/
def streamSig : String :=
  sign .reference sampleHmac (.replicate 32 0x11) "gateway" "900" "GET" "/komms/events/stream" []

/-- The request, seen again at the last second of the window and after it. -/
theorem stream_replayed :
    verify .reference sampleHmac (some 1200) sampleSecrets "GET" "/komms/events/stream" []
        (some "gateway") (some "900") (some streamSig) 300 = .ok ⟨"gateway"⟩ ∧
    ∃ driftSecs, driftSecs.toNat = 301 ∧
      verify .reference sampleHmac (some 1201) sampleSecrets "GET" "/komms/events/stream" []
        (some "gateway") (some "900") (some streamSig) 300 =
          .error (.timestampDrift driftSecs 300) := by
  have hfirst : verify .reference sampleHmac (some 1000) sampleSecrets "GET"
      "/komms/events/stream" [] (some "gateway") (some "900") (some streamSig) 300 =
        .ok ⟨"gateway"⟩ :=
    @verify_sign _ _ _ _ _ _ _ FasterHex.reference_documented _ _ _ _ 900 (by decide +kernel)
      (by decide) (by decide +kernel) (by decide +kernel) (by decide +kernel)
  obtain ⟨tsStr, ts, hheader, hts, hwindow⟩ :=
    replay_window .reference sampleHmac (some 1000) sampleSecrets "GET" "/komms/events/stream" []
      (some "gateway") (some "900") (some streamSig) 300 ⟨"gateway"⟩ hfirst
  obtain rfl := Option.some.inj hheader
  obtain rfl : ts = 900 := Option.some.inj (hts.symm.trans (by decide +kernel))
  exact ⟨(hwindow 1200 (by decide) (by decide)).1.mp (by decide),
    (hwindow 1201 (by decide) (by decide)).2.mp (by decide)⟩

end Replay

section Binding

/-- What of a request is signed. -/
@[ext]
structure Request where
  caller : String
  tsDecimal : String
  method : String
  path : String
  body : Bytes
  deriving DecidableEq

def Request.canonicalInput (r : Request) : Bytes :=
  RequestAuth.canonicalInput r.caller r.tsDecimal r.method r.path r.body

/-- Header and request-line values are on one line each. The body is arbitrary. -/
structure Request.SingleLines (r : Request) : Prop where
  caller : '\n' ∉ r.caller.toList
  tsDecimal : '\n' ∉ r.tsDecimal.toList
  method : '\n' ∉ r.method.toList
  path : '\n' ∉ r.path.toList

theorem newline_not_mem_utf8 {s : String} (h : '\n' ∉ s.toList) : 0x0A ∉ utf8 s := by
  intro hmem
  rw [utf8_eq_flatMap, List.mem_flatMap] at hmem
  obtain ⟨c, hc, hbyte⟩ := hmem
  have hcode : c.toNat = 10 := Str.toNat_of_mem_utf8EncodeChar hbyte (by decide)
  obtain rfl : c = '\n' := Char.toNat_inj.mp hcode
  exact h hc

/-- The first line of a text determines itself and what comes after it. -/
theorem line_inj {s t : String} {x y : Bytes} (hs : '\n' ∉ s.toList) (ht : '\n' ∉ t.toList)
    (h : utf8 s ++ newline ++ x = utf8 t ++ newline ++ y) : s = t ∧ x = y := by
  simp only [newline, List.append_assoc, List.singleton_append] at h
  obtain ⟨hline, hrest⟩ := Coding.terminated_cancel (newline_not_mem_utf8 hs)
    (newline_not_mem_utf8 ht) h
  exact ⟨utf8_injective hline, hrest⟩

/-- Four lines and the rest: the input determines the request. -/
theorem canonicalInput_inj {r r' : Request} (hr : r.SingleLines) (hr' : r'.SingleLines)
    (h : r.canonicalInput = r'.canonicalInput) : r = r' := by
  have hlines (r : Request) : r.canonicalInput = utf8 r.caller ++ newline ++ (utf8 r.tsDecimal ++
      newline ++ (utf8 r.method ++ newline ++ (utf8 r.path ++ newline ++ r.body))) := by
    simp only [Request.canonicalInput, canonicalInput, List.append_assoc]
  rw [hlines, hlines] at h
  obtain ⟨hcaller, h⟩ := line_inj hr.caller hr'.caller h
  obtain ⟨hts, h⟩ := line_inj hr.tsDecimal hr'.tsDecimal h
  obtain ⟨hmethod, h⟩ := line_inj hr.method hr'.method h
  obtain ⟨hpath, hbody⟩ := line_inj hr.path hr'.path h
  exact Request.ext hcaller hts hmethod hpath hbody

/-- The signature of one request that is accepted with another is a collision. -/
theorem collision_of_verify_sign {hex : FasterHex} {hmacSha256 : Bytes → Bytes → Bytes32}
    (hhex : hex.Documented) {clock : Option UInt64} {secrets : SortedMap String Bytes}
    {callerHeader tsStr method path : String} {body secret : Bytes} {skewSecs : UInt64}
    {v : VerifiedCaller} {r : Request} (hsecret : secrets.get? v.caller = some secret)
    (h : verify hex hmacSha256 clock secrets method path body (some callerHeader) (some tsStr)
      (some (sign hex hmacSha256 secret r.caller r.tsDecimal r.method r.path r.body)) skewSecs =
        .ok v) :
    hmacSha256 secret r.canonicalInput =
      hmacSha256 secret (Request.canonicalInput ⟨v.caller, tsStr, method, path, body⟩) := by
  obtain ⟨_, _, _, _, _, secret', hcaller, -, hts, hsig, -, -, -, hsecret', hactual, rfl⟩ :=
    verify_eq_ok.mp h
  obtain rfl := Option.some.inj hcaller
  obtain rfl := Option.some.inj hts
  obtain rfl := Option.some.inj hsig
  obtain rfl := Option.some.inj (hsecret.symm.trans hsecret')
  rw [sign, hhex.trim_hexString, hhex.inverts _ (by decide)] at hactual
  exact Option.some.inj hactual

/-- The input of the HMAC determines the request, so a signature is accepted only with the
request that it was made for, or with another whose input has the same HMAC. -/
theorem sign_binds_request (hex : FasterHex) (hmacSha256 : Bytes → Bytes → Bytes32)
    (hhex : hex.Documented) :
    (∀ r r' : Request, r.SingleLines → r'.SingleLines →
      r.canonicalInput = r'.canonicalInput → r = r') ∧
    ∀ (clock : Option UInt64) (secrets : SortedMap String Bytes)
        (callerHeader tsStr method path : String) (body secret : Bytes) (skewSecs : UInt64)
        (v : VerifiedCaller) (r : Request), r.SingleLines →
      Request.SingleLines ⟨v.caller, tsStr, method, path, body⟩ →
      secrets.get? v.caller = some secret →
      verify hex hmacSha256 clock secrets method path body (some callerHeader) (some tsStr)
          (some (sign hex hmacSha256 secret r.caller r.tsDecimal r.method r.path r.body))
          skewSecs = .ok v →
        r ≠ ⟨v.caller, tsStr, method, path, body⟩ →
          r.canonicalInput ≠ Request.canonicalInput ⟨v.caller, tsStr, method, path, body⟩ ∧
          hmacSha256 secret r.canonicalInput =
            hmacSha256 secret (Request.canonicalInput ⟨v.caller, tsStr, method, path, body⟩) := by
  refine ⟨fun r r' hr hr' h => canonicalInput_inj hr hr' h, ?_⟩
  intro clock secrets callerHeader tsStr method path body secret skewSecs v r hr hr' hsecret h hne
  exact ⟨fun heq => hne (canonicalInput_inj hr hr' heq), collision_of_verify_sign hhex hsecret h⟩

/-- A hash of no more than the first bytes accepts the signature with another body. -/
theorem sample_signature_collision :
    Request.canonicalInput ⟨"gateway", "0900", "POST", "/v1/submit", [0x0A]⟩ ≠
        Request.canonicalInput ⟨"gateway", "0900", "POST", "/v1/submit", []⟩ ∧
      sampleHmac (.replicate 32 0x11)
          (Request.canonicalInput ⟨"gateway", "0900", "POST", "/v1/submit", [0x0A]⟩) =
        sampleHmac (.replicate 32 0x11)
          (Request.canonicalInput ⟨"gateway", "0900", "POST", "/v1/submit", []⟩) :=
  (sign_binds_request .reference sampleHmac FasterHex.reference_documented).2 (some 1000)
    sampleSecrets " gateway" "0900" "POST" "/v1/submit" [] (.replicate 32 0x11) 300 ⟨"gateway"⟩
    ⟨"gateway", "0900", "POST", "/v1/submit", [0x0A]⟩
    ⟨by decide, by decide, by decide, by decide⟩ ⟨by decide, by decide, by decide, by decide⟩
    (by decide +kernel) (by decide +kernel) (by decide)

end Binding

end Komms.RequestAuth
