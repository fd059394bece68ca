import Komms.Control.Verdict
import Komms.Protocol.Locality
import Komms.Protocol.Payload

/-!
# What a prefix of a payload decides

The walker reads from left to right and looks at no byte twice, so that of all its errors only
`truncated` can be taken back by bytes that follow. For both entry points, a payload is never
repaired by appending to it (`verdict_final`), and one that has been cut is reported as such
(`verdict_of_cut`).
-/

namespace Komms.Canonical

open Cbor Except

/-- The errors that more bytes can cure. -/
def IsTruncated (e : CanonicalError) : Prop := ∃ offset, e = .truncated offset

section Stands

variable {cbor : Bytes} {pos : Nat}

theorem readU8_stands (rest : Bytes) :
    Stands IsTruncated (readU8 cbor pos) (readU8 (cbor ++ rest) pos) := by
  rw [readU8]
  cases hbyte : cbor[pos]? with
  | none => exact .of_missing ⟨pos, rfl⟩ _
  | some v =>
      left
      rw [readU8, List.getElem?_append_left (List.getElem?_eq_some_iff.mp hbyte).1, hbyte]

theorem readBe_stands (rest : Bytes) (width : Nat) :
    Stands IsTruncated (readBe width cbor pos) (readBe width (cbor ++ rest) pos) := by
  rw [readBe]
  split_ifs with hshort
  · exact .of_missing ⟨pos, rfl⟩ _
  · left
    have hfits : pos + width ≤ cbor.length := Nat.le_of_not_lt hshort
    have hwindow : ((cbor ++ rest).drop pos).take width = (cbor.drop pos).take width := by
      rw [List.drop_append_of_le_length (by omega), List.take_append_of_le_length]
      rw [List.length_drop]
      omega
    rw [readBe, if_neg (by rw [List.length_append]; omega), hwindow]

theorem skipBytes_stands (rest : Bytes) (n : Nat) :
    Stands IsTruncated (skipBytes cbor pos n) (skipBytes (cbor ++ rest) pos n) := by
  rw [skipBytes]
  split_ifs with hshort
  · exact .of_missing ⟨pos, rfl⟩ _
  · left
    rw [skipBytes, if_neg (by rw [List.length_append]; omega)]

theorem readArgument_stands (rest : Bytes) (arg initialOff : Nat) :
    Stands IsTruncated (readArgument cbor pos arg initialOff)
      (readArgument (cbor ++ rest) pos arg initialOff) := by
  rw [readArgument, readArgument]
  split_ifs
  case pos => exact .refl _
  case pos => exact (readU8_stands rest).bind fun _ => .refl _
  case pos => exact (readBe_stands rest 2).bind fun _ => .refl _
  case pos => exact (readBe_stands rest 4).bind fun _ => .refl _
  case pos => exact (readBe_stands rest 8).bind fun _ => .refl _
  case neg => exact .refl _

theorem readUintKey_stands (rest : Bytes) :
    Stands IsTruncated (readUintKey cbor pos) (readUintKey (cbor ++ rest) pos) := by
  rw [readUintKey, readUintKey]
  refine (readU8_stands rest).bind fun x => (Stands.refl _).bind fun _ => ?_
  exact (Stands.refl _).bind fun _ => (Stands.refl _).bind fun _ => readArgument_stands rest _ _

variable {walk walk' : Nat → Except CanonicalError Nat}

theorem walkArray_stands (hwalk : ∀ pos, Stands IsTruncated (walk pos) (walk' pos)) (count : Nat) :
    Stands IsTruncated (walkArray walk count pos) (walkArray walk' count pos) := by
  induction count generalizing pos with
  | zero => exact .refl _
  | succ count ih => exact (hwalk pos).bind fun _ => ih

theorem walkMap_stands (rest : Bytes) (hwalk : ∀ pos, Stands IsTruncated (walk pos) (walk' pos))
    (count : Nat) (prevKey : Option Nat) :
    Stands IsTruncated (walkMap cbor walk count prevKey pos)
      (walkMap (cbor ++ rest) walk' count prevKey pos) := by
  induction count generalizing pos prevKey with
  | zero => exact .refl _
  | succ count ih =>
      refine (readUintKey_stands rest).bind fun x => (Stands.refl _).bind fun _ => ?_
      exact (hwalk x.2).bind fun _ => ih _

theorem walkBody_stands (rest : Bytes) (hwalk : ∀ pos, Stands IsTruncated (walk pos) (walk' pos))
    (initial : UInt8) (initialOff : Nat) :
    Stands IsTruncated (walkBody cbor walk initial pos initialOff)
      (walkBody (cbor ++ rest) walk' initial pos initialOff) := by
  have hargument := @readArgument_stands cbor pos rest (argOf initial) initialOff
  simp only [walkBody]
  split
  case h_1 => exact hargument.bind fun _ => .refl _
  case h_2 => exact hargument.bind fun _ => .refl _
  case h_3 => exact hargument.bind fun _ => skipBytes_stands rest _
  case h_4 => exact hargument.bind fun _ => skipBytes_stands rest _
  case h_5 => exact hargument.bind fun _ => walkArray_stands hwalk _
  case h_6 => exact hargument.bind fun _ => walkMap_stands rest hwalk _ _
  case h_7 => exact hargument.bind fun _ => .refl _
  case h_8 => exact .refl _

theorem walkLevels_stands (rest : Bytes) (levels pos : Nat) :
    Stands IsTruncated (walkLevels cbor levels pos) (walkLevels (cbor ++ rest) levels pos) := by
  induction levels generalizing pos with
  | zero => exact .refl _
  | succ levels ih =>
      refine (readU8_stands rest).bind fun x => (Stands.refl _).bind fun _ => ?_
      exact (Stands.refl _).bind fun _ => walkBody_stands rest ih _ _

end Stands

/-- The position an error reports. -/
def CanonicalError.offset : CanonicalError → Nat
  | .truncated offset | .nestingTooDeep offset | .indefiniteLength offset
  | .nonShortestForm offset | .nonUintKey offset | .keysOutOfOrder offset
  | .duplicateKey _ offset | .taggedItem _ offset | .floatForbidden offset
  | .invalidSimpleValue _ offset | .trailingBytes offset | .reservedArgument offset => offset

section Offsets

variable {cbor : Bytes} {pos initialOff : Nat}

/-- A reader that ends, with a result or an error, at a position of the buffer. -/
abbrev Within {α : Type} (cbor : Bytes) (stop : α → Nat) : Except CanonicalError α → Prop :=
  Ends (fun a => stop a ≤ cbor.length) (fun e => e.offset ≤ cbor.length)

theorem readU8_within (hpos : pos ≤ cbor.length) : Within cbor Prod.snd (readU8 cbor pos) := by
  rw [readU8]
  cases hbyte : cbor[pos]? with
  | none => exact hpos
  | some v => exact (List.getElem?_eq_some_iff.mp hbyte).1

theorem readBe_within {width : Nat} (hpos : pos ≤ cbor.length) :
    Within cbor Prod.snd (readBe width cbor pos) := by
  rw [readBe]
  split_ifs with hshort
  · exact hpos
  · exact Nat.le_of_not_lt hshort

theorem skipBytes_within {n : Nat} (hpos : pos ≤ cbor.length) :
    Within cbor id (skipBytes cbor pos n) := by
  rw [skipBytes]
  split_ifs with hshort
  · exact hpos
  · exact Nat.le_of_not_lt hshort

theorem readArgument_within {arg : Nat} (hpos : pos ≤ cbor.length)
    (hoff : initialOff ≤ cbor.length) :
    Within cbor Prod.snd (readArgument cbor pos arg initialOff) := by
  rw [readArgument]
  split_ifs
  · exact hpos
  · exact (readU8_within hpos).bind fun _ h => Ends.failIf_bind hoff h
  · exact (readBe_within hpos).bind fun _ h => Ends.failIf_bind hoff h
  · exact (readBe_within hpos).bind fun _ h => Ends.failIf_bind hoff h
  · exact (readBe_within hpos).bind fun _ h => Ends.failIf_bind hoff h
  · exact hoff

theorem readUintKey_within (hpos : pos ≤ cbor.length) :
    Within cbor Prod.snd (readUintKey cbor pos) := by
  rw [readUintKey]
  refine (readU8_within hpos).bind fun x hx => Ends.failIf_bind hpos ?_
  exact Ends.failIf_bind hpos (Ends.failIf_bind hpos (readArgument_within hx hpos))

variable {walk : Nat → Except CanonicalError Nat}

theorem walkArray_within (hwalk : ∀ pos ≤ cbor.length, Within cbor id (walk pos)) (count : Nat)
    (hpos : pos ≤ cbor.length) : Within cbor id (walkArray walk count pos) := by
  induction count generalizing pos with
  | zero => exact hpos
  | succ count ih => exact (hwalk pos hpos).bind fun _ h => ih h

theorem checkKeyOrder_within {prevKey : Option Nat} {key : Nat} (hpos : pos ≤ cbor.length) :
    Within cbor (fun _ => 0) (checkKeyOrder prevKey key pos) := by
  cases prevKey with
  | none => exact Nat.zero_le _
  | some p =>
      rw [checkKeyOrder]
      split_ifs
      · exact hpos
      · exact hpos
      · exact Nat.zero_le _

theorem walkMap_within (hwalk : ∀ pos ≤ cbor.length, Within cbor id (walk pos)) (count : Nat)
    (prevKey : Option Nat) (hpos : pos ≤ cbor.length) :
    Within cbor id (walkMap cbor walk count prevKey pos) := by
  induction count generalizing pos prevKey with
  | zero => exact hpos
  | succ count ih =>
      refine (readUintKey_within hpos).bind fun x hx => ?_
      refine (checkKeyOrder_within hpos).bind fun _ _ => ?_
      exact (hwalk x.2 hx).bind fun _ h => ih _ h

theorem walkBody_within {initial : UInt8}
    (hwalk : ∀ pos ≤ cbor.length, Within cbor id (walk pos)) (hpos : pos ≤ cbor.length)
    (hoff : initialOff ≤ cbor.length) :
    Within cbor id (walkBody cbor walk initial pos initialOff) := by
  have hargument := @readArgument_within cbor pos initialOff (argOf initial) hpos hoff
  simp only [walkBody]
  split
  case h_1 => exact hargument.bind fun _ h => h
  case h_2 => exact hargument.bind fun _ h => h
  case h_3 => exact hargument.bind fun _ h => skipBytes_within h
  case h_4 => exact hargument.bind fun _ h => skipBytes_within h
  case h_5 => exact hargument.bind fun _ h => walkArray_within hwalk _ h
  case h_6 => exact hargument.bind fun _ h => walkMap_within hwalk _ _ h
  case h_7 => exact hargument.bind fun _ _ => hoff
  case h_8 =>
    split_ifs
    · exact hpos
    · exact hoff
    · exact hoff

theorem walkLevels_within (levels : Nat) (hpos : pos ≤ cbor.length) :
    Within cbor id (walkLevels cbor levels pos) := by
  induction levels generalizing pos with
  | zero => exact hpos
  | succ levels ih =>
      refine (readU8_within hpos).bind fun x hx => Ends.failIf_bind hpos ?_
      exact Ends.failIf_bind hpos (walkBody_within (fun _ h => ih h) hx hpos)

/-- The position of an error lies in the buffer, or is its end. -/
theorem offset_le {e : CanonicalError} (h : validateCanonical cbor = .error e) :
    e.offset ≤ cbor.length := by
  have hends : Within cbor (fun _ => 0) (validateCanonical cbor) := by
    refine (walkLevels_within _ (Nat.zero_le _)).bind fun q hq => ?_
    rw [failIf]
    split_ifs
    · exact hq
    · exact Nat.zero_le _
  exact hends.of_error h

end Offsets

section Verdict

variable {cbor rest : Bytes} {e : CanonicalError}

theorem validateCanonical_eq_error :
    validateCanonical cbor = .error e ↔ walkItem cbor 0 0 = .error e ∨
      ∃ q, walkItem cbor 0 0 = .ok q ∧ q ≠ cbor.length ∧ .trailingBytes q = e := by
  rw [validateCanonical, Except.bind_eq_error]
  simp only [failIf_eq_error]

/-- A walk that ends ends there in every longer buffer, where the bytes after it are too many. -/
theorem validateCanonical_append_of_walk {q : Nat} (hwalk : walkItem cbor 0 0 = .ok q)
    (hrest : rest ≠ []) : validateCanonical (cbor ++ rest) = .error (.trailingBytes q) := by
  have hle := (walkItem_progress hwalk).2
  have hpos := List.length_pos_of_ne_nil hrest
  refine validateCanonical_eq_error.mpr (.inr ⟨q, ?_, ?_, rfl⟩)
  · exact (walkLevels_stands rest _ 0).eq_ok hwalk
  · rw [List.length_append]
    omega

theorem validateCanonical_append_of_ok (h : validateCanonical cbor = .ok ())
    (hrest : rest ≠ []) :
    validateCanonical (cbor ++ rest) = .error (.trailingBytes cbor.length) := by
  obtain ⟨q, hwalk, hq⟩ := Except.bind_eq_ok.mp h
  obtain rfl : q = cbor.length := not_not.mp (failIf_eq_ok.mp hq)
  exact validateCanonical_append_of_walk hwalk hrest

theorem validateCanonical_append_of_error (h : validateCanonical cbor = .error e)
    (he : ¬ IsTruncated e) : validateCanonical (cbor ++ rest) = .error e := by
  rcases validateCanonical_eq_error.mp h with hfail | ⟨q, hwalk, hq, rfl⟩
  · have hsame := (walkLevels_stands rest _ 0).eq_error hfail he
    exact validateCanonical_eq_error.mpr (.inl hsame)
  · by_cases hrest : rest = []
    · rw [hrest, List.append_nil, h]
    · exact validateCanonical_append_of_walk hwalk hrest

/-- What is cut off an accepted byte string is missed, and nothing else is complained of. -/
theorem validateCanonical_of_cut (h : validateCanonical (cbor ++ rest) = .ok ())
    (hrest : rest ≠ []) : ∃ offset, validateCanonical cbor = .error (.truncated offset) := by
  cases hcut : validateCanonical cbor with
  | ok _ =>
      rw [validateCanonical_append_of_ok hcut hrest] at h
      cases h
  | error e =>
      by_cases he : IsTruncated e
      · obtain ⟨offset, rfl⟩ := he
        exact ⟨offset, rfl⟩
      · rw [validateCanonical_append_of_error hcut he] at h
        cases h

end Verdict

end Komms.Canonical

namespace Komms

open Cbor
open Canonical (validateCanonical IsTruncated)

section Payload

variable {c : Ciborium} {cbor raw rest : Bytes} {e : KommsPayloadError}

theorem stripKommsEnvelope_eq_none :
    stripKommsEnvelope raw = none ↔ ¬ kommsPayloadPrefix <+: raw := by
  rw [stripKommsEnvelope]
  split_ifs with hprefix
  · exact iff_of_false (by simp) (not_not.mpr hprefix)
  · exact iff_of_true rfl hprefix

theorem parseEnvelope_of_missingPrefix (h : ¬ kommsPayloadPrefix <+: raw) :
    parseEnvelope c raw = .error .missingPrefix := by
  rw [parseEnvelope, stripKommsEnvelope_eq_none.mpr h]

theorem parseEnvelope_of_not_canonical {e : Canonical.CanonicalError}
    (h : validateCanonical cbor = .error e) :
    parseEnvelope c (kommsPayloadPrefix ++ cbor) = .error (.canonical e) := by
  rw [parseEnvelope, stripKommsEnvelope_eq_some.mpr rfl]
  dsimp only
  rw [h]
  rfl

/-- Both entry points report what is wrong with the envelope. -/
theorem parse_of_parseEnvelope (h : parseEnvelope c raw = .error e) :
    parseKommsPayload c raw = .error e ∧ parseKommsPayloadWithFuture c raw = .error e := by
  rw [parseKommsPayload, parseKommsPayloadWithFuture, h]
  exact ⟨rfl, rfl⟩

theorem canonical_of_parse {p : ParsedPayload} (h : parseKommsPayloadWithFuture c raw = .ok p) :
    ∃ cbor, raw = kommsPayloadPrefix ++ cbor ∧ validateCanonical cbor = .ok () := by
  obtain ⟨⟨cbor, ev⟩, henvelope, -⟩ := Except.bind_eq_ok.mp h
  obtain ⟨hraw, hcanonical, -⟩ := parseEnvelope_eq_ok.mp henvelope
  exact ⟨cbor, hraw, hcanonical⟩

end Payload

/-- An accepted payload that has been cut is reported as cut: what is left of it has no prefix,
or the walker misses bytes at an offset inside it. -/
theorem verdict_of_cut (c : Ciborium) (part rest : Bytes) (p : ParsedPayload) (hrest : rest ≠ [])
    (h : parseKommsPayloadWithFuture c (part ++ rest) = .ok p) :
    ∃ e, parseKommsPayload c part = .error e ∧ parseKommsPayloadWithFuture c part = .error e ∧
      (part.length < kommsPayloadPrefix.length → e = .missingPrefix) ∧
      (kommsPayloadPrefix.length ≤ part.length → ∃ offset,
        offset + kommsPayloadPrefix.length ≤ part.length ∧ e = .canonical (.truncated offset)) := by
  obtain ⟨cbor, hraw, hcanonical⟩ := canonical_of_parse h
  by_cases hshort : part.length < kommsPayloadPrefix.length
  · refine ⟨.missingPrefix, ?_⟩
    rw [← and_assoc]
    refine ⟨parse_of_parseEnvelope (parseEnvelope_of_missingPrefix fun hprefix => ?_),
      fun _ => rfl, fun hlong => by omega⟩
    exact absurd hprefix.length_le (Nat.not_le_of_lt hshort)
  · have hlong : kommsPayloadPrefix.length ≤ part.length := Nat.le_of_not_lt hshort
    have hprefix : kommsPayloadPrefix <+: part ++ rest := ⟨cbor, hraw.symm⟩
    obtain ⟨left, rfl⟩ := List.prefix_of_prefix_length_le hprefix (List.prefix_append _ _) hlong
    rw [List.append_assoc, List.append_cancel_left_eq] at hraw
    obtain ⟨offset, hcut⟩ := Canonical.validateCanonical_of_cut (hraw ▸ hcanonical) hrest
    refine ⟨.canonical (.truncated offset), ?_⟩
    rw [← and_assoc]
    refine ⟨parse_of_parseEnvelope (parseEnvelope_of_not_canonical hcut), fun hlt => by omega,
      fun _ => ⟨offset, ?_, rfl⟩⟩
    have hoffset : offset ≤ left.length := Canonical.offset_le hcut
    rw [List.length_append]
    omega

/-- A bookmark without its last byte. -/
theorem v0Bookmark_cut : ∃ offset ≤ 41, parseKommsPayload .reference v0Bookmark.dropLast =
    .error (.canonical (.truncated offset)) := by
  have hparts : v0Bookmark.dropLast ++ [0xF4] = v0Bookmark := by decide +kernel
  obtain ⟨p, hparse, -⟩ := Except.exists_ok_of_any
    (x := parseKommsPayloadWithFuture .reference v0Bookmark) (p := fun _ => true)
    (by decide +kernel)
  obtain ⟨e, hcut, -, -, hlong⟩ :=
    verdict_of_cut .reference v0Bookmark.dropLast [0xF4] p (by decide) (hparts.symm ▸ hparse)
  obtain ⟨offset, hoffset, rfl⟩ := hlong (by decide)
  exact ⟨offset, Nat.le_of_add_le_add_right hoffset, hcut⟩

end Komms
