import Komms.Protocol.Canonical

/-!
# Locality of the walker

A walk that succeeds moves forward, stays inside the buffer, and depends on the bytes
it moved over and on no others. An item is therefore recognised wherever it stands, and
no canonical byte string continues another one.
-/

namespace Komms.Canonical

open Cbor

section Walk

variable {cbor : Bytes} {pos q depth : Nat}

theorem walkItem_spans (h : walkItem cbor pos depth = .ok q) : ∃ i : Item,
    (i.Canonical ∧ i.depth < maxNestingDepth + 1 - depth) ∧ Spans cbor pos i.encode q :=
  walkLevels_ok_iff.mp h

theorem walkItem_progress (h : walkItem cbor pos depth = .ok q) : pos < q ∧ q ≤ cbor.length := by
  obtain ⟨i, -, hspan⟩ := walkItem_spans h
  have hpos := i.encode_length_pos
  have hq := hspan.2
  exact ⟨by omega, hspan.le_length (List.ne_nil_of_length_pos hpos)⟩

/-- The walk is the same in a buffer with the same bytes between its two ends. -/
theorem walkItem_congr {cbor' : Bytes} (h : walkItem cbor pos depth = .ok q)
    (hagree : ∀ k, pos ≤ k → k < q → cbor'[k]? = cbor[k]?) :
    walkItem cbor' pos depth = .ok q := by
  obtain ⟨i, hi, hspan⟩ := walkItem_spans h
  exact walkLevels_ok_iff.mpr ⟨i, hi, hspan.congr hagree⟩

/-- An item that is walked over has room for what its head declares. -/
theorem declared_le {initial : UInt8} {initialOff n p : Nat} (h : walkItem cbor pos depth = .ok q)
    (hinitial : cbor[pos]? = some initial) (hmajor : 2 ≤ majorOf initial ∧ majorOf initial ≤ 5)
    (harg : readArgument cbor (pos + 1) (argOf initial) initialOff = .ok (n, p)) :
    p + n ≤ cbor.length := by
  obtain ⟨i, ⟨hi, -⟩, hspan⟩ := walkItem_spans h
  obtain ⟨major, n', rest, hm, hn', henc, hcontent⟩ := Item.exists_head_content hi
  have hle := hspan.le_length (List.ne_nil_of_length_pos i.encode_length_pos)
  rw [henc] at hspan
  obtain ⟨p', hhead, hrest⟩ := Spans.append_iff.mp hspan
  have hbyte : Spans cbor pos [initial] (pos + 1) := Spans.singleton_iff.mpr ⟨hinitial, rfl⟩
  obtain ⟨rfl, hinfo, hargs⟩ := (spans_head_at_iff hbyte hm).mp hhead
  -- the head of the item is the one that was read
  have hread : readArgument cbor (pos + 1) (argOf initial) initialOff = .ok (n', p') :=
    readArgument_ok_iff.mpr ⟨hn', hinfo, hargs⟩
  obtain ⟨rfl, rfl⟩ := Prod.mk.inj (Except.ok.inj (harg.symm.trans hread))
  have hlength := hcontent hmajor.1 hmajor.2
  have hq := hrest.2
  omega

end Walk

/-- Of two accepted byte strings neither continues the other. -/
theorem eq_of_accepted_continuation {b c : Bytes} (hb : validateCanonical b = .ok ())
    (hc : validateCanonical c = .ok ()) (h : b <+: c) : b = c := by
  obtain ⟨i, rfl, hi, -⟩ := validateCanonical_ok_iff.mp hb
  obtain ⟨j, rfl, hj, -⟩ := validateCanonical_ok_iff.mp hc
  obtain ⟨r, hr⟩ := h
  obtain ⟨rfl, -⟩ := Item.encode_prefix_free hi hj (hr.trans (List.append_nil _).symm)
  rfl

/-- A walk makes progress inside the buffer, depends only on the bytes it moved over, and
fails where more is declared than is left; acceptance is prefix-free. -/
theorem walkItem_local :
    (∀ cbor pos depth q, pos ≤ cbor.length → walkItem cbor pos depth = .ok q →
      (pos < q ∧ q ≤ cbor.length) ∧
      ∀ cbor' : Bytes, (∀ k, pos ≤ k → k < q → cbor'[k]? = cbor[k]?) →
        walkItem cbor' pos depth = .ok q) ∧
    (∀ (cbor : Bytes) pos depth initial n p, cbor[pos]? = some initial →
      2 ≤ majorOf initial ∧ majorOf initial ≤ 5 →
      readArgument cbor (pos + 1) (argOf initial) pos = .ok (n, p) → cbor.length - p < n →
      ∀ q, walkItem cbor pos depth ≠ .ok q) ∧
    (∀ b c, validateCanonical b = .ok () → b <+: c ∨ c <+: b → c ≠ b →
      validateCanonical c ≠ .ok ()) := by
  refine ⟨fun cbor pos depth q _ h => ?_, fun cbor pos depth initial n p hinitial hmajor harg
    hlong q h => ?_, fun b c hb hprefix hne hc => ?_⟩
  · exact ⟨walkItem_progress h, fun cbor' hagree => walkItem_congr h hagree⟩
  · have hle := declared_le h hinitial hmajor harg
    omega
  · rcases hprefix with hprefix | hprefix
    · exact hne (eq_of_accepted_continuation hb hc hprefix).symm
    · exact hne (eq_of_accepted_continuation hc hb hprefix)

/-- An array of one byte string, followed by another byte: the walk from its start and from
its element, and what follows from its acceptance. -/
theorem walkItem_local_array :
    walkItem [0x81, 0x41, 0x07] 0 0 = .ok 3 ∧ walkItem [0x60, 0x41, 0x07, 0x00] 1 1 = .ok 3 ∧
    (∀ q, walkItem [0x81, 0x42, 0x07] 1 1 ≠ .ok q) ∧
    validateCanonical [0x81, 0x41, 0x07, 0x00] ≠ .ok () := by
  obtain ⟨hwalk, hdeclared, hprefix⟩ := walkItem_local
  refine ⟨by decide +kernel, ?_, ?_, ?_⟩
  · refine (hwalk [0x81, 0x41, 0x07] 1 1 3 (by decide) (by decide +kernel)).2 _ ?_
    intro k hk hk'
    obtain rfl | rfl : k = 1 ∨ k = 2 := by omega
    · rfl
    · rfl
  · exact hdeclared [0x81, 0x42, 0x07] 1 1 0x42 2 2 rfl (by decide) (by decide +kernel)
      (by decide)
  · exact hprefix [0x81, 0x41, 0x07] _ (by decide +kernel)
      (.inl ⟨[0x00], rfl⟩) (by decide)

end Komms.Canonical
