import Komms.Cbor.Item
import Komms.Control.Except

/-!
# The canonical CBOR walker

`validateCanonical` walks the raw bytes of a payload with a cursor and rejects
whatever is not in the canonical profile. A `&[u8]` is a list of bytes, a
cursor `&mut usize` is passed in and returned, and machine integers are natural
numbers: no value read exceeds 64 bits, and an offset that would overflow a
64-bit `usize` lies past the end of every slice (`skipBytes_eq_checked`).

Each reader has one specification, an equivalence between its success and the
bytes it moved over. They compose to `walkLevels_ok_iff`, and that one to
`validateCanonical_ok_iff`: the walker accepts exactly the encodings of canonical
items.
-/

namespace Komms.Canonical

open Cbor

/-- Maximum nesting depth allowed in a single event. -/
def maxNestingDepth : Nat := 8

inductive CanonicalError where
  | truncated (offset : Nat)
  | nestingTooDeep (offset : Nat)
  | indefiniteLength (offset : Nat)
  | nonShortestForm (offset : Nat)
  | nonUintKey (offset : Nat)
  | keysOutOfOrder (offset : Nat)
  | duplicateKey (key offset : Nat)
  | taggedItem (tag offset : Nat)
  | floatForbidden (offset : Nat)
  | invalidSimpleValue (value : UInt8) (offset : Nat)
  | trailingBytes (offset : Nat)
  | reservedArgument (offset : Nat)
  deriving DecidableEq, Repr

def readU8 (cbor : Bytes) (pos : Nat) : Except CanonicalError (UInt8 × Nat) :=
  match cbor[pos]? with
  | none => .error (.truncated pos)
  | some v => .ok (v, pos + 1)

/-- A big-endian number of `width` bytes. -/
def readBe (width : Nat) (cbor : Bytes) (pos : Nat) : Except CanonicalError (Nat × Nat) :=
  if pos + width > cbor.length then .error (.truncated pos)
  else .ok (beNat ((cbor.drop pos).take width), pos + width)

def readU16Be (cbor : Bytes) (pos : Nat) : Except CanonicalError (Nat × Nat) := readBe 2 cbor pos

def readU32Be (cbor : Bytes) (pos : Nat) : Except CanonicalError (Nat × Nat) := readBe 4 cbor pos

def readU64Be (cbor : Bytes) (pos : Nat) : Except CanonicalError (Nat × Nat) := readBe 8 cbor pos

/-- `usize::checked_add` on a 64-bit target. -/
def checkedAdd (p n : Nat) : Option Nat := if p + n < 2 ^ 64 then some (p + n) else none

/-- Where `p.checked_add(n)` overflows, the source reports `Truncated(p)`, as it
does for an end past the buffer. -/
def skipBytes (cbor : Bytes) (pos n : Nat) : Except CanonicalError Nat :=
  if pos + n > cbor.length then .error (.truncated pos) else .ok (pos + n)

/-- Read the additional-info argument with shortest-form enforcement. -/
def readArgument (cbor : Bytes) (pos arg initialOff : Nat) :
    Except CanonicalError (Nat × Nat) :=
  if arg ≤ 23 then .ok (arg, pos)
  else if arg = 24 then do
    let (v, pos) ← readU8 cbor pos
    .failIf (v.toNat < 24) (.nonShortestForm initialOff)
    return (v.toNat, pos)
  else if arg = 25 then do
    let (v, pos) ← readU16Be cbor pos
    .failIf (v ≤ 0xFF) (.nonShortestForm initialOff)
    return (v, pos)
  else if arg = 26 then do
    let (v, pos) ← readU32Be cbor pos
    .failIf (v ≤ 0xFFFF) (.nonShortestForm initialOff)
    return (v, pos)
  else if arg = 27 then do
    let (v, pos) ← readU64Be cbor pos
    .failIf (v ≤ 0xFFFFFFFF) (.nonShortestForm initialOff)
    return (v, pos)
  else .error (.reservedArgument initialOff)

/-- The major type of an initial byte. -/
def majorOf (initial : UInt8) : Nat := (initial >>> 5).toNat

/-- The additional information of an initial byte. -/
def argOf (initial : UInt8) : Nat := (initial &&& 0x1F).toNat

/-- Read an unsigned map key. -/
def readUintKey (cbor : Bytes) (pos : Nat) : Except CanonicalError (Nat × Nat) := do
  let initialOff := pos
  let (initial, pos) ← readU8 cbor pos
  let major := majorOf initial
  let arg := argOf initial
  .failIf (major ≠ 0) (.nonUintKey initialOff)
  .failIf (arg = 0x1F) (.indefiniteLength initialOff)
  .failIf (28 ≤ arg ∧ arg ≤ 30) (.reservedArgument initialOff)
  readArgument cbor pos arg initialOff

/-- A map key must be greater than the one before it. -/
def checkKeyOrder (prevKey : Option Nat) (key keyOff : Nat) : Except CanonicalError Unit :=
  match prevKey with
  | none => .ok ()
  | some p =>
    if key ≤ p then
      if key = p then .error (.duplicateKey key keyOff) else .error (.keysOutOfOrder keyOff)
    else .ok ()

/-- The array loop: `count` items, each walked by `walk`. -/
def walkArray (walk : Nat → Except CanonicalError Nat) : Nat → Nat → Except CanonicalError Nat
  | 0, pos => .ok pos
  | count + 1, pos => do
    let pos ← walk pos
    walkArray walk count pos

/-- The map loop: `count` keys in strictly ascending order, each followed by a
value walked by `walk`. -/
def walkMap (cbor : Bytes) (walk : Nat → Except CanonicalError Nat) :
    Nat → Option Nat → Nat → Except CanonicalError Nat
  | 0, _, pos => .ok pos
  | count + 1, prevKey, pos => do
    let keyOff := pos
    let (key, pos) ← readUintKey cbor pos
    checkKeyOrder prevKey key keyOff
    let pos ← walk pos
    walkMap cbor walk count (some key) pos

/-- What `walk_item` does after the initial byte: `walk` walks the items one level
below. -/
def walkBody (cbor : Bytes) (walk : Nat → Except CanonicalError Nat) (initial : UInt8)
    (pos initialOff : Nat) : Except CanonicalError Nat :=
  let arg := argOf initial
  match majorOf initial with
  | 0 | 1 => do
    let (_value, pos) ← readArgument cbor pos arg initialOff
    return pos
  | 2 | 3 => do
    let (len, pos) ← readArgument cbor pos arg initialOff
    skipBytes cbor pos len
  | 4 => do
    let (count, pos) ← readArgument cbor pos arg initialOff
    walkArray walk count pos
  | 5 => do
    let (count, pos) ← readArgument cbor pos arg initialOff
    walkMap cbor walk count none pos
  | 6 => do
    let (tag, _pos) ← readArgument cbor pos arg initialOff
    .error (.taggedItem tag initialOff)
  | _ =>
    -- a major type has three bits, so this is major type 7
    if 0xF4 ≤ initial ∧ initial ≤ 0xF7 then .ok pos
    else if 0xF9 ≤ initial ∧ initial ≤ 0xFB then .error (.floatForbidden initialOff)
    else .error (.invalidSimpleValue initial initialOff)

/-- `walk_item` with `levels` levels of nesting left, none of them left when the
depth exceeds the maximum. -/
def walkLevels (cbor : Bytes) : Nat → Nat → Except CanonicalError Nat
  | 0, pos => .error (.nestingTooDeep pos)
  | levels + 1, pos => do
    let initialOff := pos
    let (initial, pos) ← readU8 cbor pos
    let arg := argOf initial
    .failIf (arg = 0x1F) (.indefiniteLength initialOff)
    .failIf (28 ≤ arg ∧ arg ≤ 30) (.reservedArgument initialOff)
    walkBody cbor (walkLevels cbor levels) initial pos initialOff

def walkItem (cbor : Bytes) (pos depth : Nat) : Except CanonicalError Nat :=
  walkLevels cbor (maxNestingDepth + 1 - depth) pos

/-- Validate that `cbor` is a single canonical CBOR item, exhausting the slice. -/
def validateCanonical (cbor : Bytes) : Except CanonicalError Unit := do
  let pos ← walkItem cbor 0 0
  .failIf (pos ≠ cbor.length) (.trailingBytes pos)

section Readers

variable {cbor : Bytes} {pos q arg initialOff n width : Nat} {v : UInt8}

/-- On a slice that fits in a 64-bit address space the overflow check of the
source decides nothing that its bounds check does not decide. -/
theorem skipBytes_eq_checked (h : cbor.length < 2 ^ 64) :
    skipBytes cbor pos n =
      match checkedAdd pos n with
      | none => .error (.truncated pos)
      | some stop => if stop > cbor.length then .error (.truncated pos) else .ok stop := by
  rw [skipBytes, checkedAdd]
  by_cases hfits : pos + n < 2 ^ 64
  · rw [if_pos hfits]
  · have hpast : pos + n > cbor.length := by omega
    rw [if_neg hfits, if_pos hpast]

theorem readU8_ok_iff : readU8 cbor pos = .ok (v, q) ↔ Spans cbor pos [v] q := by
  rw [Spans.singleton_iff, readU8]
  cases cbor[pos]? with
  | none => simp
  | some w => simp [eq_comm]

theorem readBe_ok_iff (hwidth : 0 < width) :
    readBe width cbor pos = .ok (n, q) ↔ n < 256 ^ width ∧ Spans cbor pos (beBytes width n) q := by
  rw [readBe]
  constructor
  · intro h
    split at h
    · cases h
    · rename_i hfits
      have hfits : pos + width ≤ cbor.length := Nat.le_of_not_lt hfits
      have hlen : ((cbor.drop pos).take width).length = width := by
        rw [List.length_take, List.length_drop]
        omega
      simp only [Except.ok.injEq, Prod.mk.injEq] at h
      obtain ⟨rfl, rfl⟩ := h
      have hbound := beNat_lt ((cbor.drop pos).take width)
      have hdigits := beBytes_beNat ((cbor.drop pos).take width)
      rw [hlen] at hbound hdigits
      refine ⟨hbound, ?_⟩
      rw [hdigits]
      exact Spans.take_drop hfits
  · rintro ⟨hn, hspan⟩
    have htake := hspan.eq_take_drop
    have hq : q = pos + width := by rw [hspan.2, length_beBytes]
    have hfits := hspan.le_length (List.ne_nil_of_length_pos (by rwa [length_beBytes]))
    rw [length_beBytes] at htake
    rw [if_neg (by omega), htake, beNat_beBytes hn, hq]

theorem skipBytes_ok_iff (hpos : pos ≤ cbor.length) :
    skipBytes cbor pos n = .ok q ↔ ∃ b : Bytes, b.length = n ∧ Spans cbor pos b q := by
  rw [skipBytes]
  constructor
  · intro h
    split at h
    · cases h
    · rename_i hfits
      have hfits : pos + n ≤ cbor.length := Nat.le_of_not_lt hfits
      obtain rfl : pos + n = q := by simpa using h
      refine ⟨_, ?_, Spans.take_drop hfits⟩
      rw [List.length_take, List.length_drop]
      omega
  · rintro ⟨b, rfl, hspan⟩
    have hle : b.length ≤ cbor.length - pos := by
      have := hspan.1.length_le
      rwa [List.length_drop] at this
    rw [if_neg (by omega), hspan.2]

/-- One width of the argument reader: what is above the bound `low` of the next
shorter form is what this width encodes. -/
theorem readBe_failIf_ok_iff {low : Nat} {e : CanonicalError} (hwidth : 0 < width) :
    (readBe width cbor pos >>= fun r => Except.failIf (r.1 ≤ low) e >>= fun _ => .ok (r.1, r.2)) =
        .ok (n, q) ↔
      low < n ∧ n < 256 ^ width ∧ Spans cbor pos (beBytes width n) q := by
  rw [Except.bind_eq_ok]
  constructor
  · rintro ⟨⟨v, p⟩, hread, hrest⟩
    obtain ⟨hlow, hok⟩ := Except.failIf_bind_eq_ok.mp hrest
    obtain ⟨rfl, rfl⟩ : v = n ∧ p = q := by simpa using hok
    exact ⟨Nat.lt_of_not_le hlow, (readBe_ok_iff hwidth).mp hread⟩
  · rintro ⟨hlow, hn⟩
    exact ⟨(n, q), (readBe_ok_iff hwidth).mpr hn,
      Except.failIf_bind_eq_ok.mpr ⟨Nat.not_le_of_lt hlow, rfl⟩⟩

theorem readU8_failIf_ok_iff {e : CanonicalError} :
    (readU8 cbor pos >>= fun r =>
        Except.failIf (r.1.toNat < 24) e >>= fun _ => .ok (r.1.toNat, r.2)) = .ok (n, q) ↔
      23 < n ∧ n < 256 ^ 1 ∧ Spans cbor pos (beBytes 1 n) q := by
  rw [Except.bind_eq_ok]
  constructor
  · rintro ⟨⟨v, p⟩, hread, hrest⟩
    obtain ⟨hlow, hok⟩ := Except.failIf_bind_eq_ok.mp hrest
    obtain ⟨rfl, rfl⟩ : v.toNat = n ∧ p = q := by simpa using hok
    refine ⟨Nat.lt_of_succ_le (Nat.le_of_not_lt hlow), v.toNat_lt, ?_⟩
    simpa [beBytes] using readU8_ok_iff.mp hread
  · rintro ⟨hlow, hn, hspan⟩
    have hbyte : (UInt8.ofNat n).toNat = n := by
      rw [UInt8.toNat_ofNat']
      omega
    refine ⟨(UInt8.ofNat n, q), readU8_ok_iff.mpr (by simpa [beBytes] using hspan), ?_⟩
    rw [Except.failIf_bind_eq_ok, hbyte]
    exact ⟨Nat.not_lt_of_le hlow, rfl⟩

/-- A width whose range is that of the additional information `i` holds the argument
bytes of the numbers with that information. -/
theorem argument_of_width_iff {i low : Nat} (hwidth : argWidth i = width)
    (hmax : 256 ^ width ≤ 2 ^ 64)
    (hinfo : n < 2 ^ 64 → (info n = i ↔ low < n ∧ n < 256 ^ width)) :
    low < n ∧ n < 256 ^ width ∧ Spans cbor pos (beBytes width n) q ↔
      n < 2 ^ 64 ∧ info n = i ∧ Spans cbor pos (argBytes n) q := by
  constructor
  · rintro ⟨hlow, hhigh, hspan⟩
    have hn : n < 2 ^ 64 := Nat.lt_of_lt_of_le hhigh hmax
    have hi := (hinfo hn).mpr ⟨hlow, hhigh⟩
    refine ⟨hn, hi, ?_⟩
    rwa [argBytes, hi, hwidth]
  · rintro ⟨hn, hi, hspan⟩
    obtain ⟨hlow, hhigh⟩ := (hinfo hn).mp hi
    rw [argBytes, hi, hwidth] at hspan
    exact ⟨hlow, hhigh, hspan⟩

/-- An argument of at most 23 has no bytes of its own. -/
theorem short_argument_iff (h : arg ≤ 23) :
    arg = n ∧ pos = q ↔ n < 2 ^ 64 ∧ info n = arg ∧ Spans cbor pos (argBytes n) q := by
  have hsmall : arg < 24 := Nat.lt_succ_of_le h
  constructor
  · rintro ⟨rfl, rfl⟩
    refine ⟨by omega, info_of_lt hsmall, ?_⟩
    rw [argBytes_of_lt hsmall]
    exact Spans.nil_iff.mpr rfl
  · rintro ⟨-, hn, hspan⟩
    have hsame : arg = n := by
      rw [info] at hn
      split_ifs at hn <;> omega
    rw [← hsame, argBytes_of_lt hsmall] at hspan
    exact ⟨hsame, (Spans.nil_iff.mp hspan).symm⟩

theorem readArgument_ok_iff :
    readArgument cbor pos arg initialOff = .ok (n, q) ↔
      n < 2 ^ 64 ∧ info n = arg ∧ Spans cbor pos (argBytes n) q := by
  rw [readArgument]
  split_ifs with h23 h24 h25 h26 h27
  · rw [Except.ok.injEq, Prod.mk.injEq]
    exact short_argument_iff h23
  · subst h24
    refine readU8_failIf_ok_iff.trans (argument_of_width_iff rfl (by decide) fun _ => ?_)
    rw [info]
    split_ifs <;> omega
  · subst h25
    refine (readBe_failIf_ok_iff (by decide)).trans
      (argument_of_width_iff rfl (by decide) fun _ => ?_)
    rw [info]
    split_ifs <;> omega
  · subst h26
    refine (readBe_failIf_ok_iff (by decide)).trans
      (argument_of_width_iff rfl (by decide) fun _ => ?_)
    rw [info]
    split_ifs <;> omega
  · subst h27
    refine (readBe_failIf_ok_iff (by decide)).trans
      (argument_of_width_iff rfl (by decide) fun _ => ?_)
    rw [info]
    split_ifs <;> omega
  · have hinfo : info n ≠ arg := by
      have hlt := info_lt n
      omega
    simp [hinfo]

theorem majorOf_eq (initial : UInt8) : majorOf initial = initial.toNat / 32 := by
  rw [majorOf, UInt8.toNat_shiftRight, Nat.shiftRight_eq_div_pow]
  rfl

theorem argOf_eq (initial : UInt8) : argOf initial = initial.toNat % 32 := by
  rw [argOf, UInt8.toNat_and]
  exact Nat.and_two_pow_sub_one_eq_mod initial.toNat 5

theorem initialByte_eq_iff {initial : UInt8} {major i : Nat} (hm : major < 8) (hi : i < 32) :
    initialByte major i = initial ↔ majorOf initial = major ∧ argOf initial = i := by
  have hbyte := initialByte_toNat hm hi
  rw [majorOf_eq, argOf_eq, ← UInt8.toNat_inj, hbyte]
  omega

/-- A head is its initial byte followed by its argument bytes. -/
theorem spans_head_iff {major : Nat} (hm : major < 8) :
    Spans cbor pos (head major n) q ↔ ∃ initial p, Spans cbor pos [initial] p ∧
      majorOf initial = major ∧ info n = argOf initial ∧ Spans cbor p (argBytes n) q := by
  have hi : info n < 32 := Nat.lt_trans (info_lt n) (by decide)
  rw [head, ← List.singleton_append, Spans.append_iff]
  constructor
  · rintro ⟨p, hinitial, hargs⟩
    obtain ⟨hmajor, harg⟩ := (initialByte_eq_iff hm hi).mp rfl
    exact ⟨_, p, hinitial, hmajor, harg.symm, hargs⟩
  · rintro ⟨initial, p, hinitial, hmajor, harg, hargs⟩
    obtain rfl := (initialByte_eq_iff hm hi).mpr ⟨hmajor, harg.symm⟩
    exact ⟨p, hinitial, hargs⟩

theorem readUintKey_ok_iff :
    readUintKey cbor pos = .ok (n, q) ↔ n < 2 ^ 64 ∧ Spans cbor pos (head 0 n) q := by
  rw [spans_head_iff (by decide), readUintKey, Except.bind_eq_ok]
  simp only [Except.failIf_bind_eq_ok, Prod.exists]
  constructor
  · rintro ⟨initial, p, hinitial, hmajor, -, -, harg⟩
    obtain ⟨hn, hinfo, hargs⟩ := readArgument_ok_iff.mp harg
    exact ⟨hn, initial, p, readU8_ok_iff.mp hinitial, not_not.mp hmajor, hinfo, hargs⟩
  · rintro ⟨hn, initial, p, hinitial, hmajor, hinfo, hargs⟩
    have harg := info_lt n
    exact ⟨initial, p, readU8_ok_iff.mpr hinitial, not_not.mpr hmajor, by omega, by omega,
      readArgument_ok_iff.mpr ⟨hn, hinfo, hargs⟩⟩

end Readers

section Walkers

variable {cbor : Bytes} {pos q count key : Nat} {prevKey : Option Nat}
variable {walk : Nat → Except CanonicalError Nat} {P : Item → Prop}

theorem checkKeyOrder_ok_iff {keyOff : Nat} :
    checkKeyOrder prevKey key keyOff = .ok () ↔ ∀ p ∈ prevKey, p < key := by
  cases prevKey with
  | none => simp [checkKeyOrder]
  | some p =>
      simp only [checkKeyOrder, Option.mem_some_iff, forall_eq']
      split_ifs <;> simp <;> omega

/-- The array loop walks as many items as it was told to. -/
theorem walkArray_ok_iff
    (hwalk : ∀ pos q, walk pos = .ok q ↔ ∃ i, P i ∧ Spans cbor pos i.encode q) :
    walkArray walk count pos = .ok q ↔ ∃ xs : List Item, xs.length = count ∧ (∀ x ∈ xs, P x) ∧
      Spans cbor pos (Item.encodeList xs) q := by
  induction count generalizing pos with
  | zero =>
      rw [walkArray]
      constructor
      · intro h
        obtain rfl : pos = q := by simpa using h
        exact ⟨[], rfl, by simp, Spans.nil_iff.mpr rfl⟩
      · rintro ⟨xs, hlen, -, hspan⟩
        obtain rfl := List.length_eq_zero_iff.mp hlen
        rw [Spans.nil_iff.mp hspan]
  | succ count ih =>
      rw [walkArray, Except.bind_eq_ok]
      constructor
      · rintro ⟨p, hfirst, hrest⟩
        obtain ⟨x, hx, hxspan⟩ := (hwalk _ _).mp hfirst
        obtain ⟨xs, hlen, hxs, hspan⟩ := ih.mp hrest
        exact ⟨x :: xs, by rw [List.length_cons, hlen], List.forall_mem_cons.mpr ⟨hx, hxs⟩,
          Spans.append_iff.mpr ⟨p, hxspan, hspan⟩⟩
      · rintro ⟨xs, hlen, hxs, hspan⟩
        cases xs with
        | nil => simp at hlen
        | cons x xs =>
            obtain ⟨p, hxspan, hspan⟩ := Spans.append_iff.mp hspan
            obtain ⟨hx, hxs⟩ := List.forall_mem_cons.mp hxs
            exact ⟨p, (hwalk _ _).mpr ⟨x, hx, hxspan⟩,
              ih.mpr ⟨xs, by simpa using hlen, hxs, hspan⟩⟩

/-- The map loop walks as many entries as it was told to, with keys ascending
from the previous key on. -/
theorem walkMap_ok_iff
    (hwalk : ∀ pos q, walk pos = .ok q ↔ ∃ i, P i ∧ Spans cbor pos i.encode q) :
    walkMap cbor walk count prevKey pos = .ok q ↔ ∃ es : List (Nat × Item), es.length = count ∧
      (∀ p ∈ prevKey, ∀ e ∈ es, p < e.1) ∧ es.Pairwise (fun e e' => e.1 < e'.1) ∧
      (∀ e ∈ es, e.1 < 2 ^ 64 ∧ P e.2) ∧ Spans cbor pos (Item.encodeEntries es) q := by
  induction count generalizing pos prevKey with
  | zero =>
      rw [walkMap]
      constructor
      · intro h
        obtain rfl : pos = q := by simpa using h
        exact ⟨[], rfl, by simp, .nil, by simp, Spans.nil_iff.mpr rfl⟩
      · rintro ⟨es, hlen, -, -, -, hspan⟩
        obtain rfl := List.length_eq_zero_iff.mp hlen
        rw [Spans.nil_iff.mp hspan]
  | succ count ih =>
      rw [walkMap, Except.bind_eq_ok]
      simp only [Except.check_bind_eq_ok, checkKeyOrder_ok_iff, Prod.exists]
      constructor
      · rintro ⟨k, p, hkey, horder, hbody⟩
        obtain ⟨p', hvalue, hrest⟩ := Except.bind_eq_ok.mp hbody
        obtain ⟨hk, hkspan⟩ := readUintKey_ok_iff.mp hkey
        obtain ⟨v, hv, hvspan⟩ := (hwalk _ _).mp hvalue
        obtain ⟨es, hlen, habove, hsorted, hes, hspan⟩ := ih.mp hrest
        have hkes : ∀ e ∈ es, k < e.1 := habove k rfl
        refine ⟨(k, v) :: es, by rw [List.length_cons, hlen], ?_,
          List.pairwise_cons.mpr ⟨hkes, hsorted⟩, List.forall_mem_cons.mpr ⟨⟨hk, hv⟩, hes⟩,
          Spans.append_iff.mpr ⟨p, hkspan, Spans.append_iff.mpr ⟨p', hvspan, hspan⟩⟩⟩
        intro p₀ hp₀
        exact List.forall_mem_cons.mpr ⟨horder p₀ hp₀, fun e he =>
          Nat.lt_trans (horder p₀ hp₀) (hkes e he)⟩
      · rintro ⟨es, hlen, habove, hsorted, hes, hspan⟩
        cases es with
        | nil => simp at hlen
        | cons e es =>
            obtain ⟨k, v⟩ := e
            obtain ⟨p, hkspan, hspan⟩ := Spans.append_iff.mp hspan
            obtain ⟨p', hvspan, hspan⟩ := Spans.append_iff.mp hspan
            obtain ⟨hkes, hsorted⟩ := List.pairwise_cons.mp hsorted
            obtain ⟨⟨hk, hv⟩, hes⟩ := List.forall_mem_cons.mp hes
            refine ⟨k, p, readUintKey_ok_iff.mpr ⟨hk, hkspan⟩,
              fun p₀ hp₀ => habove p₀ hp₀ (k, v) List.mem_cons_self,
              Except.bind_eq_ok.mpr ⟨p', (hwalk _ _).mpr ⟨v, hv, hvspan⟩,
                ih.mpr ⟨es, by simpa using hlen, ?_, hsorted, hes, hspan⟩⟩⟩
            rintro _ ⟨⟩
            exact hkes

theorem majorOf_lt (initial : UInt8) : majorOf initial < 8 := by
  have := initial.toNat_lt
  rw [majorOf_eq]
  omega

section Body

variable {initial : UInt8} {p n major : Nat}

/-- After its initial byte a head goes on with the bytes of its argument. -/
theorem spans_head_at_iff (hinitial : Spans cbor pos [initial] p) (hm : major < 8) :
    Spans cbor pos (head major n) q ↔
      majorOf initial = major ∧ info n = argOf initial ∧ Spans cbor p (argBytes n) q := by
  rw [spans_head_iff hm]
  constructor
  · rintro ⟨initial', p₀, hinitial', hrest⟩
    obtain ⟨hget, rfl⟩ := Spans.singleton_iff.mp hinitial
    obtain ⟨hget', rfl⟩ := Spans.singleton_iff.mp hinitial'
    obtain rfl : initial = initial' := by simpa [hget] using hget'
    exact hrest
  · intro hrest
    exact ⟨initial, p, hinitial, hrest⟩

/-- What follows the reading of an argument is given the argument of a head of the major
type, and the position after it. -/
theorem head_bind_ok_iff {initialOff : Nat} {f : Nat × Nat → Except CanonicalError Nat}
    (hinitial : Spans cbor pos [initial] p) (hmajor : majorOf initial = major) :
    readArgument cbor p (argOf initial) initialOff >>= f = .ok q ↔
      ∃ n p', n < 2 ^ 64 ∧ Spans cbor pos (head major n) p' ∧ f (n, p') = .ok q := by
  have hm : major < 8 := hmajor ▸ majorOf_lt initial
  simp only [Except.bind_eq_ok, Prod.exists, readArgument_ok_iff, spans_head_at_iff hinitial hm,
    hmajor, true_and, and_assoc]

theorem simple_bounds_iff (h : majorOf initial = 7) :
    0xF4 ≤ initial ∧ initial ≤ 0xF7 ↔ 20 ≤ argOf initial ∧ argOf initial ≤ 23 := by
  rw [majorOf_eq] at h
  have hlow : (0xF4 : UInt8).toNat = 244 := rfl
  have hhigh : (0xF7 : UInt8).toNat = 247 := rfl
  rw [argOf_eq, UInt8.le_iff_toNat_le, UInt8.le_iff_toNat_le, hlow, hhigh]
  omega

theorem spans_simple_iff (hinitial : Spans cbor pos [initial] p) (h₂₃ : n ≤ 23) :
    Spans cbor pos (head 7 n) q ↔ majorOf initial = 7 ∧ argOf initial = n ∧ q = p := by
  have hn : n < 24 := Nat.lt_succ_of_le h₂₃
  rw [spans_head_at_iff hinitial (by decide), info_of_lt hn, argBytes_of_lt hn, Spans.nil_iff,
    eq_comm (a := n)]

section

variable {levels initialOff : Nat}

/-- After the initial byte the walker moves over the rest of a canonical item, the items
one level below being walked by `walk`. -/
theorem walkBody_sound (hinitial : Spans cbor pos [initial] p)
    (hwalk : ∀ pos q, walk pos = .ok q ↔
      ∃ i : Item, (i.Canonical ∧ i.depth < levels) ∧ Spans cbor pos i.encode q)
    (h : walkBody cbor walk initial p initialOff = .ok q) :
    ∃ i : Item, (i.Canonical ∧ i.depth < levels + 1) ∧ Spans cbor pos i.encode q := by
  have hmajor := majorOf_lt initial
  simp only [walkBody] at h
  split at h
  · rename_i hzero
    obtain ⟨n, p', hn, hhead, hq⟩ := (head_bind_ok_iff hinitial hzero).mp h
    obtain rfl : p' = q := by simpa using hq
    exact ⟨.uint n, ⟨Item.canonical_uint.mpr hn, Nat.succ_pos _⟩, hhead⟩
  · rename_i hone
    obtain ⟨n, p', hn, hhead, hq⟩ := (head_bind_ok_iff hinitial hone).mp h
    obtain rfl : p' = q := by simpa using hq
    exact ⟨.nint n, ⟨Item.canonical_nint.mpr hn, Nat.succ_pos _⟩, hhead⟩
  · rename_i htwo
    obtain ⟨n, p', hn, hhead, hskip⟩ := (head_bind_ok_iff hinitial htwo).mp h
    have hp' := hhead.le_length (List.cons_ne_nil _ _)
    obtain ⟨b, rfl, hb⟩ := (skipBytes_ok_iff hp').mp hskip
    exact ⟨.bytes b, ⟨Item.canonical_bytes.mpr hn, Nat.succ_pos _⟩,
      Spans.append_iff.mpr ⟨p', hhead, hb⟩⟩
  · rename_i hthree
    obtain ⟨n, p', hn, hhead, hskip⟩ := (head_bind_ok_iff hinitial hthree).mp h
    have hp' := hhead.le_length (List.cons_ne_nil _ _)
    obtain ⟨b, rfl, hb⟩ := (skipBytes_ok_iff hp').mp hskip
    exact ⟨.text b, ⟨Item.canonical_text.mpr hn, Nat.succ_pos _⟩,
      Spans.append_iff.mpr ⟨p', hhead, hb⟩⟩
  · rename_i hfour
    obtain ⟨count, p', hcount, hhead, hloop⟩ := (head_bind_ok_iff hinitial hfour).mp h
    obtain ⟨xs, rfl, hxs, hrest⟩ := (walkArray_ok_iff hwalk).mp hloop
    have hcanonical := Item.canonical_array.mpr ⟨hcount, fun x hx => (hxs x hx).1⟩
    have hdepth := Item.depth_array_lt.mpr fun x hx => (hxs x hx).2
    exact ⟨.array xs, ⟨hcanonical, hdepth⟩, Spans.append_iff.mpr ⟨p', hhead, hrest⟩⟩
  · rename_i hfive
    obtain ⟨count, p', hcount, hhead, hloop⟩ := (head_bind_ok_iff hinitial hfive).mp h
    obtain ⟨es, rfl, -, hsorted, hes, hrest⟩ := (walkMap_ok_iff hwalk).mp hloop
    have hcanonical := Item.canonical_map.mpr
      ⟨hcount, hsorted, fun e he => ⟨(hes e he).1, (hes e he).2.1⟩⟩
    have hdepth := Item.depth_map_lt.mpr fun e he => (hes e he).2.2
    exact ⟨.map es, ⟨hcanonical, hdepth⟩, Spans.append_iff.mpr ⟨p', hhead, hrest⟩⟩
  · obtain ⟨_, -, herror⟩ := Except.bind_eq_ok.mp h
    cases herror
  · have hseven : majorOf initial = 7 := by grind
    split_ifs at h with hsimple
    obtain rfl : p = q := by simpa using h
    obtain ⟨h₂₀, h₂₃⟩ := (simple_bounds_iff hseven).mp hsimple
    have hspan : Spans cbor pos (head 7 (argOf initial)) p :=
      (spans_simple_iff hinitial h₂₃).mpr ⟨hseven, rfl, rfl⟩
    obtain harg | harg | harg | harg : argOf initial = 20 ∨ argOf initial = 21 ∨
      argOf initial = 22 ∨ argOf initial = 23 := by omega
    · exact ⟨.bool false, ⟨rfl, Nat.succ_pos _⟩, by rwa [harg] at hspan⟩
    · exact ⟨.bool true, ⟨rfl, Nat.succ_pos _⟩, by rwa [harg] at hspan⟩
    · exact ⟨.null, ⟨rfl, Nat.succ_pos _⟩, by rwa [harg] at hspan⟩
    · exact ⟨.undefined, ⟨rfl, Nat.succ_pos _⟩, by rwa [harg] at hspan⟩

/-- After the initial byte of a canonical item the walker moves over the rest of it. -/
theorem walkBody_complete (hinitial : Spans cbor pos [initial] p)
    (hwalk : ∀ pos q, walk pos = .ok q ↔
      ∃ i : Item, (i.Canonical ∧ i.depth < levels) ∧ Spans cbor pos i.encode q)
    {i : Item} (hi : i.Canonical) (hdepth : i.depth < levels + 1)
    (hspan : Spans cbor pos i.encode q) :
    walkBody cbor walk initial p initialOff = .ok q := by
  cases i with
  | uint n =>
      have hmajor := ((spans_head_at_iff hinitial (by decide)).mp hspan).1
      simp only [walkBody, hmajor]
      exact (head_bind_ok_iff hinitial hmajor).mpr
        ⟨n, q, Item.canonical_uint.mp hi, hspan, rfl⟩
  | nint n =>
      have hmajor := ((spans_head_at_iff hinitial (by decide)).mp hspan).1
      simp only [walkBody, hmajor]
      exact (head_bind_ok_iff hinitial hmajor).mpr
        ⟨n, q, Item.canonical_nint.mp hi, hspan, rfl⟩
  | bytes b =>
      obtain ⟨p', hhead, hb⟩ := Spans.append_iff.mp hspan
      have hmajor := ((spans_head_at_iff hinitial (by decide)).mp hhead).1
      have hp' := hhead.le_length (List.cons_ne_nil _ _)
      simp only [walkBody, hmajor]
      exact (head_bind_ok_iff hinitial hmajor).mpr ⟨b.length, p', Item.canonical_bytes.mp hi,
        hhead, (skipBytes_ok_iff hp').mpr ⟨b, rfl, hb⟩⟩
  | text b =>
      obtain ⟨p', hhead, hb⟩ := Spans.append_iff.mp hspan
      have hmajor := ((spans_head_at_iff hinitial (by decide)).mp hhead).1
      have hp' := hhead.le_length (List.cons_ne_nil _ _)
      simp only [walkBody, hmajor]
      exact (head_bind_ok_iff hinitial hmajor).mpr ⟨b.length, p', Item.canonical_text.mp hi,
        hhead, (skipBytes_ok_iff hp').mpr ⟨b, rfl, hb⟩⟩
  | array xs =>
      obtain ⟨p', hhead, hrest⟩ := Spans.append_iff.mp hspan
      have hmajor := ((spans_head_at_iff hinitial (by decide)).mp hhead).1
      obtain ⟨hlen, hxs⟩ := Item.canonical_array.mp hi
      have hloop : walkArray walk xs.length p' = .ok q := (walkArray_ok_iff hwalk).mpr
        ⟨xs, rfl, fun x hx => ⟨hxs x hx, Item.depth_array_lt.mp hdepth x hx⟩, hrest⟩
      simp only [walkBody, hmajor]
      exact (head_bind_ok_iff hinitial hmajor).mpr ⟨xs.length, p', hlen, hhead, hloop⟩
  | map es =>
      obtain ⟨p', hhead, hrest⟩ := Spans.append_iff.mp hspan
      have hmajor := ((spans_head_at_iff hinitial (by decide)).mp hhead).1
      obtain ⟨hlen, hsorted, hes⟩ := Item.canonical_map.mp hi
      have hbelow : ∀ e ∈ es, e.1 < 2 ^ 64 ∧ e.2.Canonical ∧ e.2.depth < levels := fun e he =>
        ⟨(hes e he).1, (hes e he).2, Item.depth_map_lt.mp hdepth e he⟩
      have hloop : walkMap cbor walk es.length none p' = .ok q := (walkMap_ok_iff hwalk).mpr
        ⟨es, rfl, by simp, hsorted, hbelow, hrest⟩
      simp only [walkBody, hmajor]
      exact (head_bind_ok_iff hinitial hmajor).mpr ⟨es.length, p', hlen, hhead, hloop⟩
  | bool c =>
      have hn : 20 ≤ (if c then 21 else 20) ∧ (if c then 21 else 20) ≤ 23 := by
        cases c <;> decide
      obtain ⟨hmajor, harg, rfl⟩ := (spans_simple_iff hinitial hn.2).mp hspan
      simp only [walkBody, hmajor]
      exact if_pos ((simple_bounds_iff hmajor).mpr (harg ▸ hn))
  | null =>
      obtain ⟨hmajor, harg, rfl⟩ := (spans_simple_iff hinitial (by decide)).mp hspan
      simp only [walkBody, hmajor]
      exact if_pos ((simple_bounds_iff hmajor).mpr (by omega))
  | undefined =>
      obtain ⟨hmajor, harg, rfl⟩ := (spans_simple_iff hinitial (by decide)).mp hspan
      simp only [walkBody, hmajor]
      exact if_pos ((simple_bounds_iff hmajor).mpr (by omega))

end

end Body

theorem walkLevels_ok_iff {levels : Nat} :
    walkLevels cbor levels pos = .ok q ↔
      ∃ i : Item, (i.Canonical ∧ i.depth < levels) ∧ Spans cbor pos i.encode q := by
  induction levels generalizing pos q with
  | zero => simp [walkLevels]
  | succ levels ih =>
      rw [walkLevels, Except.bind_eq_ok]
      simp only [Except.failIf_bind_eq_ok, Prod.exists]
      constructor
      · rintro ⟨initial, p, hinitial, -, -, hbody⟩
        exact walkBody_sound (readU8_ok_iff.mp hinitial) (fun _ _ => ih) hbody
      · rintro ⟨i, ⟨hi, hdepth⟩, hspan⟩
        obtain ⟨major, n, rest, hm, henc⟩ := i.encode_eq_head
        obtain ⟨p', hhead, -⟩ := Spans.append_iff.mp (henc ▸ hspan)
        obtain ⟨initial, p, hinitial, -, hinfo, -⟩ := (spans_head_iff hm).mp hhead
        have harg := info_lt n
        refine ⟨initial, p, readU8_ok_iff.mpr hinitial, by omega, by omega, ?_⟩
        exact walkBody_complete hinitial (fun _ _ => ih) hi hdepth hspan

theorem walkItem_ok_iff {depth : Nat} (h : depth ≤ maxNestingDepth) :
    walkItem cbor pos depth = .ok q ↔ ∃ i : Item,
      (i.Canonical ∧ i.depth + depth ≤ maxNestingDepth) ∧ Spans cbor pos i.encode q := by
  rw [walkItem, walkLevels_ok_iff]
  have hlevels (i : Item) :
      i.depth < maxNestingDepth + 1 - depth ↔ i.depth + depth ≤ maxNestingDepth := by omega
  simp only [hlevels]

end Walkers

/-- `i` is the item that the byte string `b` stands for: `b` is its encoding,
and it belongs to the canonical profile with bounded nesting. -/
def Denotes (b : Bytes) (i : Item) : Prop :=
  i.encode = b ∧ i.Canonical ∧ i.depth ≤ maxNestingDepth

theorem Denotes.unique {b : Bytes} {i j : Item} (hi : Denotes b i) (hj : Denotes b j) : i = j :=
  Item.encode_injective hi.2.1 hj.2.1 (hi.1.trans hj.1.symm)

theorem validateCanonical_ok_iff {b : Bytes} :
    validateCanonical b = .ok () ↔ ∃ i, Denotes b i := by
  rw [validateCanonical, Except.bind_eq_ok]
  simp only [Except.failIf_eq_ok, not_not, walkItem_ok_iff (Nat.zero_le _), Nat.add_zero]
  constructor
  · rintro ⟨q, ⟨i, ⟨hi, hdepth⟩, hspan⟩, rfl⟩
    exact ⟨i, Spans.whole_iff.mp hspan, hi, hdepth⟩
  · rintro ⟨i, henc, hi, hdepth⟩
    exact ⟨b.length, ⟨i, ⟨hi, hdepth⟩, Spans.whole_iff.mpr henc⟩, rfl⟩

/-- The walker accepts exactly the canonical grammar, an accepted byte string
denotes one item, and an item is denoted by one byte string. -/
theorem validateCanonical_iff_denotes (b : Bytes) :
    (validateCanonical b = .ok () ↔ ∃ i, Denotes b i) ∧
      (∀ i j, Denotes b i → Denotes b j → i = j) ∧
      ∀ b' i, Denotes b i → Denotes b' i → b = b' :=
  ⟨validateCanonical_ok_iff, fun _ _ => Denotes.unique,
    fun _ _ h h' => h.1.symm.trans h'.1⟩

end Komms.Canonical
