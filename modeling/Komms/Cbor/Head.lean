import Mathlib.Data.List.Induction
import Mathlib.Tactic.Ring

/-!
# Heads of CBOR data items

Every CBOR data item starts with a head: an initial byte holding the major type
and the additional information, followed by zero, one, two, four or eight bytes
of argument. `head` writes the shortest head of an argument and `readHead`
reads a head of any width back.

`Spans` locates bytes inside a larger buffer. It is the postcondition of every
function that moves a cursor over a fixed buffer, and it composes by `append`.
-/

namespace Cbor

abbrev Bytes := List UInt8

/-- The `width` low base-256 digits of `n`, most significant first. -/
def beBytes : Nat → Nat → Bytes
  | 0, _ => []
  | width + 1, n => beBytes width (n / 256) ++ [UInt8.ofNat n]

/-- The number whose base-256 digits are `b`, most significant first. -/
def beNat (b : Bytes) : Nat := b.foldl (fun acc byte => acc * 256 + byte.toNat) 0

@[simp] theorem length_beBytes (width n : Nat) : (beBytes width n).length = width := by
  induction width generalizing n with
  | zero => rfl
  | succ width ih => simp [beBytes, ih]

theorem beNat_concat (b : Bytes) (byte : UInt8) :
    beNat (b ++ [byte]) = beNat b * 256 + byte.toNat := by
  simp [beNat, List.foldl_append]

theorem beNat_lt (b : Bytes) : beNat b < 256 ^ b.length := by
  induction b using List.reverseRecOn with
  | nil => simp [beNat]
  | append_singleton b byte ih =>
      have hbyte := byte.toNat_lt
      rw [beNat_concat, List.length_append, List.length_singleton, Nat.pow_succ]
      omega

theorem beNat_beBytes {width n : Nat} (h : n < 256 ^ width) : beNat (beBytes width n) = n := by
  induction width generalizing n with
  | zero =>
      have : n = 0 := by simpa using h
      simp [beBytes, beNat, this]
  | succ width ih =>
      have hhigh : n / 256 < 256 ^ width := by
        rw [Nat.pow_succ] at h
        omega
      rw [beBytes, beNat_concat, ih hhigh, UInt8.toNat_ofNat']
      omega

theorem beBytes_beNat (b : Bytes) : beBytes b.length (beNat b) = b := by
  induction b using List.reverseRecOn with
  | nil => rfl
  | append_singleton b byte ih =>
      have hbyte := byte.toNat_lt
      have hhigh : (beNat b * 256 + byte.toNat) / 256 = beNat b := by omega
      have hlow : UInt8.ofNat (beNat b * 256 + byte.toNat) = byte := by
        apply UInt8.toNat_inj.mp
        rw [UInt8.toNat_ofNat']
        omega
      rw [beNat_concat, List.length_append, List.length_singleton, beBytes, hhigh, hlow, ih]

/-- The bytes of a 64-bit integer determine it. -/
theorem beBytes_toNat_inj {n m : UInt64} : beBytes 8 n.toNat = beBytes 8 m.toNat ↔ n = m := by
  constructor
  · intro h
    have hnat := congrArg beNat h
    rw [beNat_beBytes n.toNat_lt, beNat_beBytes m.toNat_lt] at hnat
    exact UInt64.toNat_inj.mp hnat
  · rintro rfl
    rfl

/-- Additional information of the shortest head with argument `n`. -/
def info (n : Nat) : Nat :=
  if n < 24 then n
  else if n < 2 ^ 8 then 24
  else if n < 2 ^ 16 then 25
  else if n < 2 ^ 32 then 26
  else 27

/-- Number of argument bytes announced by additional information `i`. -/
def argWidth (i : Nat) : Nat :=
  if i = 24 then 1 else if i = 25 then 2 else if i = 26 then 4 else if i = 27 then 8 else 0

/-- Argument bytes of the shortest head with argument `n`. -/
def argBytes (n : Nat) : Bytes := beBytes (argWidth (info n)) n

def initialByte (major info : Nat) : UInt8 := UInt8.ofNat (major * 32 + info)

/-- The shortest head of major type `major` with argument `n`. -/
def head (major n : Nat) : Bytes := initialByte major (info n) :: argBytes n

theorem info_lt (n : Nat) : info n < 28 := by
  rw [info]
  split_ifs <;> omega

theorem info_of_lt {n : Nat} (h : n < 24) : info n = n := if_pos h

theorem argWidth_of_lt {i : Nat} (h : i < 24) : argWidth i = 0 := by
  rw [argWidth]
  split_ifs <;> omega

/-- A small argument is in the initial byte and has no bytes of its own. -/
theorem argBytes_of_lt {n : Nat} (h : n < 24) : argBytes n = [] := by
  rw [argBytes, info_of_lt h, argWidth_of_lt h, beBytes]

@[simp] theorem head_length_pos (major n : Nat) : 0 < (head major n).length := by simp [head]

theorem initialByte_toNat {major info : Nat} (hm : major < 8) (hi : info < 32) :
    (initialByte major info).toNat = major * 32 + info := by
  rw [initialByte, UInt8.toNat_ofNat']
  omega

/-- An argument of at most 64 bits is recovered from the bytes of its head. -/
theorem beNat_argBytes {n : Nat} (hn : n < 2 ^ 64) (h : 24 ≤ n) : beNat (argBytes n) = n := by
  apply beNat_beBytes
  rw [info, argWidth]
  split_ifs <;> omega

/-- Read a head: its major type, its argument and the bytes after it. Arguments
wider than necessary are read as well. -/
def readHead : Bytes → Option (Nat × Nat × Bytes)
  | [] => none
  | initial :: rest =>
    let major := initial.toNat / 32
    let i := initial.toNat % 32
    if i < 24 then some (major, i, rest)
    else if i < 28 ∧ argWidth i ≤ rest.length then
      some (major, beNat (rest.take (argWidth i)), rest.drop (argWidth i))
    else none

theorem readHead_head {major n : Nat} (hm : major < 8) (hn : n < 2 ^ 64) (rest : Bytes) :
    readHead (head major n ++ rest) = some (major, n, rest) := by
  have hi := info_lt n
  have hbyte := initialByte_toNat hm (Nat.lt_trans hi (by decide : 28 < 32))
  have hmajor : (major * 32 + info n) / 32 = major := by omega
  have hinfo : (major * 32 + info n) % 32 = info n := by omega
  simp only [head, List.cons_append, readHead, hbyte, hmajor, hinfo]
  by_cases h : n < 24
  · simp [info_of_lt h, argBytes_of_lt h, h]
  · have hlarge : ¬ info n < 24 := by
      rw [info]
      split_ifs <;> omega
    have hlen : (argBytes n).length = argWidth (info n) := length_beBytes _ _
    rw [if_neg hlarge, if_pos ⟨hi, by simp [hlen]⟩, List.take_left' hlen, List.drop_left' hlen,
      beNat_argBytes hn (Nat.le_of_not_lt h)]

theorem readHead_cons_major {initial : UInt8} {b rest : Bytes} {major n : Nat}
    (h : readHead (initial :: b) = some (major, n, rest)) : major = initial.toNat / 32 := by
  simp only [readHead] at h
  split_ifs at h
  · exact (congrArg Prod.fst (Option.some.inj h)).symm
  · exact (congrArg Prod.fst (Option.some.inj h)).symm

/-- The bytes `b` lie in `buf` from offset `p` to offset `q`. -/
def Spans (buf : Bytes) (p : Nat) (b : Bytes) (q : Nat) : Prop :=
  b <+: buf.drop p ∧ q = p + b.length

namespace Spans

variable {buf b c : Bytes} {p q : Nat}

@[simp] theorem nil_iff : Spans buf p [] q ↔ q = p := by simp [Spans]

theorem append_iff : Spans buf p (b ++ c) q ↔ ∃ m, Spans buf p b m ∧ Spans buf m c q := by
  constructor
  · rintro ⟨⟨t, ht⟩, rfl⟩
    refine ⟨p + b.length, ⟨⟨c ++ t, by rw [← List.append_assoc, ht]⟩, rfl⟩, ⟨t, ?_⟩, ?_⟩
    · rw [← List.drop_drop, ← ht, List.append_assoc, List.drop_left]
    · rw [List.length_append, Nat.add_assoc]
  · rintro ⟨m, ⟨⟨t, ht⟩, rfl⟩, ⟨⟨t', ht'⟩, rfl⟩⟩
    refine ⟨⟨t', ?_⟩, by rw [List.length_append, Nat.add_assoc]⟩
    rw [← List.drop_drop, ← ht, List.drop_left] at ht'
    rw [List.append_assoc, ht', ht]

theorem singleton_iff {x : UInt8} : Spans buf p [x] q ↔ buf[p]? = some x ∧ q = p + 1 := by
  simp only [Spans, List.length_singleton, and_congr_left_iff]
  rintro -
  rw [← List.head?_drop]
  constructor
  · rintro ⟨t, ht⟩
    rw [← ht]
    rfl
  · intro h
    obtain ⟨t, ht⟩ := List.head?_eq_some_iff.mp h
    exact ⟨t, ht.symm⟩

theorem take_drop {n : Nat} (h : p + n ≤ buf.length) :
    Spans buf p ((buf.drop p).take n) (p + n) := by
  refine ⟨List.take_prefix _ _, ?_⟩
  rw [List.length_take, List.length_drop]
  omega

theorem le_length (h : Spans buf p b q) (hb : b ≠ []) : q ≤ buf.length := by
  obtain ⟨hpre, rfl⟩ := h
  have hle := hpre.length_le
  have hpos := List.length_pos_iff.mpr hb
  rw [List.length_drop] at hle
  omega

/-- Two byte strings between the same offsets are equal. -/
theorem unique (h : Spans buf p b q) (h' : Spans buf p c q) : b = c := by
  obtain ⟨hb, rfl⟩ := h
  obtain ⟨hc, hlen⟩ := h'
  exact (List.prefix_of_prefix_length_le hb hc (by omega)).eq_of_length (by omega)

theorem whole_iff : Spans buf 0 b buf.length ↔ b = buf := by
  simp only [Spans, List.drop_zero, Nat.zero_add]
  constructor
  · rintro ⟨hpre, hlen⟩
    exact hpre.eq_of_length hlen.symm
  · rintro rfl
    exact ⟨List.prefix_refl _, rfl⟩

/-- Where a span of `n` bytes starts, the buffer's next `n` bytes are those bytes. -/
theorem eq_take_drop (h : Spans buf p b q) : (buf.drop p).take b.length = b := by
  obtain ⟨⟨t, ht⟩, -⟩ := h
  rw [← ht, List.take_left]

/-- What spans two offsets depends on the bytes between them only. -/
theorem congr {buf' : Bytes} (h : Spans buf p b q)
    (hagree : ∀ k, p ≤ k → k < q → buf'[k]? = buf[k]?) : Spans buf' p b q := by
  obtain ⟨hpre, rfl⟩ := h
  refine ⟨List.prefix_iff_getElem?.mpr fun j hj => ?_, rfl⟩
  have hbyte := List.prefix_iff_getElem?.mp hpre j hj
  rw [List.getElem?_drop] at hbyte ⊢
  rw [hagree (p + j) (Nat.le_add_right p j) (Nat.add_lt_add_left hj p), hbyte]

end Spans

end Cbor
