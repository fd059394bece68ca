import Komms.Control.Measured
import Komms.Protocol.Locality

/-!
# How much the walker does

A head may declare up to 2^64 items, and the loops of `walk_item` run to the declared count.
They are cut short by the end of the bytes: every call of `walk_item` and of `read_uint_key`
that succeeds has read a byte of its own, so that there are no more calls than bytes, and one
(`walkItem_calls`). The counted walker is the walker with its calls counted
(`walkLevelsCalls_result`).
-/

namespace Komms.Canonical

open Cbor Measured

section Calls

variable (cbor : Bytes)

def readUintKeyCall (pos : Nat) : Measured CanonicalError (Nat × Nat) := do
  step
  free (readUintKey cbor pos)

def walkArrayCalls (walk : Nat → Measured CanonicalError Nat) :
    Nat → Nat → Measured CanonicalError Nat
  | 0, pos => pure pos
  | count + 1, pos => do
    let pos ← walk pos
    walkArrayCalls walk count pos

def walkMapCalls (walk : Nat → Measured CanonicalError Nat) :
    Nat → Option Nat → Nat → Measured CanonicalError Nat
  | 0, _, pos => pure pos
  | count + 1, prevKey, pos => do
    let keyOff := pos
    let (key, pos) ← readUintKeyCall cbor pos
    free (checkKeyOrder prevKey key keyOff)
    let pos ← walk pos
    walkMapCalls walk count (some key) pos

/-- The arms of `walkBody` that have loops; the others make no calls. -/
def walkBodyCalls (walk : Nat → Measured CanonicalError Nat) (initial : UInt8)
    (pos initialOff : Nat) : Measured CanonicalError Nat :=
  match majorOf initial with
  | 4 => do
    let (count, pos) ← free (readArgument cbor pos (argOf initial) initialOff)
    walkArrayCalls walk count pos
  | 5 => do
    let (count, pos) ← free (readArgument cbor pos (argOf initial) initialOff)
    walkMapCalls cbor walk count none pos
  | _ => free (walkBody cbor (fun pos => (walk pos).result) initial pos initialOff)

/-- One call of `walk_item`, and the calls below it. -/
def walkLevelsCalls : Nat → Nat → Measured CanonicalError Nat
  | 0, pos => do
    step
    free (.error (.nestingTooDeep pos))
  | levels + 1, pos => do
    let initialOff := pos
    step
    let (initial, pos) ← free (readU8 cbor pos)
    let arg := argOf initial
    free (.failIf (arg = 0x1F) (.indefiniteLength initialOff))
    free (.failIf (28 ≤ arg ∧ arg ≤ 30) (.reservedArgument initialOff))
    walkBodyCalls cbor (walkLevelsCalls levels) initial pos initialOff

def walkItemCalls (pos depth : Nat) : Measured CanonicalError Nat :=
  walkLevelsCalls cbor (maxNestingDepth + 1 - depth) pos

end Calls

section Result

variable {cbor : Bytes} {walk : Nat → Measured CanonicalError Nat} {pos : Nat}

theorem walkArrayCalls_result (count : Nat) :
    (walkArrayCalls walk count pos).result =
      walkArray (fun pos => (walk pos).result) count pos := by
  induction count generalizing pos with
  | zero => rfl
  | succ count ih =>
      rw [walkArrayCalls, walkArray, result_bind]
      simp only [ih]

theorem walkMapCalls_result (count : Nat) (prevKey : Option Nat) :
    (walkMapCalls cbor walk count prevKey pos).result =
      walkMap cbor (fun pos => (walk pos).result) count prevKey pos := by
  induction count generalizing pos prevKey with
  | zero => rfl
  | succ count ih =>
      simp only [walkMapCalls, walkMap, readUintKeyCall, result_bind, result_step, result_free, ih,
        Except.ok_bind]

theorem walkBodyCalls_result (initial : UInt8) (initialOff : Nat) :
    (walkBodyCalls cbor walk initial pos initialOff).result =
      walkBody cbor (fun pos => (walk pos).result) initial pos initialOff := by
  rw [walkBodyCalls]
  split
  case h_1 hmajor =>
    simp only [walkBody, hmajor, result_bind, result_free, walkArrayCalls_result]
  case h_2 hmajor =>
    simp only [walkBody, hmajor, result_bind, result_free, walkMapCalls_result]
  case h_3 => rfl

/-- Counting the calls does not change the walk. -/
theorem walkLevelsCalls_result (levels : Nat) :
    (walkLevelsCalls cbor levels pos).result = walkLevels cbor levels pos := by
  induction levels generalizing pos with
  | zero => rfl
  | succ levels ih =>
      have hwalk : (fun pos => (walkLevelsCalls cbor levels pos).result) =
          walkLevels cbor levels := funext fun _ => ih
      simp only [walkLevelsCalls, walkLevels, result_bind, result_step, result_free,
        walkBodyCalls_result, hwalk, Except.ok_bind]

end Result

/-- What is left of the bytes. -/
def bytesLeft (cbor : Bytes) (pos : Nat) : Nat := cbor.length - pos

section Paid

variable {cbor : Bytes} {walk : Nat → Measured CanonicalError Nat} {pos q : Nat}

theorem bytesLeft_le (h : pos ≤ q) : bytesLeft cbor q ≤ bytesLeft cbor pos :=
  Nat.sub_le_sub_left h cbor.length

theorem bytesLeft_lt {b : Bytes} (h : Spans cbor pos b q) (hb : b ≠ []) :
    bytesLeft cbor q < bytesLeft cbor pos := by
  have hq := h.2
  have hle := h.le_length hb
  have hpos := List.length_pos_iff.mpr hb
  rw [bytesLeft, bytesLeft]
  omega

theorem le_of_readArgument {arg initialOff n : Nat}
    (h : readArgument cbor pos arg initialOff = .ok (n, q)) : pos ≤ q := by
  obtain ⟨-, -, hspan⟩ := readArgument_ok_iff.mp h
  rw [hspan.2]
  exact Nat.le_add_right _ _

theorem le_of_skipBytes {n : Nat} (h : skipBytes cbor pos n = .ok q) : pos ≤ q := by
  rw [skipBytes] at h
  split_ifs at h
  cases h
  exact Nat.le_add_right _ _

/-- The arms without loops go forward. -/
theorem le_of_walkBody {walk : Nat → Except CanonicalError Nat} {initial : UInt8}
    {initialOff : Nat} (harray : majorOf initial ≠ 4) (hmap : majorOf initial ≠ 5)
    (h : walkBody cbor walk initial pos initialOff = .ok q) : pos ≤ q := by
  simp only [walkBody] at h
  split at h
  case h_1 | h_2 =>
    obtain ⟨⟨n, p⟩, harg, hp⟩ := Except.bind_eq_ok.mp h
    cases hp
    exact le_of_readArgument harg
  case h_3 | h_4 =>
    obtain ⟨⟨n, p⟩, harg, hskip⟩ := Except.bind_eq_ok.mp h
    exact (le_of_readArgument harg).trans (le_of_skipBytes hskip)
  case h_5 harray' => exact absurd harray' harray
  case h_6 hmap' => exact absurd hmap' hmap
  case h_7 =>
    obtain ⟨_, -, herror⟩ := Except.bind_eq_ok.mp h
    cases herror
  case h_8 =>
    split_ifs at h
    cases h
    exact Nat.le_refl _

theorem readUintKeyCall_paid : Paid (bytesLeft cbor pos) (fun r => bytesLeft cbor r.2)
    (readUintKeyCall cbor pos) := by
  refine Paid.step_bind fun r hr => ?_
  obtain ⟨-, hspan⟩ := readUintKey_ok_iff.mp hr
  exact bytesLeft_lt hspan (List.cons_ne_nil _ _)

section Loops

variable (hwalk : ∀ pos, Paid (bytesLeft cbor pos) (bytesLeft cbor) (walk pos))
include hwalk

theorem walkArrayCalls_paid (count : Nat) :
    Paid (bytesLeft cbor pos) (bytesLeft cbor) (walkArrayCalls walk count pos) := by
  induction count generalizing pos with
  | zero => exact Paid.pure (Nat.le_refl _)
  | succ count ih => exact (hwalk pos).bind fun _ _ => ih

theorem walkMapCalls_paid (count : Nat) (prevKey : Option Nat) :
    Paid (bytesLeft cbor pos) (bytesLeft cbor) (walkMapCalls cbor walk count prevKey pos) := by
  induction count generalizing pos prevKey with
  | zero => exact Paid.pure (Nat.le_refl _)
  | succ count ih =>
      refine readUintKeyCall_paid.bind fun r _ => ?_
      exact Paid.free_bind fun _ => (hwalk r.2).bind fun _ _ => ih _

theorem walkBodyCalls_paid (initial : UInt8) (initialOff : Nat) :
    Paid (bytesLeft cbor pos) (bytesLeft cbor)
      (walkBodyCalls cbor walk initial pos initialOff) := by
  have hargument : Paid (bytesLeft cbor pos) (fun r => bytesLeft cbor r.2)
      (free (readArgument cbor pos (argOf initial) initialOff)) :=
    Paid.free fun r hr => bytesLeft_le (le_of_readArgument hr)
  rw [walkBodyCalls]
  split
  case h_1 => exact hargument.bind fun _ _ => walkArrayCalls_paid hwalk _
  case h_2 => exact hargument.bind fun _ _ => walkMapCalls_paid hwalk _ _
  case h_3 harray hmap => exact Paid.free fun q hq => bytesLeft_le (le_of_walkBody harray hmap hq)

end Loops

/-- A call is paid for by the initial byte that it reads. -/
theorem walkLevelsCalls_paid (levels pos : Nat) :
    Paid (bytesLeft cbor pos) (bytesLeft cbor) (walkLevelsCalls cbor levels pos) := by
  induction levels generalizing pos with
  | zero => exact Paid.step_bind fun _ h => by cases h
  | succ levels ih =>
      have hbyte : ∀ r, readU8 cbor pos = .ok r → bytesLeft cbor r.2 < bytesLeft cbor pos :=
        fun r hr => bytesLeft_lt (readU8_ok_iff.mp hr) (List.cons_ne_nil _ _)
      refine Paid.step_then hbyte fun r _ => ?_
      exact Paid.free_bind fun _ => Paid.free_bind fun _ => walkBodyCalls_paid ih _ _

/-- A walk is the result of the counted one. The calls it makes do not exceed the bytes that it
moves over, and if it fails, the bytes that are left by more than one. -/
theorem walkItem_calls (cbor : Bytes) (pos depth : Nat) :
    (walkItemCalls cbor pos depth).result = walkItem cbor pos depth ∧
      (∀ q, walkItem cbor pos depth = .ok q → (walkItemCalls cbor pos depth).steps ≤ q - pos) ∧
      (walkItemCalls cbor pos depth).steps ≤ cbor.length - pos + 1 := by
  have hresult : (walkItemCalls cbor pos depth).result = walkItem cbor pos depth :=
    walkLevelsCalls_result _
  have hpaid := @walkLevelsCalls_paid cbor (maxNestingDepth + 1 - depth) pos
  refine ⟨hresult, fun q hq => ?_, hpaid.steps_le⟩
  have hsteps := hpaid.steps_add_le (hresult.trans hq)
  obtain ⟨hpos, hle⟩ := walkItem_progress hq
  rw [bytesLeft, bytesLeft] at hsteps
  change (walkItemCalls cbor pos depth).steps + (cbor.length - q) ≤ cbor.length - pos at hsteps
  omega

/-- An array that declares 2^64 - 1 items, with one of them there. -/
example : (walkItemCalls [0x9B, 0xFF, 0xFF, 0xFF, 0xFF, 0xFF, 0xFF, 0xFF, 0xFF, 0x00] 0 0).steps =
    3 := by decide +kernel

end Paid

end Komms.Canonical
