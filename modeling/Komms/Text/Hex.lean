import Mathlib.Data.List.Basic

/-!
# Hexadecimal digits

Two digits stand for a byte, the high half first. Bytes are written in lower case, and
digits of either case are read.
-/

namespace Hex

/-- The lower-case digit of a number below 16. -/
def digit (n : Nat) : UInt8 := if n < 10 then .ofNat (48 + n) else .ofNat (87 + n)

/-- The number of a digit of either case. -/
def value? (b : UInt8) : Option Nat :=
  let n := b.toNat
  if 48 ≤ n ∧ n ≤ 57 then some (n - 48)
  else if 65 ≤ n ∧ n ≤ 70 then some (n - 55)
  else if 97 ≤ n ∧ n ≤ 102 then some (n - 87)
  else none

def encode (b : List UInt8) : List UInt8 :=
  b.flatMap fun x => [digit (x.toNat / 16), digit (x.toNat % 16)]

def decode : List UInt8 → Option (List UInt8)
  | [] => some []
  | [_] => none
  | high :: low :: rest => do
    let h ← value? high
    let l ← value? low
    let b ← decode rest
    return .ofNat (h * 16 + l) :: b

theorem value?_digit {n : Nat} (h : n < 16) : value? (digit n) = some n := by
  revert h
  revert n
  decide

/-- What is written is read back. -/
theorem decode_encode (b : List UInt8) : decode (encode b) = some b := by
  induction b with
  | nil => rfl
  | cons x b ih =>
      have hhigh : x.toNat / 16 < 16 := by
        have hx := x.toNat_lt
        omega
      have hbyte : UInt8.ofNat (x.toNat / 16 * 16 + x.toNat % 16) = x := by
        rw [Nat.div_add_mod' x.toNat 16, UInt8.ofNat_toNat]
      have hcons : encode (x :: b) =
          digit (x.toNat / 16) :: digit (x.toNat % 16) :: encode b := rfl
      rw [hcons, decode, value?_digit hhigh, value?_digit (Nat.mod_lt _ (by decide)), ih]
      exact congrArg some (congrArg (· :: b) hbyte)

/-- Two digits make a byte. -/
theorem length_of_decode {src b : List UInt8} (h : decode src = some b) :
    src.length = 2 * b.length := by
  induction src using decode.induct generalizing b with
  | case1 =>
      obtain rfl := Option.some.inj h
      rfl
  | case2 x => cases h
  | case3 high low rest ih =>
      simp only [decode, Option.bind_eq_bind, Option.bind_eq_some_iff, Option.pure_def,
        Option.some.injEq] at h
      obtain ⟨_, -, _, -, b', hb', rfl⟩ := h
      rw [List.length_cons, List.length_cons, List.length_cons, ih hb']
      omega

end Hex
