import Komms.Control.Except
import Mathlib.Data.Vector.Basic

/-!
# Self-delimiting formats

A reader takes a value off the front of a string. A format is self-delimiting when the
reader takes what was written for the value and nothing after it, so that the formats of the
fields of a record compose by concatenation, without lengths or separators between them.

A layout may get a further field at its end. If that field takes at least one symbol, the
longer layout reads no string of the shorter one (`SelfDelimiting.andThen_error`).
-/

namespace Coding

variable {σ ε α β : Type}

/-- Takes a value off the front of a string. -/
abbrev Reader (σ ε α : Type) := List σ → Except ε (α × List σ)

/-- What is written for a value is read back, and what follows it is left. -/
def SelfDelimiting (write : α → List σ) (read : Reader σ ε α) : Prop :=
  ∀ a rest, read (write a ++ rest) = .ok (a, rest)

/-- Reads two values, one after the other. -/
def Reader.andThen (first : Reader σ ε α) (second : Reader σ ε β) : Reader σ ε (α × β) :=
  fun s => do
    let (a, s) ← first s
    let (b, s) ← second s
    .ok ((a, b), s)

/-- Reads a fixed number of values. -/
def readVector (read : Reader σ ε α) : (n : Nat) → Reader σ ε (List.Vector α n)
  | 0, s => .ok (.nil, s)
  | n + 1, s => do
    let (a, s) ← read s
    let (v, s) ← readVector read n s
    .ok (a ::ᵥ v, s)

namespace SelfDelimiting

variable {write : α → List σ} {read : Reader σ ε α}

/-- The last field of a string ends with the string. -/
theorem read_write (h : SelfDelimiting write read) (a : α) : read (write a) = .ok (a, []) := by
  simpa using h a []

theorem andThen (h : SelfDelimiting write read) {write' : β → List σ} {read' : Reader σ ε β}
    (h' : SelfDelimiting write' read') :
    SelfDelimiting (fun p => write p.1 ++ write' p.2) (read.andThen read') := by
  intro p rest
  rw [List.append_assoc, Reader.andThen, h, Except.ok_bind]
  dsimp only
  rw [h', Except.ok_bind]

/-- A layout with a further field, which cannot be empty, reads nothing that was written
without the field. -/
theorem andThen_error (h : SelfDelimiting write read) {more : Reader σ ε β} {e : ε}
    (hmore : more [] = .error e) (a : α) : read.andThen more (write a) = .error e := by
  rw [Reader.andThen, h.read_write, Except.ok_bind]
  dsimp only
  rw [hmore, Except.error_bind]

theorem vector (h : SelfDelimiting write read) (n : Nat) :
    SelfDelimiting (fun v : List.Vector α n => v.1.flatMap write) (readVector read n) := by
  induction n with
  | zero =>
      rintro ⟨l, hl⟩ rest
      obtain rfl := List.length_eq_zero_iff.mp hl
      rfl
  | succ n ih =>
      intro v rest
      obtain ⟨a, v, rfl⟩ := v.exists_eq_cons
      have hflat : (a ::ᵥ v).1.flatMap write ++ rest = write a ++ (v.1.flatMap write ++ rest) := by
        rw [← List.append_assoc]
        rfl
      rw [hflat, readVector, h, Except.ok_bind]
      dsimp only
      rw [ih v rest, Except.ok_bind]

end SelfDelimiting

/-- At most `width` base-128 digits of `n`, the lowest first. A digit that another one
follows is marked. -/
def writeVarint : (width n : Nat) → List UInt8
  | 0, _ => []
  | width + 1, n =>
    if n < 128 then [UInt8.ofNat n]
    else UInt8.ofNat (n % 128 + 128) :: writeVarint width (n / 128)

/-- Reads at most `width` digits. The errors are for a string that ends too early and for a
number that has more digits. -/
def readVarint (ends long : ε) : (width : Nat) → Reader UInt8 ε Nat
  | 0, _ => .error long
  | _ + 1, [] => .error ends
  | width + 1, byte :: s =>
    if byte.toNat < 128 then .ok (byte.toNat, s)
    else do
      let (n, s) ← readVarint ends long width s
      .ok (byte.toNat - 128 + 128 * n, s)

/-- A number is read back, if it has no more digits than are read. -/
theorem readVarint_writeVarint (ends long : ε) {width n : Nat} (h : n < 128 ^ (width + 1))
    (rest : List UInt8) :
    readVarint ends long (width + 1) (writeVarint (width + 1) n ++ rest) = .ok (n, rest) := by
  induction width generalizing n with
  | zero =>
      have hsmall : n < 128 := by simpa using h
      have hbyte : (UInt8.ofNat n).toNat = n := by
        rw [UInt8.toNat_ofNat']
        omega
      rw [writeVarint, if_pos hsmall, List.singleton_append, readVarint, hbyte, if_pos hsmall]
  | succ width ih =>
      rw [writeVarint]
      split_ifs with hsmall
      · have hbyte : (UInt8.ofNat n).toNat = n := by
          rw [UInt8.toNat_ofNat']
          omega
        rw [List.singleton_append, readVarint, hbyte, if_pos hsmall]
      · have hbyte : (UInt8.ofNat (n % 128 + 128)).toNat = n % 128 + 128 := by
          rw [UInt8.toNat_ofNat']
          omega
        have hhigh : n / 128 < 128 ^ (width + 1) := by
          rw [Nat.pow_succ] at h
          omega
        rw [List.cons_append, readVarint, hbyte, if_neg (by omega), ih hhigh, Except.ok_bind]
        dsimp only
        rw [Nat.add_sub_cancel, Nat.mod_add_div]

end Coding
