import Mathlib.Algebra.GroupWithZero.Nat
import Mathlib.Data.Int.Order.Basic
import Mathlib.Data.List.DropRight

/-!
# Rust strings

`str::trim` and the decimal reading of an `i64`, on the characters of a string.
-/

namespace Str

/-- The characters with the Unicode property `White_Space`. -/
def isWhitespace (c : Char) : Bool :=
  let n := c.toNat
  (0x09 ≤ n && n ≤ 0x0D) || n == 0x20 || n == 0x85 || n == 0xA0 || n == 0x1680 ||
    (0x2000 ≤ n && n ≤ 0x200A) || n == 0x2028 || n == 0x2029 || n == 0x202F || n == 0x205F ||
    n == 0x3000

/-- Remove white space from both ends. -/
def trim (s : String) : String :=
  .ofList ((s.toList.dropWhile isWhitespace).rdropWhile isWhitespace)

/-- A string without white space is left as it is. -/
theorem trim_eq_self {s : String} (h : ∀ c ∈ s.toList, isWhitespace c = false) : trim s = s := by
  have hleft : s.toList.dropWhile isWhitespace = s.toList := by
    cases hs : s.toList with
    | nil => rfl
    | cons c cs =>
        have hc := h c (hs ▸ List.mem_cons_self)
        rw [List.dropWhile_cons_of_neg (by rw [hc]; exact Bool.false_ne_true)]
  have hright : s.toList.rdropWhile isWhitespace = s.toList := by
    refine List.rdropWhile_eq_self_iff.mpr fun hne => ?_
    rw [h _ (List.getLast_mem hne)]
    exact Bool.false_ne_true
  rw [trim, hleft, hright, String.ofList_toList]

/-- `str::strip_prefix`. -/
def stripPrefix (s p : String) : Option String :=
  (p.toList.isPrefixOf? s.toList).map .ofList

theorem trim_sublist (s : String) : (trim s).toList.Sublist s.toList := by
  rw [trim, String.toList_ofList]
  exact (List.rdropWhile_prefix _ _).sublist.trans (List.dropWhile_sublist _)

theorem stripPrefix_sublist {s p t : String} (h : stripPrefix s p = some t) :
    t.toList.Sublist s.toList := by
  obtain ⟨cs, hcs, rfl⟩ := Option.map_eq_some_iff.mp h
  rw [String.toList_ofList]
  exact List.append_eq_of_isPrefixOf?_eq_some hcs ▸ List.sublist_append_right _ _

/-- Nothing is stripped if a character of the prefix does not occur. -/
theorem stripPrefix_eq_none {s p : String} {c : Char} (hp : c ∈ p.toList) (hs : c ∉ s.toList) :
    stripPrefix s p = none := by
  cases h : stripPrefix s p with
  | none => rfl
  | some t =>
      obtain ⟨cs, hcs, -⟩ := Option.map_eq_some_iff.mp h
      rw [← List.append_eq_of_isPrefixOf?_eq_some hcs] at hs
      exact absurd (List.mem_append_left cs hp) hs

theorem stripPrefix_append (p s : String) : stripPrefix (p ++ s) p = some s := by
  have hprefix (cs l : List Char) : cs.isPrefixOf? (cs ++ l) = some l := by
    induction cs with
    | nil => rfl
    | cons c cs ih => simp [List.isPrefixOf?, ih]
  rw [stripPrefix, String.toList_append, hprefix, Option.map_some, String.ofList_toList]

/-- An ASCII byte stands for a character of its own, in whatever encoding it occurs. -/
theorem toNat_of_mem_utf8EncodeChar {c : Char} {b : UInt8} (h : b ∈ String.utf8EncodeChar c)
    (hascii : b.toNat < 0x80) : c.toNat = b.toNat := by
  have hval : c.toNat = c.val.toNat := rfl
  rw [String.utf8EncodeChar.eq_def] at h
  dsimp only at h
  split_ifs at h <;> simp only [List.mem_cons, List.not_mem_nil, or_false] at h <;>
    rcases h with rfl | rfl | rfl | rfl <;> simp only [UInt8.toNat_ofNat'] at hascii ⊢ <;> omega

def digit? (c : Char) : Option Nat :=
  if '0' ≤ c ∧ c ≤ '9' then some (c.toNat - '0'.toNat) else none

/-- The number with these decimal digits, of which there is at least one. -/
def digits? : List Char → Option Nat
  | [] => none
  | cs => cs.foldlM (fun n c => (digit? c).map (n * 10 + ·)) 0

/-- A magnitude with a sign, if it is in the range of an `i64`. -/
def signed? (negative : Bool) (n : Nat) : Option Int64 :=
  if negative then (if n ≤ 2 ^ 63 then some (.ofInt (-n)) else none)
  else if n < 2 ^ 63 then some (.ofInt n) else none

/-- `str::parse::<i64>`: an optional sign and decimal digits. -/
def parseI64 (s : String) : Option Int64 :=
  match s.toList with
  | '-' :: cs => (digits? cs).bind (signed? true)
  | '+' :: cs => (digits? cs).bind (signed? false)
  | cs => (digits? cs).bind (signed? false)

example : parseI64 "-0012" = some (-12) := by decide +kernel
example : parseI64 "9223372036854775808" = none := by decide +kernel
example : stripPrefix "0x2a" "0x" = some "2a" := by decide +kernel
example : trim " \t gateway\n" = "gateway" := by decide +kernel

end Str
