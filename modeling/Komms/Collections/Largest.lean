import Mathlib.Algebra.BigOperators.Group.List.Basic
import Mathlib.Algebra.GroupWithZero.Nat
import Mathlib.Algebra.Order.BigOperators.Group.List

/-!
# The largest elements of a list

In a list sorted by descending weight the first elements weigh at least as much as any
other choice of as many. A search for the shortest prefix that weighs more than what its
length costs is therefore a search over all choices: what no prefix pays for, no choice
of that size pays for (`weight_le_of_prefixes`).
-/

namespace List

variable {α : Type} {w : α → Nat} {l s : List α}

/-- The list is sorted by descending weight. -/
def Descending (w : α → Nat) (l : List α) : Prop := l.Pairwise fun a b => w b ≤ w a

/-- The elements of a sublist weigh at most as much as the first ones. -/
theorem sum_le_take_of_sublist (h : Descending w l) (hs : s <+ l) :
    (s.map w).sum ≤ ((l.take s.length).map w).sum := by
  induction l generalizing s with
  | nil => rw [sublist_nil.mp hs, length_nil, take_zero]
  | cons a l ih =>
      obtain ⟨hfirst, htail⟩ := pairwise_cons.mp h
      cases s with
      | nil => exact Nat.zero_le _
      | cons b s =>
          -- the first element of the sublist weighs no more than that of the list
          have hhead : w b ≤ w a := by
            rcases mem_cons.mp (hs.subset mem_cons_self) with hb | hb
            · rw [hb]
            · exact hfirst b hb
          have hrest : s <+ l := hs.tail
          have hle := ih htail hrest
          rw [length_cons, take_succ_cons, map_cons, map_cons, sum_cons, sum_cons]
          omega

/-- So do those of any choice of elements. -/
theorem sum_le_take_of_subperm (h : Descending w l) (hs : s <+~ l) :
    (s.map w).sum ≤ ((l.take s.length).map w).sum := by
  obtain ⟨s', hperm, hsub⟩ := hs
  rw [← (hperm.map w).sum_eq, ← hperm.length_eq]
  exact sum_le_take_of_sublist h hsub

/-- If no prefix shorter than `n` weighs more than its length costs, no choice of fewer
than `n` elements does. -/
theorem weight_le_of_prefixes (cost : Nat → Nat) {n : Nat} (h : Descending w l)
    (hprefixes : ∀ m, 0 < m → m < n → ((l.take m).map w).sum ≤ cost m) (hs : s <+~ l)
    (hne : s ≠ []) (hlength : s.length < n) : (s.map w).sum ≤ cost s.length :=
  (sum_le_take_of_subperm h hs).trans (hprefixes _ (length_pos_iff.mpr hne) hlength)

/-- The elements after a prefix weigh no more than those in it. -/
theorem Descending.drop_le_take (h : Descending w l) (n : Nat) :
    ∀ a ∈ l.take n, ∀ b ∈ l.drop n, w b ≤ w a := by
  rw [Descending, ← take_append_drop n l] at h
  exact (pairwise_append.mp h).2.2

end List
