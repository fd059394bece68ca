import Mathlib.Data.List.Infix
import Mathlib.InformationTheory.Coding.UniquelyDecodable

/-!
# Prefix-free codes

A code is prefix-free when no word of it continues another one. Words of such a code
can be concatenated without separators: the first word is determined by the whole
(`PrefixFree.cancel`), and so, if no word is empty, are all of them
(`PrefixFree.uniquelyDecodable`). Words that end in a separator are such a code
(`prefixFree_terminated`).
-/

namespace Coding

open InformationTheory

variable {α : Type} {S : Set (List α)}

/-- No word continues another word. -/
def PrefixFree (S : Set (List α)) : Prop :=
  ∀ x ∈ S, ∀ y ∈ S, x <+: y → x = y

/-- The first word of a string is determined by the string. -/
theorem PrefixFree.cancel (h : PrefixFree S) {x y r s : List α} (hx : x ∈ S) (hy : y ∈ S)
    (heq : x ++ r = y ++ s) : x = y ∧ r = s := by
  have hsame : x = y := by
    rcases Nat.le_total x.length y.length with hle | hle
    · exact h x hx y hy (List.prefix_of_prefix_length_le ⟨r, heq⟩ (List.prefix_append y s) hle)
    · exact (h y hy x hx (List.prefix_of_prefix_length_le ⟨s, heq.symm⟩ (List.prefix_append x r)
        hle)).symm
  subst hsame
  exact ⟨rfl, List.append_cancel_left heq⟩

theorem PrefixFree.uniquelyDecodable (h : PrefixFree S) (hne : [] ∉ S) :
    UniquelyDecodable S := by
  have hcons {x : List α} (hx : x ∈ S) (r : List α) : x ++ r ≠ [] := by
    intro hnil
    exact hne ((List.append_eq_nil_iff.mp hnil).1 ▸ hx)
  intro L₁
  induction L₁ with
  | nil =>
      intro L₂ _ hL₂ heq
      cases L₂ with
      | nil => rfl
      | cons y L₂ => exact absurd heq.symm (hcons (hL₂ y List.mem_cons_self) _)
  | cons x L₁ ih =>
      intro L₂ hL₁ hL₂ heq
      obtain ⟨hx, hrest₁⟩ := List.forall_mem_cons.mp hL₁
      cases L₂ with
      | nil => exact absurd heq (hcons hx _)
      | cons y L₂ =>
          obtain ⟨hy, hrest₂⟩ := List.forall_mem_cons.mp hL₂
          obtain ⟨rfl, hflat⟩ := h.cancel hx hy heq
          rw [ih L₂ hrest₁ hrest₂ hflat]

/-- The words that end in the separator and have it nowhere else. -/
def Terminated (sep : α) : Set (List α) := {w | ∃ x, sep ∉ x ∧ w = x ++ [sep]}

theorem prefixFree_terminated (sep : α) : PrefixFree (Terminated sep) := by
  rintro _ ⟨x, -, rfl⟩ _ ⟨y, hy, rfl⟩ h
  rcases List.prefix_concat_iff.mp h with heq | hlt
  · exact heq
  · exact absurd (hlt.subset (List.mem_append_right x List.mem_cons_self)) hy

/-- What is before the first separator is determined by the string. -/
theorem terminated_cancel {sep : α} {x y r s : List α} (hx : sep ∉ x) (hy : sep ∉ y)
    (h : x ++ sep :: r = y ++ sep :: s) : x = y ∧ r = s := by
  rw [List.append_cons x, List.append_cons y] at h
  obtain ⟨hword, hrest⟩ := (prefixFree_terminated sep).cancel ⟨x, hx, rfl⟩ ⟨y, hy, rfl⟩ h
  exact ⟨List.append_cancel_right hword, hrest⟩

end Coding
