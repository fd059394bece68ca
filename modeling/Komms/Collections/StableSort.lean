import Mathlib.Data.List.Sort

/-!
# Sorting by a key

`sortByKey` is the stable sort by a key: elements with the same key keep the order they
had. What it returns therefore depends on the order of the input in the ties only. If
the result is concatenated, even the ties do not matter as long as what they contribute
commutes, and that is exactly when the order of the input does not
(`flatMap_sortByKey_perm_iff`).
-/

namespace List

variable {α β κ : Type} [LinearOrder κ] {key : α → κ} {f : α → List β} {l l' : List α}

/-- The stable sort by ascending key. -/
def sortByKey (key : α → κ) (l : List α) : List α := l.insertionSort fun a b => key a ≤ key b

theorem sortByKey_perm (key : α → κ) (l : List α) : l.sortByKey key ~ l :=
  perm_insertionSort _ l

instance keyTotal : Std.Total fun a b : α => key a ≤ key b := ⟨fun a b => le_total (key a) (key b)⟩

instance keyTrans : IsTrans α fun a b => key a ≤ key b := ⟨fun _ _ _ => le_trans⟩

theorem sortByKey_sorted (key : α → κ) (l : List α) :
    (l.sortByKey key).Pairwise fun a b => key a ≤ key b :=
  pairwise_insertionSort _ l

/-- Two elements with one key that come first are placed next to each other, in the order
they had. -/
theorem sortByKey_tie {a b : α} (h : key a = key b) (l : List α) : ∃ s t,
    sortByKey key (a :: b :: l) = s ++ a :: b :: t ∧
    sortByKey key (b :: a :: l) = s ++ b :: a :: t := by
  -- the elements with a smaller key stay in front of both
  have hinsert (x y : α) (hx : key x = key a) (hy : key y = key a) (s : List α) :
      orderedInsert (fun c d => key c ≤ key d) x
          (orderedInsert (fun c d => key c ≤ key d) y s) =
        s.takeWhile (fun c => !decide (key a ≤ key c)) ++
          x :: y :: s.dropWhile (fun c => !decide (key a ≤ key c)) := by
    induction s with
    | nil => simp [hx, hy]
    | cons c s ih =>
        by_cases hc : key a ≤ key c
        · simp [hc, hx, hy]
        · simp [hc, hx, hy, ih]
  exact ⟨_, _, hinsert a b rfl h.symm _, hinsert b a h.symm rfl _⟩

/-- What elements of one key contribute does not depend on their order. -/
def TiesCommute (key : α → κ) (f : α → List β) (l : List α) : Prop :=
  ∀ a ∈ l, ∀ b ∈ l, key a = key b → f a ++ f b = f b ++ f a

/-- Moving an element over elements it commutes with. -/
theorem flatMap_append_comm {a : α} (h : ∀ b ∈ l, f a ++ f b = f b ++ f a) :
    f a ++ l.flatMap f = l.flatMap f ++ f a := by
  induction l with
  | nil => simp
  | cons b l ih =>
      obtain ⟨hb, hl⟩ := forall_mem_cons.mp h
      rw [flatMap_cons, ← append_assoc, hb, append_assoc, ih hl, append_assoc]

/-- Two sorted lists of the same elements contribute the same if ties commute. -/
theorem flatMap_eq_of_sorted (hl : l.Pairwise fun a b => key a ≤ key b)
    (hl' : l'.Pairwise fun a b => key a ≤ key b) (hperm : l ~ l') (h : TiesCommute key f l) :
    l.flatMap f = l'.flatMap f := by
  induction l generalizing l' with
  | nil => rw [nil_perm.mp hperm]
  | cons a l ih =>
      obtain ⟨s, t, rfl⟩ := append_of_mem (hperm.subset mem_cons_self)
      have hrest : l ~ s ++ t := (perm_cons a).mp (hperm.trans perm_middle)
      obtain ⟨hleast, hl⟩ := pairwise_cons.mp hl
      -- what stands in front of the least element is tied with it
      have htie : ∀ b ∈ s, f a ++ f b = f b ++ f a := by
        intro b hb
        have hmem : b ∈ l := hrest.mem_iff.mpr (mem_append_left t hb)
        have hle : key b ≤ key a := (pairwise_append.mp hl').2.2 b hb a mem_cons_self
        exact h a mem_cons_self b (mem_cons_of_mem a hmem) (le_antisymm (hleast b hmem) hle)
      have hsorted : (s ++ t).Pairwise fun a b => key a ≤ key b :=
        hl'.sublist (append_sublist_append_left s |>.mpr (sublist_cons_self a t))
      have hties : TiesCommute key f l := fun b hb c hc =>
        h b (mem_cons_of_mem a hb) c (mem_cons_of_mem a hc)
      rw [flatMap_cons, ih hl hsorted hrest hties, flatMap_append, flatMap_append, flatMap_cons,
        ← append_assoc, flatMap_append_comm htie, append_assoc]

/-- Two elements of a list can be moved to its front. -/
theorem exists_perm_cons_cons {a b : α} (ha : a ∈ l) (hb : b ∈ l) (hab : a ≠ b) :
    ∃ r, l ~ a :: b :: r := by
  obtain ⟨s, t, rfl⟩ := append_of_mem ha
  have hrest : b ∈ s ++ t := by
    rw [mem_append, mem_cons] at hb
    rw [mem_append]
    exact hb.imp_right fun hb => hb.resolve_left (Ne.symm hab)
  obtain ⟨s', t', hst⟩ := append_of_mem hrest
  refine ⟨s' ++ t', perm_middle.trans ((perm_cons a).mpr ?_)⟩
  rw [hst]
  exact perm_middle

/-- The concatenation of the sorted list does not depend on the order of the input exactly
when ties commute. -/
theorem flatMap_sortByKey_perm_iff :
    (∀ l', l' ~ l → (l'.sortByKey key).flatMap f = (l.sortByKey key).flatMap f) ↔
      TiesCommute key f l := by
  constructor
  · intro h a ha b hb hkey
    by_cases hab : a = b
    · rw [hab]
    · obtain ⟨r, hr⟩ := exists_perm_cons_cons ha hb hab
      obtain ⟨s, t, hleft, hright⟩ := sortByKey_tie hkey r
      have hswap := (h _ hr.symm).trans (h _ ((Perm.swap a b r).trans hr.symm)).symm
      rw [hleft, hright] at hswap
      simp only [flatMap_append, flatMap_cons, ← append_assoc] at hswap
      have hpair := append_cancel_right hswap
      rw [append_assoc, append_assoc] at hpair
      exact append_cancel_left hpair
  · intro h l' hperm
    have hsame : l'.sortByKey key ~ l.sortByKey key :=
      (sortByKey_perm key l').trans (hperm.trans (sortByKey_perm key l).symm)
    have hmem := ((sortByKey_perm key l').trans hperm).subset
    exact flatMap_eq_of_sorted (sortByKey_sorted key l') (sortByKey_sorted key l) hsame
      fun a ha b hb => h a (hmem ha) b (hmem hb)

end List
