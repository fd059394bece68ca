import Mathlib.Data.List.Nodup

/-!
# Reading a list in pages

A page has at least `m` elements, or all that are left. It starts at the element whose key
was the last one of the page before, so that pages overlap in one element, and the list may
grow at its end between two pages. What has been read is a prefix of the list at any time,
and a page makes it longer by `m - 1` elements unless it reaches the end (`IsPage.step`).
-/

namespace List

variable {α κ : Type} {key : α → κ} {m n : Nat} {l l' page : List α} {low : Option κ}

/-- A page of the list from the element with the key `low`, or from its first element. -/
structure IsPage (key : α → κ) (m : Nat) (l : List α) (low : Option κ) (page : List α) : Prop where
  first : ∀ k, low = some k → page.head?.map key = some k
  part : ∃ before after, l = before ++ page ++ after ∧ (low = none → before = []) ∧
    (m ≤ page.length ∨ after = [])

/-- The key at which the page after the first `n` elements starts. -/
def resume (key : α → κ) (l : List α) (n : Nat) : Option κ := (l.take n).getLast?.map key

theorem resume_succ (h : n < l.length) : resume key l (n + 1) = some (key l[n]) := by
  rw [resume, take_succ_eq_append_getElem h, getLast?_concat, Option.map_some]

/-- Elements with different keys are found at one place. -/
theorem eq_length_of_getElem {before : List α} {a : α} {rest : List α}
    (hnodup : (l.map key).Nodup) (hl : l = before ++ a :: rest) (hn : n < l.length)
    (ha : key a = key l[n]) : before.length = n := by
  have hbefore : before.length < l.length := by
    rw [hl, length_append, length_cons]
    omega
  have hfound : l[before.length] = a := by
    simp only [hl, getElem_append_right (Nat.le_refl _), Nat.sub_self, getElem_cons_zero]
  have hsame : l[before.length] = l[n] :=
    inj_on_of_nodup_map hnodup (getElem_mem hbefore) (getElem_mem hn) (by rw [hfound, ha])
  exact (Nodup.of_map key hnodup).getElem_inj_iff.mp hsame

/-- The next page continues the prefix that has been read. -/
theorem IsPage.step (h : IsPage key m l' (resume key l n) page) (hl : l <+: l')
    (hn : n ≤ l.length) (hm : 0 < m) (hne : l' ≠ []) (hnodup : (l'.map key).Nodup) :
    page ≠ [] ∧ ∃ n', n ≤ n' ∧ n' ≤ l'.length ∧ l'.take (n - 1) ++ page = l'.take n' ∧
      (n - 1 + m ≤ n' ∨ n' = l'.length) ∧ page.getLast?.map key = resume key l' n' := by
  obtain ⟨before, after, heq, hstart, hlong⟩ := h.part
  -- the page starts where the prefix ends
  have hbefore : before.length = n - 1 ∧ page ≠ [] := by
    cases n with
    | zero =>
        obtain rfl := hstart rfl
        refine ⟨rfl, ?_⟩
        rintro rfl
        rcases hlong with hlong | rfl
        · exact absurd hm (Nat.not_lt.mpr hlong)
        · exact hne heq
    | succ n =>
        have hfirst := h.first _ (resume_succ hn)
        cases page with
        | nil => cases hfirst
        | cons a rest =>
            have hn' : n < l'.length := Nat.lt_of_lt_of_le hn hl.length_le
            have ha : key a = key l'[n] := by
              rw [← hl.getElem hn]
              exact Option.some.inj hfirst
            rw [append_assoc, cons_append] at heq
            exact ⟨eq_length_of_getElem hnodup heq hn' ha, cons_ne_nil a rest⟩
  obtain ⟨hlength, hpage⟩ := hbefore
  have htake : l'.take (n - 1) ++ page = l'.take (n - 1 + page.length) := by
    rw [heq, ← hlength, append_assoc, take_left, ← append_assoc, ← length_append, take_left]
  have hpos := length_pos_iff.mpr hpage
  have htotal : l'.length = n - 1 + page.length + after.length := by
    rw [heq, length_append, length_append, hlength]
  refine ⟨hpage, n - 1 + page.length, by omega, by omega, htake, ?_, ?_⟩
  · rcases hlong with hlong | rfl
    · omega
    · rw [length_nil] at htotal
      omega
  · rw [resume, ← htake, getLast?_append_of_ne_nil _ hpage]

end List
