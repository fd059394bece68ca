import Mathlib.Data.List.Forall2

/-!
# Related lists

Rules for two lists whose entries are related one by one, as those before and after a
conversion of a tree are. They change the relation knowing that an entry is in the
list, move facts from one list to the other, and build the second list.
-/

namespace List

universe u v w

variable {α : Type u} {β : Type v} {γ : Type w} {R S : α → β → Prop}
variable {l : List α} {l' : List β}

theorem forall₂_of_mem (himp : ∀ a ∈ l, ∀ b, R a b → S a b) (h : Forall₂ R l l') :
    Forall₂ S l l' :=
  ((forall₂_and_left l l').mpr ⟨himp, h⟩).imp fun _ _ hab => hab.1 _ hab.2

theorem forall_right_of_mem {Q : β → Prop} (himp : ∀ a ∈ l, ∀ b, R a b → Q b)
    (h : Forall₂ R l l') : ∀ b ∈ l', Q b := by
  induction h with
  | nil => simp
  | cons hab _ ih =>
      obtain ⟨hhead, htail⟩ := forall_mem_cons.mp himp
      exact forall_mem_cons.mpr ⟨hhead _ hab, ih htail⟩

theorem exists_right_of_mem (h : Forall₂ R l l') {a : α} (ha : a ∈ l) : ∃ b ∈ l', R a b := by
  induction h with
  | nil => cases ha
  | @cons a' b l l' hab _ ih =>
      rcases mem_cons.mp ha with rfl | ha
      · exact ⟨b, mem_cons_self, hab⟩
      · obtain ⟨b', hb', hab'⟩ := ih ha
        exact ⟨b', mem_cons_of_mem _ hb', hab'⟩

theorem exists_forall₂ (h : ∀ a ∈ l, ∃ b, R a b) : ∃ l', Forall₂ R l l' := by
  induction l with
  | nil => exact ⟨[], .nil⟩
  | cons a l ih =>
      obtain ⟨⟨b, hb⟩, htail⟩ := forall_mem_cons.mp h
      obtain ⟨l', hl'⟩ := ih htail
      exact ⟨b :: l', .cons hb hl'⟩

/-- A third list beside two related ones, chosen pair by pair. -/
theorem exists_forall₂_beside {S : α → γ → Prop} {T : β → γ → Prop} (h : Forall₂ R l l')
    (hex : ∀ a ∈ l, ∀ b, R a b → ∃ c, S a c ∧ T b c) :
    ∃ l'', Forall₂ S l l'' ∧ Forall₂ T l' l'' := by
  induction h with
  | nil => exact ⟨[], .nil, .nil⟩
  | cons hab _ ih =>
      obtain ⟨hhead, htail⟩ := forall_mem_cons.mp hex
      obtain ⟨c, hac, hbc⟩ := hhead _ hab
      obtain ⟨l'', hl, hl'⟩ := ih htail
      exact ⟨c :: l'', .cons hac hl, .cons hbc hl'⟩

theorem map_eq_map_of_forall₂ {f : α → γ} {g : β → γ} (h : Forall₂ (fun a b => f a = g b) l l') :
    l.map f = l'.map g := by
  rw [← forall₂_eq_eq_eq, forall₂_map_left_iff, forall₂_map_right_iff]
  exact h

/-- A partial conversion that goes entry by entry succeeds with the lists whose entries it
relates. -/
theorem eq_some_iff_forall₂ {g : List α → Option (List β)} (hnil : g [] = some [])
    (hcons : ∀ a as bs, g (a :: as) = some bs ↔ ∃ b bs', R a b ∧ g as = some bs' ∧ b :: bs' = bs) :
    g l = some l' ↔ Forall₂ R l l' := by
  induction l generalizing l' with
  | nil => rw [hnil, forall₂_nil_left_iff, Option.some.injEq, eq_comm]
  | cons a as ih =>
      rw [hcons]
      constructor
      · rintro ⟨b, bs, hab, hbs, rfl⟩
        exact .cons hab (ih.mp hbs)
      · intro h
        cases h with
        | cons hab hbs => exact ⟨_, _, hab, ih.mpr hbs, rfl⟩

end List
