import Mathlib.Order.Lattice
import Mathlib.Data.List.Basic
import Mathlib.Tactic.Order

/-!
# Ordered maps as strictly sorted association lists

A `SortedMap` is the list of its entries in ascending key order, together with
the proof that the keys are strictly ascending. Iterating over the map is
reading `entries`, and two maps with the same lookups are equal (`ext_get?`).
-/

universe u v

variable {κ : Type u} {α : Type v} [LinearOrder κ]

structure SortedMap (κ : Type u) (α : Type v) [LinearOrder κ] where
  entries : List (κ × α)
  sorted : entries.Pairwise fun e e' => e.1 < e'.1

namespace SortedMap

/-- The value of a key. -/
def get? (m : SortedMap κ α) (k : κ) : Option α := m.entries.lookup k

def empty : SortedMap κ α := ⟨[], List.Pairwise.nil⟩

instance : Inhabited (SortedMap κ α) := ⟨empty⟩

/-- Insert into a sorted list, replacing an entry with the same key. -/
def insertEntry (k : κ) (a : α) : List (κ × α) → List (κ × α)
  | [] => [(k, a)]
  | (k', a') :: es =>
    if k < k' then (k, a) :: (k', a') :: es
    else if k = k' then (k, a) :: es
    else (k', a') :: insertEntry k a es

theorem mem_insertEntry {k : κ} {a : α} {es : List (κ × α)} {e : κ × α}
    (h : e ∈ insertEntry k a es) : e = (k, a) ∨ e ∈ es := by
  induction es with
  | nil => simpa [insertEntry] using h
  | cons e' es ih =>
      rw [insertEntry] at h
      split_ifs at h <;> simp only [List.mem_cons] at h ⊢ <;> tauto

theorem insertEntry_sorted {k : κ} {a : α} {es : List (κ × α)}
    (h : es.Pairwise fun e e' => e.1 < e'.1) :
    (insertEntry k a es).Pairwise fun e e' => e.1 < e'.1 := by
  induction es with
  | nil => simp [insertEntry]
  | cons e' es ih =>
      obtain ⟨hhead, htail⟩ := List.pairwise_cons.mp h
      rw [insertEntry]
      split_ifs with hlt heq
      · refine List.pairwise_cons.mpr ⟨?_, h⟩
        intro e he
        rcases List.mem_cons.mp he with rfl | he
        · exact hlt
        · exact lt_trans hlt (hhead e he)
      · subst heq
        exact List.pairwise_cons.mpr ⟨hhead, htail⟩
      · refine List.pairwise_cons.mpr ⟨?_, ih htail⟩
        intro e he
        rcases mem_insertEntry he with rfl | he
        · exact lt_of_le_of_ne (not_lt.mp hlt) (Ne.symm heq)
        · exact hhead e he

def insert (m : SortedMap κ α) (k : κ) (a : α) : SortedMap κ α :=
  ⟨insertEntry k a m.entries, insertEntry_sorted m.sorted⟩

def remove (m : SortedMap κ α) (k : κ) : SortedMap κ α :=
  ⟨m.entries.filter fun e => e.1 ≠ k, m.sorted.filter _⟩

/-- The entries whose keys are at least `low`. -/
def atLeast (m : SortedMap κ α) (low : κ) : SortedMap κ α :=
  ⟨m.entries.filter fun e => low ≤ e.1, m.sorted.filter _⟩

/-- The entries whose keys are below `high`. -/
def below (m : SortedMap κ α) (high : κ) : SortedMap κ α :=
  ⟨m.entries.filter fun e => e.1 < high, m.sorted.filter _⟩

def removeAll (m : SortedMap κ α) (ks : List κ) : SortedMap κ α := ks.foldl remove m

theorem lookup_cons_ite {es : List (κ × α)} {k k' : κ} {a : α} :
    ((k', a) :: es).lookup k = if k = k' then some a else es.lookup k := by
  rw [List.lookup_cons]
  by_cases hk : k = k'
  · simp [hk]
  · have hbeq : (k == k') = false := beq_false_of_ne hk
    simp [hk, hbeq]

/-- In a sorted list the lookup of a key finds exactly the entry that is there. -/
theorem lookup_eq_some_iff_mem {es : List (κ × α)} (h : es.Pairwise fun e e' => e.1 < e'.1)
    {k : κ} {a : α} : es.lookup k = some a ↔ (k, a) ∈ es := by
  induction es with
  | nil => simp
  | cons e es ih =>
      obtain ⟨k', a'⟩ := e
      obtain ⟨hhead, htail⟩ := List.pairwise_cons.mp h
      rw [lookup_cons_ite, List.mem_cons, Prod.mk.injEq]
      by_cases hk : k = k'
      · subst hk
        have hnot : (k, a) ∉ es := fun hmem => lt_irrefl k (hhead _ hmem)
        simp [hnot, eq_comm]
      · simp [hk, ih htail]

variable {m m' : SortedMap κ α} {k k' low high : κ} {a : α}

theorem get?_eq_some_iff : m.get? k = some a ↔ (k, a) ∈ m.entries :=
  lookup_eq_some_iff_mem m.sorted

@[simp] theorem get?_empty : (empty : SortedMap κ α).get? k = none := rfl

theorem lookup_insertEntry {es : List (κ × α)} :
    (insertEntry k a es).lookup k' = if k' = k then some a else es.lookup k' := by
  induction es with
  | nil => simp [insertEntry, lookup_cons_ite]
  | cons e es ih =>
      obtain ⟨k₀, a₀⟩ := e
      rw [insertEntry]
      by_cases hk : k' = k
      · subst hk
        split_ifs with hlt heq <;> simp_all [lookup_cons_ite]
      · split_ifs with hlt heq <;> simp_all [lookup_cons_ite]

@[simp] theorem get?_insert :
    (m.insert k a).get? k' = if k' = k then some a else m.get? k' := lookup_insertEntry

theorem lookup_filter (p : κ → Prop) [DecidablePred p] (es : List (κ × α)) :
    (es.filter fun e => p e.1).lookup k = if p k then es.lookup k else none := by
  induction es with
  | nil => simp
  | cons e es ih =>
      obtain ⟨k₀, a₀⟩ := e
      by_cases hp : p k₀
      · rw [List.filter_cons_of_pos (by simpa using hp), lookup_cons_ite, lookup_cons_ite, ih]
        by_cases hk : k = k₀
        · subst hk
          simp [hp]
        · simp [hk]
      · rw [List.filter_cons_of_neg (by simpa using hp), ih, lookup_cons_ite]
        by_cases hk : k = k₀
        · subst hk
          simp [hp]
        · simp [hk]

@[simp] theorem get?_remove :
    (m.remove k).get? k' = if k' = k then none else m.get? k' := by
  rw [remove, get?, lookup_filter (fun x => x ≠ k), ite_not]
  rfl

theorem get?_remove_of_ne (h : k' ≠ k) : (m.remove k).get? k' = m.get? k' := by
  rw [get?_remove, if_neg h]

@[simp] theorem get?_atLeast :
    (m.atLeast low).get? k = if low ≤ k then m.get? k else none :=
  lookup_filter (fun x => low ≤ x) m.entries

@[simp] theorem get?_below :
    (m.below high).get? k = if k < high then m.get? k else none :=
  lookup_filter (fun x => x < high) m.entries

theorem get?_removeAll {ks : List κ} :
    (m.removeAll ks).get? k = if k ∈ ks then none else m.get? k := by
  induction ks generalizing m with
  | nil => simp [removeAll]
  | cons k' ks ih =>
      rw [removeAll, List.foldl_cons, ← removeAll, ih, get?_remove]
      by_cases hk : k = k' <;> simp [hk]

theorem removeAll_append {ks ks' : List κ} :
    m.removeAll (ks ++ ks') = (m.removeAll ks).removeAll ks' := List.foldl_append

theorem mem_keys_iff {k : κ} : k ∈ m.entries.map Prod.fst ↔ m.get? k ≠ none := by
  rw [Option.ne_none_iff_exists', List.mem_map]
  constructor
  · intro h
    obtain ⟨⟨k, a⟩, hmem, rfl⟩ := h
    exact ⟨a, get?_eq_some_iff.mpr hmem⟩
  · intro h
    obtain ⟨a, ha⟩ := h
    exact ⟨(k, a), get?_eq_some_iff.mp ha, rfl⟩

theorem nodup_of_sorted {es : List (κ × α)} (h : es.Pairwise fun e e' => e.1 < e'.1) :
    es.Nodup := by
  apply h.imp
  intro e e' hlt heq
  subst heq
  exact lt_irrefl e.1 hlt

theorem entries_eq_of_mem_iff {es es' : List (κ × α)}
    (h : es.Pairwise fun e e' => e.1 < e'.1) (h' : es'.Pairwise fun e e' => e.1 < e'.1)
    (hmem : ∀ e, e ∈ es ↔ e ∈ es') : es = es' := by
  have hperm := (List.perm_ext_iff_of_nodup (nodup_of_sorted h) (nodup_of_sorted h')).mpr hmem
  refine List.Perm.eq_of_pairwise ?_ h h' hperm
  intro a b _ _ hab hba
  exact absurd hba (lt_asymm hab)

theorem eq_of_entries (h : m.entries = m'.entries) : m = m' := by
  cases m
  cases m'
  simpa using h

/-- Maps with the same lookups are equal. -/
@[ext]
theorem ext_get? (h : ∀ k, m.get? k = m'.get? k) : m = m' := by
  apply eq_of_entries
  apply entries_eq_of_mem_iff m.sorted m'.sorted
  rintro ⟨k, a⟩
  rw [← get?_eq_some_iff, ← get?_eq_some_iff, h k]

theorem remove_of_get?_eq_none (h : m.get? k = none) : m.remove k = m := by
  apply ext_get?
  intro k'
  rw [get?_remove]
  split_ifs with hk
  · rw [hk, h]
  · rfl

/-- A fresh key adds its entry. -/
theorem entries_insert_perm (h : m.get? k = none) :
    (m.insert k a).entries.Perm ((k, a) :: m.entries) := by
  have hlist : ∀ es : List (κ × α), es.lookup k = none →
      (insertEntry k a es).Perm ((k, a) :: es) := by
    intro es
    induction es with
    | nil => intro _; rfl
    | cons e es ih =>
        intro hlookup
        rw [lookup_cons_ite] at hlookup
        split_ifs at hlookup with hk
        rw [insertEntry, if_neg hk]
        split_ifs
        · rfl
        · exact ((ih hlookup).cons e).trans (List.Perm.swap _ _ _)
  exact hlist m.entries h

end SortedMap

/-- Bytes are ordered by value. -/
instance byteLinearOrder : LinearOrder UInt8 where
  le_refl _ := UInt8.le_refl _
  le_trans _ _ _ := UInt8.le_trans
  le_antisymm _ _ := UInt8.le_antisymm
  le_total := UInt8.le_total
  lt_iff_le_not_ge a b := by
    rw [UInt8.lt_iff_toNat_lt, UInt8.le_iff_toNat_le, UInt8.le_iff_toNat_le]
    omega
  toDecidableLE := inferInstance
  toDecidableLT := inferInstance
  toDecidableEq := inferInstance
