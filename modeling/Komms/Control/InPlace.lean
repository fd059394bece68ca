import Komms.Control.Except
import Mathlib.Data.List.Forall2

/-!
# Loops that write where they read

A loop computes a value from the whole state and writes it into the state, index by index. If
no value depends on what is written (`Unread`), the loop computes every value from the state
it starts with: it succeeds when all of these values can be computed, and fails at the first
index at which one cannot.
-/

namespace InPlace

variable {σ α β ε : Type} {set : σ → Nat → β → σ} {value : σ → Nat → Except ε β}
variable {is : List Nat} {s s' : σ} {e : ε}

/-- `for i in is { s[i] = value(s, i)? }`. -/
def fill (set : σ → Nat → β → σ) (value : σ → Nat → Except ε β) (is : List Nat) (s : σ) :
    Except ε σ :=
  is.foldlM (fun s i => (set s i ·) <$> value s i) s

/-- No value is computed from what the loop writes. -/
def Unread (set : σ → Nat → β → σ) (value : σ → Nat → Except ε β) : Prop :=
  ∀ s i b j, value (set s i b) j = value s j

/-- All values written at their indices. -/
def setAll (set : σ → Nat → β → σ) (is : List Nat) (bs : List β) (s : σ) : σ :=
  (is.zip bs).foldl (fun s x => set s x.1 x.2) s

/-- What no write changes is as it was. -/
theorem setAll_invariant {γ : Type} (p : σ → γ) (h : ∀ s i b, p (set s i b) = p s) (is : List Nat)
    (bs : List β) (s : σ) : p (setAll set is bs s) = p s := by
  rw [setAll]
  induction is.zip bs generalizing s with
  | nil => rfl
  | cons x l ih => rw [List.foldl_cons, ih, h]

theorem fill_cons {i : Nat} : fill set value (i :: is) s =
    value s i >>= fun b => fill set value is (set s i b) := by
  rw [fill, List.foldlM_cons]
  cases value s i <;> rfl

theorem fill_invariant {γ : Type} (p : σ → γ) (h : ∀ s i b, p (set s i b) = p s)
    (hfill : fill set value is s = .ok s') : p s' = p s := by
  induction is generalizing s with
  | nil => cases hfill; rfl
  | cons i is ih =>
      rw [fill_cons] at hfill
      obtain ⟨b, -, hrest⟩ := Except.bind_eq_ok.mp hfill
      rw [ih hrest, h]

theorem fill_eq_ok (h : Unread set value) : fill set value is s = .ok s' ↔
    ∃ bs, List.Forall₂ (fun i b => value s i = .ok b) is bs ∧ setAll set is bs s = s' := by
  induction is generalizing s with
  | nil => simp [fill, setAll]
  | cons i is ih =>
      rw [fill_cons, Except.bind_eq_ok]
      constructor
      · rintro ⟨b, hb, hrest⟩
        obtain ⟨bs, hbs, hset⟩ := ih.mp hrest
        refine ⟨b :: bs, .cons hb (hbs.imp fun j c hc => ?_), hset⟩
        rwa [h] at hc
      · rintro ⟨bs, hbs, hset⟩
        cases hbs with
        | cons hb hbs =>
            refine ⟨_, hb, ih.mpr ⟨_, hbs.imp fun j c hc => ?_, hset⟩⟩
            rwa [h]

theorem fill_eq_error (h : Unread set value) : fill set value is s = .error e ↔
    ∃ before i after, is = before ++ i :: after ∧ (∀ j ∈ before, ∃ b, value s j = .ok b) ∧
      value s i = .error e := by
  induction is generalizing s with
  | nil => simp [fill]
  | cons i is ih =>
      rw [fill_cons, Except.bind_eq_error]
      constructor
      · rintro (hi | ⟨b, hb, hrest⟩)
        · exact ⟨[], i, is, rfl, by simp, hi⟩
        · obtain ⟨before, j, after, rfl, hbefore, hj⟩ := ih.mp hrest
          simp only [h s i b] at hbefore hj
          exact ⟨i :: before, j, after, rfl, List.forall_mem_cons.mpr ⟨⟨b, hb⟩, hbefore⟩, hj⟩
      · rintro ⟨before, j, after, heq, hbefore, hj⟩
        cases before with
        | nil =>
            obtain ⟨rfl, rfl⟩ := List.cons.inj heq
            exact .inl hj
        | cons i' before =>
            obtain ⟨rfl, rfl⟩ := List.cons.inj heq
            obtain ⟨⟨b, hb⟩, hbefore⟩ := List.forall_mem_cons.mp hbefore
            refine .inr ⟨b, hb, ih.mpr ⟨before, j, after, rfl, ?_⟩⟩
            simp only [h s i b]
            exact ⟨hbefore, hj⟩

/-- A loop over all indices below `n` fails at the first one that fails on its own. -/
theorem fill_range_eq_error (h : Unread set value) {n : Nat} :
    fill set value (List.range n) s = .error e ↔
      ∃ i < n, (∀ j < i, ∃ b, value s j = .ok b) ∧ value s i = .error e := by
  rw [fill_eq_error h]
  constructor
  · rintro ⟨before, i, after, hsplit, hbefore, hi⟩
    have hlength : before.length < n := by
      have hn := congrArg List.length hsplit
      rw [List.length_range, List.length_append, List.length_cons] at hn
      omega
    have htake : before = List.range before.length := by
      rw [← Nat.min_eq_left (Nat.le_of_lt hlength), ← List.take_range, hsplit,
        List.take_left]
    have hget := List.getElem?_range hlength
    rw [hsplit, List.getElem?_append_right (Nat.le_refl _), Nat.sub_self] at hget
    obtain rfl := Option.some.inj hget
    refine ⟨before.length, hlength, fun j hj => hbefore j ?_, hi⟩
    rw [htake]
    exact List.mem_range.mpr hj
  · rintro ⟨i, hlt, hbefore, hi⟩
    refine ⟨List.range i, i, (List.range n).drop (i + 1), ?_, ?_, hi⟩
    · have htake := List.take_append_drop i (List.range n)
      rw [List.take_range, Nat.min_eq_left (Nat.le_of_lt hlt),
        List.drop_eq_getElem_cons (by rwa [List.length_range]), List.getElem_range] at htake
      exact htake.symm
    · exact fun j hj => hbefore j (List.mem_range.mp hj)

theorem modify_length_append (g : α → α) (done : List α) (a : α) (xs : List α) :
    (done ++ a :: xs).modify done.length g = done ++ g a :: xs := by
  induction done with
  | nil => rfl
  | cons d done ih => rw [List.cons_append, List.length_cons, List.modify_succ_cons, ih]; rfl

/-- Every cell of a list is changed by its own value. -/
theorem setAll_modify (f : β → α → α) (xs : List α) (bs : List β) (h : bs.length = xs.length) :
    setAll (fun ys i b => ys.modify i (f b)) (List.range xs.length) bs xs =
      List.zipWith (fun a b => f b a) xs bs := by
  -- the cells before the index have been changed already
  have hfrom (done : List α) : (((List.range' done.length xs.length).zip bs).foldl
        (fun ys x => ys.modify x.1 (f x.2)) (done ++ xs)) =
      done ++ List.zipWith (fun a b => f b a) xs bs := by
    induction xs generalizing done bs with
    | nil => simp
    | cons a xs ih =>
        obtain ⟨b, bs, rfl⟩ := List.exists_cons_of_length_eq_add_one h
        have hlength : (done ++ [f b a]).length = done.length + 1 := by simp
        rw [List.length_cons, List.range'_succ, List.zip_cons_cons, List.foldl_cons,
          modify_length_append, ← List.singleton_append, ← List.append_assoc, ← hlength,
          ih bs (Nat.succ.inj h), List.zipWith_cons_cons, List.append_assoc,
          List.singleton_append]
  rw [setAll, List.range_eq_range']
  exact hfrom []

end InPlace
