/-!
# Fallible computations

`failIf c e` is the early return `if c { return Err(e) }`. The lemmas peel a
computation that is known to succeed, or to fail, into the facts about its
steps, so that callers never unfold a bind.
-/

namespace Except

universe u

variable {ε : Type u} {α β : Type u}

theorem bind_eq_ok {x : Except ε α} {f : α → Except ε β} {b : β} :
    x >>= f = .ok b ↔ ∃ a, x = .ok a ∧ f a = .ok b := by
  cases x with
  | error e =>
      constructor
      · intro h
        cases h
      · intro h
        obtain ⟨_, h, -⟩ := h
        cases h
  | ok a =>
      constructor
      · intro h
        exact ⟨a, rfl, h⟩
      · intro h
        obtain ⟨_, ha, hf⟩ := h
        cases ha
        exact hf

/-- A check computes nothing: what follows it only needs it to succeed. -/
theorem check_bind_eq_ok {x : Except ε PUnit} {f : PUnit → Except ε β} {b : β} :
    x >>= f = .ok b ↔ x = .ok ⟨⟩ ∧ f ⟨⟩ = .ok b := by
  rw [bind_eq_ok]
  constructor
  · intro h
    obtain ⟨⟨⟩, hx⟩ := h
    exact hx
  · intro h
    exact ⟨⟨⟩, h⟩

theorem bind_eq_error {x : Except ε α} {f : α → Except ε β} {e : ε} :
    x >>= f = .error e ↔ x = .error e ∨ ∃ a, x = .ok a ∧ f a = .error e := by
  cases x with
  | error e' =>
      refine ⟨fun h => .inl (by cases h; rfl), ?_⟩
      rintro (h | ⟨_, h, _⟩)
      · cases h
        rfl
      · cases h
  | ok a =>
      refine ⟨fun h => .inr ⟨a, rfl, h⟩, ?_⟩
      rintro (h | ⟨_, ha, hf⟩)
      · cases h
      · cases ha
        exact hf

/-- A computation none of whose steps fails with `e` does not fail with `e`. -/
theorem check_bind_ne_error {x : Except ε PUnit} {f : PUnit → Except ε β} {e : ε}
    (hx : x ≠ .error e) (hf : f ⟨⟩ ≠ .error e) : x >>= f ≠ .error e := by
  intro h
  rcases bind_eq_error.mp h with hfail | ⟨_, -, hfail⟩
  · exact hx hfail
  · exact hf hfail

@[simp] theorem ok_bind (a : α) (f : α → Except ε β) : (.ok a : Except ε α) >>= f = f a := rfl

@[simp] theorem error_bind (e : ε) (f : α → Except ε β) :
    (.error e : Except ε α) >>= f = .error e := rfl

@[simp] theorem mapError_eq_ok {ε' : Type u} {x : Except ε α} {f : ε → ε'} {a : α} :
    x.mapError f = .ok a ↔ x = .ok a := by
  cases x with
  | error e => exact iff_of_false (fun h => by cases h) (by simp)
  | ok b => exact ⟨fun h => congrArg Except.ok (ok.inj h), fun h => congrArg Except.ok (ok.inj h)⟩

/-- A result that passes a test can be named. -/
theorem exists_ok_of_any {x : Except ε α} {p : α → Bool} (h : x.toOption.any p = true) :
    ∃ a, x = .ok a ∧ p a = true := by
  cases x with
  | error e => cases h
  | ok a => exact ⟨a, rfl, h⟩

/-- A result with a property can be named. -/
theorem exists_ok_of_decide {x : Except ε α} {p : α → Prop} [DecidablePred p]
    (h : x.toOption.any (fun a => decide (p a)) = true) : ∃ a, x = .ok a ∧ p a := by
  obtain ⟨a, hx, hp⟩ := exists_ok_of_any h
  exact ⟨a, hx, of_decide_eq_true hp⟩

def getError? : Except ε α → Option ε
  | error e => some e
  | ok _ => none

theorem getError?_eq_some {x : Except ε α} {e : ε} : x.getError? = some e ↔ x = .error e := by
  cases x with
  | error e' => exact ⟨fun h => congrArg error (Option.some.inj h),
      fun h => congrArg some (error.inj h)⟩
  | ok a => exact iff_of_false (by simp [getError?]) (by simp)

/-- `Option::ok_or`. -/
def okOr (x : Option α) (e : ε) : Except ε α :=
  match x with
  | some a => .ok a
  | none => .error e

@[simp] theorem okOr_eq_ok {x : Option α} {e : ε} {a : α} : okOr x e = .ok a ↔ x = some a := by
  cases x with
  | none => exact iff_of_false (by simp [okOr]) (by simp)
  | some b => simp [okOr]

/-- An optional step succeeds when it does on the value that is there. -/
theorem mapM_eq_ok_of_rel {f : α → Except ε β} {r : α → β → Prop} {x : Option α} {y : Option β}
    (h : Option.Rel r x y) (hf : ∀ a b, r a b → f a = .ok b) : x.mapM f = .ok y := by
  cases h with
  | none => rfl
  | some h =>
      rw [Option.mapM_some, hf _ _ h]
      rfl

theorem ite_eq_ok {c : Prop} [Decidable c] {a b : α} {e : ε} :
    (if c then .ok a else .error e : Except ε α) = .ok b ↔ c ∧ a = b := by
  split
  case isTrue hc => exact ⟨fun h => ⟨hc, ok.inj h⟩, fun h => congrArg ok h.2⟩
  case isFalse hc => exact iff_of_false (by simp) (fun h => hc h.1)

@[simp] theorem pure_eq_ok (a : α) : (pure a : Except ε α) = .ok a := rfl

/-- Return the error `e` early when `c` holds. -/
def failIf {ε : Type} (c : Prop) [Decidable c] (e : ε) : Except ε Unit :=
  if c then .error e else .ok ()

section

variable {ε α : Type} {c : Prop} [Decidable c] {e e' : ε} {f : Unit → Except ε α} {a : α}

@[simp] theorem failIf_eq_ok : failIf c e = .ok () ↔ ¬ c := by
  rw [failIf]
  split <;> simp_all

theorem failIf_ne_error (h : e ≠ e') : failIf c e ≠ .error e' := by
  intro hfail
  simp only [failIf] at hfail
  split at hfail
  · exact h (error.inj hfail)
  · cases hfail

theorem failIf_eq_error : failIf c e = .error e' ↔ c ∧ e = e' := by
  rw [failIf]
  split
  case isTrue hc => exact ⟨fun h => ⟨hc, error.inj h⟩, fun h => congrArg error h.2⟩
  case isFalse hc => exact iff_of_false (fun h => by cases h) fun h => hc h.1

theorem failIf_bind_eq_ok : failIf c e >>= f = .ok a ↔ ¬ c ∧ f () = .ok a := by
  rw [check_bind_eq_ok, failIf_eq_ok]

@[simp] theorem failIf_bind_of (h : c) : failIf c e >>= f = .error e := by
  simp [failIf, h]

end

end Except
