import Komms.Control.Verdict

/-!
# Counted steps

A fallible computation that counts the steps it takes, also those it took before it failed.
The steps are bounded by what they use up (`Paid`): every step is paid for by the fall of a
potential, except one, at which the computation fails.
-/

variable {ε α β : Type}

/-- The steps taken, and what came of them. -/
structure Measured (ε α : Type) where
  steps : Nat
  result : Except ε α

namespace Measured

/-- A step that computes nothing. -/
def step : Measured ε Unit := ⟨1, .ok ()⟩

/-- A computation whose steps are not counted. -/
def free (x : Except ε α) : Measured ε α := ⟨0, x⟩

def bind (x : Measured ε α) (f : α → Measured ε β) : Measured ε β :=
  match x.result with
  | .error e => ⟨x.steps, .error e⟩
  | .ok a => ⟨x.steps + (f a).steps, (f a).result⟩

instance : Monad (Measured ε) where
  pure a := ⟨0, .ok a⟩
  bind := bind

@[simp] theorem result_step : (step : Measured ε Unit).result = .ok () := rfl

@[simp] theorem result_free (x : Except ε α) : (free x).result = x := rfl

/-- Counting does not change the result. -/
@[simp] theorem result_bind (x : Measured ε α) (f : α → Measured ε β) :
    (x >>= f).result = x.result >>= fun a => (f a).result := by
  obtain ⟨steps, result⟩ := x
  cases result <;> rfl

theorem bind_assoc {γ : Type} (x : Measured ε α) (f : α → Measured ε β) (g : β → Measured ε γ) :
    x >>= f >>= g = x >>= fun a => f a >>= g := by
  obtain ⟨steps, result⟩ := x
  cases result with
  | error e => rfl
  | ok a =>
      change bind (bind ⟨steps, .ok a⟩ f) g = bind ⟨steps, .ok a⟩ fun a => bind (f a) g
      simp only [bind]
      cases (f a).result with
      | error e => rfl
      | ok b => simp only [Nat.add_assoc]

/-- The steps up to a result are paid for by the fall of the potential. A failure may have
taken one step that is not paid for. -/
def Paid (before : Nat) (after : α → Nat) (x : Measured ε α) : Prop :=
  x.result.Ends (fun a => x.steps + after a ≤ before) fun _ => x.steps ≤ before + 1

namespace Paid

variable {before : Nat} {after : α → Nat}

theorem pure {a : α} (h : after a ≤ before) : Paid before after (Pure.pure a : Measured ε α) := by
  change 0 + after a ≤ before
  omega

/-- What is not counted may use up potential, and must not create it. -/
theorem free {x : Except ε α} (h : ∀ a, x = .ok a → after a ≤ before) :
    Paid before after (free x) := by
  cases x with
  | error e => exact Nat.zero_le _
  | ok a =>
      have hfall : after a ≤ before := h a rfl
      change 0 + after a ≤ before
      omega

/-- A step is paid for by the computation after it, when that uses up potential. -/
theorem step_bind {x : Except ε α} (h : ∀ a, x = .ok a → after a < before) :
    Paid before after (step >>= fun _ => Measured.free x) := by
  cases x with
  | error e => exact Nat.le_add_left 1 before
  | ok a =>
      have hfall : after a < before := h a rfl
      change 1 + 0 + after a ≤ before
      omega

theorem bind {x : Measured ε α} {f : α → Measured ε β} {last : β → Nat}
    (h : Paid before after x) (hf : ∀ a, x.result = .ok a → Paid (after a) last (f a)) :
    Paid before last (x >>= f) := by
  obtain ⟨steps, result⟩ := x
  cases result with
  | error e => exact h
  | ok a =>
      have hfirst : steps + after a ≤ before := h
      have hrest := hf a rfl
      have hbind : (⟨steps, .ok a⟩ : Measured ε α) >>= f =
        ⟨steps + (f a).steps, (f a).result⟩ := rfl
      rw [hbind]
      -- what the second computation was given is what the first one left
      generalize f a = y at hrest
      obtain ⟨more, result⟩ := y
      cases result with
      | error e =>
          have hmore : more ≤ after a + 1 := hrest
          change steps + more ≤ before + 1
          omega
      | ok b =>
          have hmore : more + last b ≤ after a := hrest
          change steps + more + last b ≤ before
          omega

/-- What is not counted and uses up nothing. -/
theorem free_bind {x : Except ε α} {f : α → Measured ε β} {last : β → Nat}
    (h : ∀ a, Paid before last (f a)) : Paid before last (Measured.free x >>= f) := by
  have hfree : Paid before (fun _ => before) (Measured.free x) := free fun _ _ => Nat.le_refl _
  exact hfree.bind fun a _ => h a

/-- A step is paid for by what comes right after it. -/
theorem step_then {x : Except ε α} {f : α → Measured ε β} {last : β → Nat}
    (h : ∀ a, x = .ok a → after a < before) (hf : ∀ a, x = .ok a → Paid (after a) last (f a)) :
    Paid before last (step >>= fun _ => Measured.free x >>= f) := by
  rw [← bind_assoc]
  refine (step_bind h).bind fun a ha => hf a ?_
  rwa [result_bind] at ha

theorem steps_le {x : Measured ε α} (h : Paid before after x) : x.steps ≤ before + 1 := by
  obtain ⟨steps, result⟩ := x
  cases result with
  | error e => exact h
  | ok a =>
      have hpaid : steps + after a ≤ before := h
      change steps ≤ before + 1
      omega

theorem steps_add_le {x : Measured ε α} {a : α} (h : Paid before after x) (hx : x.result = .ok a) :
    x.steps + after a ≤ before := by
  rw [Paid, hx] at h
  exact h

end Paid

end Measured
