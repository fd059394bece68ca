import Komms.Control.Except

/-!
# Verdicts on a part of the input

A check that has seen a part of its input may report that something is missing. Any other
verdict that is reached on the part stands for the whole input (`Stands`), if every step of the
check has this property.

`Ends` bounds what a check can say at all, in its results and in its errors.
-/

namespace Except

variable {ε α β : Type} {missing : ε → Prop}

/-- The verdict on the whole input is that on the part, unless the part lacks something. -/
def Stands (missing : ε → Prop) (part whole : Except ε α) : Prop :=
  whole = part ∨ ∃ e, missing e ∧ part = .error e

namespace Stands

theorem refl (x : Except ε α) : Stands missing x x := .inl rfl

theorem of_missing {e : ε} (h : missing e) (x : Except ε α) : Stands missing (.error e) x :=
  .inr ⟨e, h, rfl⟩

/-- A step whose verdict stands, and after it steps whose verdicts stand. -/
theorem bind {x x' : Except ε α} {f f' : α → Except ε β} (h : Stands missing x x')
    (hf : ∀ a, Stands missing (f a) (f' a)) : Stands missing (x >>= f) (x' >>= f') := by
  rcases h with rfl | ⟨e, he, rfl⟩
  · cases x' with
    | error e => exact refl _
    | ok a => exact hf a
  · exact of_missing he _

theorem eq_ok {x x' : Except ε α} {a : α} (h : Stands missing x x') (hx : x = .ok a) :
    x' = .ok a := by
  rcases h with rfl | ⟨e, -, rfl⟩
  · exact hx
  · cases hx

theorem eq_error {x x' : Except ε α} {e : ε} (h : Stands missing x x') (hx : x = .error e)
    (he : ¬ missing e) : x' = .error e := by
  rcases h with rfl | ⟨e', he', rfl⟩
  · exact hx
  · exact absurd (Except.error.inj hx ▸ he') he

end Stands

/-- A result satisfies `Q`, and an error satisfies `P`. -/
def Ends (Q : α → Prop) (P : ε → Prop) : Except ε α → Prop
  | .ok a => Q a
  | .error e => P e

namespace Ends

variable {Q : α → Prop} {R : β → Prop} {P : ε → Prop}

theorem bind {x : Except ε α} {f : α → Except ε β} (h : Ends Q P x)
    (hf : ∀ a, Q a → Ends R P (f a)) : Ends R P (x >>= f) := by
  cases x with
  | error e => exact h
  | ok a => exact hf a h

/-- Whatever a step fails with, it is reported as an error that satisfies `P`. -/
theorem mapError {ε' : Type} {x : Except ε' α} {f : ε' → ε} (h : ∀ e, P (f e)) :
    Ends (fun _ => True) P (x.mapError f) := by
  cases x with
  | error e => exact h e
  | ok a => exact trivial

theorem of_error {x : Except ε α} {e : ε} (h : Ends Q P x) (hx : x = .error e) : P e := by
  subst hx
  exact h

theorem failIf_bind {c : Prop} [Decidable c] {e : ε} {f : Unit → Except ε β} (h : P e)
    (hf : Ends R P (f ())) : Ends R P (Except.failIf c e >>= f) := by
  rw [failIf]
  split
  case isTrue => exact h
  case isFalse => exact hf

end Ends

end Except
