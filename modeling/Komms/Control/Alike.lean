import Komms.Control.Except

/-!
# Two runs side by side

`Alike` compares the outcomes of two computations: related results, or the same error.
`Relates` compares two programs with a state, from related states. Its rule for bind carries
the relation of the states along, so that programs are compared step by step.
-/

namespace Except

variable {ε α α' β β' : Type} {q : α → α' → Prop} {q' : β → β' → Prop}

/-- Both outcomes are results that are related, or both are the same error. -/
inductive Alike (q : α → α' → Prop) : Except ε α → Except ε α' → Prop where
  | ok {a : α} {a' : α'} (h : q a a') : Alike q (.ok a) (.ok a')
  | error (e : ε) : Alike q (.error e) (.error e)

namespace Alike

theorem refl (x : Except ε α) : Alike Eq x x := by
  cases x with
  | error e => exact .error e
  | ok a => exact .ok rfl

theorem bind {x : Except ε α} {x' : Except ε α'} {f : α → Except ε β} {f' : α' → Except ε β'}
    (h : Alike q x x') (hf : ∀ a a', q a a' → Alike q' (f a) (f' a')) :
    Alike q' (x >>= f) (x' >>= f') := by
  cases h with
  | error e => exact .error e
  | ok ha => exact hf _ _ ha

theorem mapError {ε' : Type} {x : Except ε α} {x' : Except ε α'} (h : Alike q x x')
    (f : ε → ε') : Alike q (x.mapError f) (x'.mapError f) := by
  cases h with
  | error e => exact .error (f e)
  | ok ha => exact .ok ha

/-- If the results are related by a function, it maps one outcome to the other. -/
theorem eq_map {x : Except ε α} {x' : Except ε β} {f : α → β}
    (h : Alike (fun a b => b = f a) x x') : x' = x.map f := by
  cases h with
  | error e => rfl
  | ok ha => exact congrArg Except.ok ha

end Alike

end Except

namespace StateT

variable {σ τ ε α α' β β' : Type}

/-- From related states, the runs of two programs end alike. -/
def Relates (r : σ → τ → Prop) (q : α × σ → α' × τ → Prop) (x : StateT σ (Except ε) α)
    (x' : StateT τ (Except ε) α') : Prop :=
  ∀ s t, r s t → Except.Alike q (x.run s) (x'.run t)

namespace Relates

variable {r : σ → τ → Prop}

theorem pure {q : α × σ → α' × τ → Prop} {a : α} {a' : α'} (h : ∀ s t, r s t → q (a, s) (a', t)) :
    Relates r q (Pure.pure a : StateT σ (Except ε) α) (Pure.pure a') :=
  fun s t hst => .ok (h s t hst)

/-- The states after the first programs are those that the second ones start from. -/
theorem bind {q : α × σ → α' × τ → Prop} {q' : β × σ → β' × τ → Prop}
    {x : StateT σ (Except ε) α} {x' : StateT τ (Except ε) α'} {f : α → StateT σ (Except ε) β}
    {f' : α' → StateT τ (Except ε) β'} (h : Relates r q x x')
    (hf : ∀ a a', Relates (fun s t => q (a, s) (a', t)) q' (f a) (f' a')) :
    Relates r q' (x >>= f) (x' >>= f') := by
  intro s t hst
  rw [StateT.run_bind, StateT.run_bind]
  exact (h s t hst).bind fun a a' hq => hf a.1 a'.1 a.2 a'.2 hq

end Relates

/-- From related states, the runs of a program end with the same result in related states. -/
abbrev Lockstep (r : σ → σ → Prop) (x : StateT σ (Except ε) α) : Prop :=
  Relates r (fun a a' => a.1 = a'.1 ∧ r a.2 a'.2) x x

namespace Lockstep

variable {r : σ → σ → Prop}

theorem pure (a : α) : Lockstep r (Pure.pure a : StateT σ (Except ε) α) :=
  Relates.pure fun _ _ hst => ⟨rfl, hst⟩

/-- After a step in lockstep, the programs go on with one result. -/
theorem bind {q : β × σ → β' × σ → Prop} {x : StateT σ (Except ε) α}
    {f : α → StateT σ (Except ε) β} {f' : α → StateT σ (Except ε) β'} (h : Lockstep r x)
    (hf : ∀ a, Relates r q (f a) (f' a)) : Relates r q (x >>= f) (x >>= f') := by
  refine Relates.bind h fun a a' s t hst => ?_
  obtain ⟨rfl, hst⟩ := hst
  exact hf a s t hst

/-- A step that does not touch the state. -/
theorem lift (x : Except ε α) : Lockstep r (liftM x : StateT σ (Except ε) α) := by
  intro s t hst
  cases x with
  | error e => exact .error e
  | ok a => exact .ok ⟨rfl, hst⟩

end Lockstep

end StateT
