/-!
# Programs that ask an environment

A program asks requests, goes on with what it is replied, and is done at some point. Where
the replies come from is left open: an execution (`Runs`) is any list of exchanges that the
program can have, so that what holds of every execution holds whatever the environment does.

An environment with a state is a relation between the states before and after an exchange.
`Serves` says that a list of exchanges is served by it from one state to another.
-/

inductive Program (Request : Type) (Reply : Request → Type) (α : Type) where
  | done (result : α)
  | ask (request : Request) (next : Reply request → Program Request Reply α)

/-- A request and what it was replied. -/
abbrev Exchange {Request : Type} (Reply : Request → Type) : Type := (r : Request) × Reply r

namespace Program

variable {Request : Type} {Reply : Request → Type} {α β ε σ : Type}

def bind (p : Program Request Reply α) (f : α → Program Request Reply β) :
    Program Request Reply β :=
  match p with
  | done a => f a
  | ask r next => ask r fun x => (next x).bind f

/-- Go on with a result unless it is an error. -/
def andThen (p : Program Request Reply (Except ε α))
    (f : α → Program Request Reply (Except ε β)) : Program Request Reply (Except ε β) :=
  p.bind fun
    | .error e => done (.error e)
    | .ok a => f a

/-- A computation that asks nothing, before a program. -/
def lift (x : Except ε α) (f : α → Program Request Reply (Except ε β)) :
    Program Request Reply (Except ε β) :=
  (done x).andThen f

/-- The program with its errors in another form. -/
def mapError {ε' : Type} (f : ε → ε') (p : Program Request Reply (Except ε α)) :
    Program Request Reply (Except ε' α) :=
  p.bind fun r => done (r.mapError f)

/-- An execution: the exchanges that were had, and the result. -/
inductive Runs : Program Request Reply α → List (Exchange Reply) → α → Prop where
  | done (a : α) : Runs (done a) [] a
  | ask {r : Request} {next : Reply r → Program Request Reply α} {x : Reply r}
      {trace : List (Exchange Reply)} {a : α} (tail : Runs (next x) trace a) :
      Runs (ask r next) (⟨r, x⟩ :: trace) a

section Runs

variable {p : Program Request Reply α} {trace : List (Exchange Reply)}

@[simp] theorem runs_done {a b : α} :
    (done a : Program Request Reply α).Runs trace b ↔ trace = [] ∧ a = b := by
  constructor
  · intro h
    cases h
    exact ⟨rfl, rfl⟩
  · rintro ⟨rfl, rfl⟩
    exact .done a

theorem runs_ask {r : Request} {next : Reply r → Program Request Reply α} {a : α} :
    (ask r next).Runs trace a ↔ ∃ x tail, (next x).Runs tail a ∧ trace = ⟨r, x⟩ :: tail := by
  constructor
  · intro h
    cases h with
    | ask tail => exact ⟨_, _, tail, rfl⟩
  · rintro ⟨x, tail, h, rfl⟩
    exact .ask h

theorem runs_ask_cons {r : Request} {next : Reply r → Program Request Reply α} {x : Reply r}
    {a : α} : (ask r next).Runs (⟨r, x⟩ :: trace) a ↔ (next x).Runs trace a := by
  constructor
  · intro h
    cases h with
    | ask tail => exact tail
  · exact .ask

theorem ask_andThen {r : Request} {next : Reply r → Program Request Reply (Except ε α)}
    {f : α → Program Request Reply (Except ε β)} :
    (ask r next).andThen f = ask r fun x => (next x).andThen f := rfl

theorem done_ok_andThen {a : α} {f : α → Program Request Reply (Except ε β)} :
    (done (.ok a)).andThen f = f a := rfl

theorem runs_bind {f : α → Program Request Reply β} {b : β} :
    (p.bind f).Runs trace b ↔
      ∃ first a rest, p.Runs first a ∧ (f a).Runs rest b ∧ trace = first ++ rest := by
  induction p generalizing trace with
  | done a =>
      constructor
      · intro h
        exact ⟨[], a, trace, .done a, h, rfl⟩
      · rintro ⟨first, a', rest, hdone, h, rfl⟩
        obtain ⟨rfl, rfl⟩ := runs_done.mp hdone
        exact h
  | ask r next ih =>
      rw [bind, runs_ask]
      constructor
      · rintro ⟨x, tail, h, rfl⟩
        obtain ⟨first, a, rest, hfirst, hrest, rfl⟩ := (ih x).mp h
        exact ⟨_, a, rest, .ask hfirst, hrest, rfl⟩
      · rintro ⟨first, a, rest, hfirst, hrest, rfl⟩
        obtain ⟨x, tail, h, rfl⟩ := runs_ask.mp hfirst
        exact ⟨x, tail ++ rest, (ih x).mpr ⟨tail, a, rest, h, hrest, rfl⟩, rfl⟩

@[simp] theorem lift_ok (a : α) (f : α → Program Request Reply (Except ε β)) :
    lift (.ok a) f = f a := rfl

@[simp] theorem lift_error (e : ε) (f : α → Program Request Reply (Except ε β)) :
    lift (.error e) f = done (.error e) := rfl

/-- A last step that asks nothing. -/
theorem runs_andThen_done {p : Program Request Reply (Except ε α)} {g : α → Except ε β}
    {b : Except ε β} : (p.andThen fun a => done (g a)).Runs trace b ↔
      ∃ x, p.Runs trace x ∧ x >>= g = b := by
  rw [andThen, runs_bind]
  constructor
  · rintro ⟨first, x, rest, hfirst, hdone, rfl⟩
    refine ⟨x, ?_⟩
    cases x with
    | error e =>
        obtain ⟨rfl, rfl⟩ := runs_done.mp hdone
        exact ⟨by rwa [List.append_nil], rfl⟩
    | ok a =>
        obtain ⟨rfl, rfl⟩ := runs_done.mp hdone
        exact ⟨by rwa [List.append_nil], rfl⟩
  · rintro ⟨x, h, rfl⟩
    refine ⟨trace, x, [], h, ?_, (List.append_nil trace).symm⟩
    cases x with
    | error e => exact .done _
    | ok a => exact .done _

theorem runs_mapError {ε' : Type} {f : ε → ε'} {p : Program Request Reply (Except ε α)}
    {b : Except ε' α} :
    (p.mapError f).Runs trace b ↔ ∃ a, p.Runs trace a ∧ a.mapError f = b := by
  rw [mapError, runs_bind]
  constructor
  · rintro ⟨first, a, rest, hfirst, hdone, rfl⟩
    obtain ⟨rfl, rfl⟩ := runs_done.mp hdone
    exact ⟨a, by rwa [List.append_nil], rfl⟩
  · rintro ⟨a, h, rfl⟩
    exact ⟨trace, a, [], h, .done _, (List.append_nil trace).symm⟩

end Runs

end Program

/-- The exchanges are served by an environment, one after the other. -/
inductive Serves {Request : Type} {Reply : Request → Type} {σ : Type}
    (step : σ → Exchange Reply → σ → Prop) : σ → List (Exchange Reply) → σ → Prop where
  | nil (s : σ) : Serves step s [] s
  | cons {s s' t : σ} {x : Exchange Reply} {trace : List (Exchange Reply)}
      (head : step s x s') (tail : Serves step s' trace t) : Serves step s (x :: trace) t

namespace Serves

variable {Request : Type} {Reply : Request → Type} {σ : Type}
variable {step : σ → Exchange Reply → σ → Prop} {s t : σ}

theorem nil_iff : Serves step s [] t ↔ s = t := by
  constructor
  · intro h
    cases h
    rfl
  · rintro rfl
    exact .nil s

theorem cons_iff {x : Exchange Reply} {trace : List (Exchange Reply)} :
    Serves step s (x :: trace) t ↔ ∃ s', step s x s' ∧ Serves step s' trace t := by
  constructor
  · intro h
    cases h with
    | cons head tail => exact ⟨_, head, tail⟩
  · rintro ⟨s', head, tail⟩
    exact .cons head tail

/-- What no exchange makes smaller is not smaller at the end. -/
theorem monotone {r : σ → σ → Prop} (hrefl : ∀ s, r s s) (htrans : ∀ s t u, r s t → r t u → r s u)
    (hstep : ∀ s x t, step s x t → r s t) {trace : List (Exchange Reply)}
    (h : Serves step s trace t) : r s t := by
  induction h with
  | nil s => exact hrefl s
  | cons head _ ih => exact htrans _ _ _ (hstep _ _ _ head) ih

end Serves
