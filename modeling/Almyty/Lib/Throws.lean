import Mathlib

/-!
# Methods that may throw

A method that awaits one thing after another, each of which may throw: a program that ends in a
value or an error, over a state that keeps what was done before the throw. `After x s Q` says that
`Q` holds of how `x` ends from `s` and of the state it leaves.
-/

namespace Almyty.Lib.Throws

abbrev Throws (ε σ α : Type) := ExceptT ε (StateM σ) α

variable {ε σ α β : Type} {x : Throws ε σ α} {f : α → Throws ε σ β} {s : σ}

/-- How a method ends, and the state it leaves. -/
def outcome (x : Throws ε σ α) (s : σ) : Except ε α × σ := (x.run.run s)

/-- `Q` holds of how the method ends. -/
def After (x : Throws ε σ α) (s : σ) (Q : Except ε α → σ → Prop) : Prop :=
  Q (outcome x s).1 (outcome x s).2

@[simp] theorem after_pure {a : α} {Q : Except ε α → σ → Prop} :
    After (pure a) s Q ↔ Q (.ok a) s := Iff.rfl

@[simp] theorem after_throw {e : ε} {Q : Except ε α → σ → Prop} :
    After (throw e) s Q ↔ Q (.error e) s := Iff.rfl

@[simp] theorem after_get {Q : Except ε σ → σ → Prop} : After get s Q ↔ Q (.ok s) s := Iff.rfl

@[simp] theorem after_modify {g : σ → σ} {Q : Except ε Unit → σ → Prop} :
    After (modify g) s Q ↔ Q (.ok ()) (g s) := Iff.rfl

/-- What the rest of a method does with how its first line ended. -/
def next (f : α → Throws ε σ β) (Q : Except ε β → σ → Prop) : Except ε α → σ → Prop
  | .ok a, s => After (f a) s Q
  | .error e, s => Q (.error e) s

variable {Q : Except ε β → σ → Prop}

@[simp] theorem next_ok {a : α} :
    next f Q (.ok a) s ↔ After (f a) s Q := Iff.rfl

@[simp] theorem next_error {e : ε} :
    next f Q (.error e) s ↔ Q (.error e) s := Iff.rfl

@[simp] theorem after_bind :
    After (x >>= f) s Q ↔ After x s (next f Q) := by
  have hrun : outcome (x >>= f) s = match outcome x s with
      | (.ok a, s') => outcome (f a) s'
      | (.error e, s') => (.error e, s') := by
    show (match x s with | (r, s') => ExceptT.bindCont f r s') = _
    rcases hx : x s with ⟨_ | _, _⟩ <;> simp only [outcome, ExceptT.run, StateT.run, hx] <;> rfl
  unfold After
  rw [hrun]
  obtain ⟨_ | _, _⟩ := outcome x s <;> exact Iff.rfl

theorem After.mono {Q Q' : Except ε α → σ → Prop} (h : After x s Q)
    (hQ : ∀ r s', Q r s' → Q' r s') : After x s Q' := hQ _ _ h

end Almyty.Lib.Throws
