import Mathlib

/-!
# Runs of a step function

A system is a state, a set of actions and a function that says what an action does to a state; an
interleaving of several parties is one list of actions. A safety property of the system is then a
property of every step of every run: `Along P s as` says that `P` holds at each step of the run of
`as` from `s`, read as the state before the step and the action taken there.
-/

namespace Almyty.Lib.Steps

variable {σ α : Type} (step : σ → α → σ)

def run (s : σ) (as : List α) : σ := as.foldl step s

@[simp] theorem run_nil (s : σ) : run step s [] = s := rfl

@[simp] theorem run_cons (s : σ) (a : α) (as : List α) :
    run step s (a :: as) = run step (step s a) as := rfl

theorem run_append (s : σ) (as bs : List α) :
    run step s (as ++ bs) = run step (run step s as) bs := List.foldl_append

def Along (P : σ → α → Prop) : σ → List α → Prop
  | _, [] => True
  | s, a :: as => P s a ∧ Along P (step s a) as

instance instDecidableAlong (P : σ → α → Prop) [∀ s a, Decidable (P s a)] :
    ∀ s as, Decidable (Along step P s as)
  | _, [] => inferInstanceAs (Decidable True)
  | s, a :: as =>
    have := instDecidableAlong P (step s a) as
    inferInstanceAs (Decidable (_ ∧ _))

variable {step}

variable {P : σ → α → Prop} {as : List α}

theorem along_append {s : σ} {bs : List α} :
    Along step P s (as ++ bs) ↔ Along step P s as ∧ Along step P (run step s as) bs := by
  induction as generalizing s with
  | nil => simp [Along]
  | cons a as ih => simp only [List.cons_append, Along, run_cons, ih, and_assoc]

theorem along_iff {s : σ} :
    Along step P s as ↔ ∀ pre a post, as = pre ++ a :: post → P (run step s pre) a := by
  induction as generalizing s with
  | nil =>
    simp [Along]
  | cons a as ih =>
    rw [Along, ih]
    constructor
    · rintro ⟨h0, h⟩ pre b post he
      cases pre with
      | nil =>
        obtain ⟨rfl, -⟩ := List.cons.inj he
        exact h0
      | cons x pre =>
        obtain ⟨rfl, he'⟩ := List.cons.inj he
        exact h pre b post he'
    · intro h
      refine ⟨h [] a as rfl, fun pre b post he => ?_⟩
      exact h (a :: pre) b post (by rw [he]; rfl)

theorem run_invariant (Inv : σ → Prop) (hstep : ∀ s a, Inv s → P s a → Inv (step s a)) {s : σ}
    (hs : Inv s) (hP : Along step P s as) : Inv (run step s as) := by
  induction as generalizing s with
  | nil => exact hs
  | cons a as ih => exact ih (hstep s a hs hP.1) hP.2

theorem along_of_invariant (Inv : σ → Prop) {Q : σ → α → Prop}
    (hstep : ∀ s a, Inv s → P s a → Inv (step s a)) (hQ : ∀ s a, Inv s → P s a → Q s a) {s : σ}
    (hs : Inv s) (hP : Along step P s as) : Along step Q s as := by
  induction as generalizing s with
  | nil => trivial
  | cons a as ih => exact ⟨hQ s a hs hP.1, ih (hstep s a hs hP.1) hP.2⟩

theorem along_iff_of_invariant (Inv : σ → Prop) {Q : σ → α → Prop}
    (hstep : ∀ s a, Inv s → P s a → Inv (step s a)) (hiff : ∀ s a, Inv s → (Q s a ↔ P s a)) {s : σ}
    (hs : Inv s) : Along step Q s as ↔ Along step P s as := by
  induction as generalizing s with
  | nil => exact Iff.rfl
  | cons a as ih =>
    rw [Along, Along, hiff s a hs]
    exact and_congr_right fun h => ih (hstep s a hs h)

end Almyty.Lib.Steps
