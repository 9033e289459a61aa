import Mathlib

/-!
# Loops that may fail

A loop whose body may throw, run to its end: what the body does at each element, and
what it keeps.
-/

namespace Almyty.Lib.Attempt

variable {ε α β : Type}

theorem bind_ok {x : Except ε α} {f : α → Except ε β} {b : β} :
    (x >>= f) = .ok b ↔ ∃ a, x = .ok a ∧ f a = .ok b := by
  cases x with
  | error | ok => simp [bind, Except.bind]

theorem forM_ok {f : α → Except ε Unit} {l : List α} {u : Unit} :
    l.forM f = .ok u ↔ ∀ x ∈ l, f x = .ok () := by
  induction l with
  | nil => simp [pure, Except.pure]
  | cons x xs ih =>
    have hcons : (x :: xs).forM f = (f x >>= fun _ => xs.forM f) := rfl
    rw [hcons, bind_ok, List.forall_mem_cons]
    constructor
    · intro h
      obtain ⟨⟨⟩, hx, hxs⟩ := h
      exact ⟨hx, ih.mp hxs⟩
    · intro h
      exact ⟨(), h.1, ih.mpr h.2⟩

theorem foldlM_ok {f : β → α → Except ε β} (P : β → Prop) {l : List α}
    (hf : ∀ x ∈ l, ∀ b b', P b → f b x = .ok b' → P b') {b b' : β} (hb : P b)
    (h : l.foldlM f b = .ok b') : P b' := by
  induction l generalizing b with
  | nil =>
    obtain rfl : b = b' := by simpa [pure, Except.pure] using h
    exact hb
  | cons x xs ih =>
    rw [List.foldlM_cons, bind_ok] at h
    obtain ⟨b₁, hx, hxs⟩ := h
    exact ih (fun y hy => hf y (List.mem_cons_of_mem _ hy))
      (hf x (List.mem_cons_self ..) b b₁ hb hx) hxs

end Almyty.Lib.Attempt
