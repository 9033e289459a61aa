import Mathlib

/-!
# Relations without a cycle

A relation that leads into finitely many elements only has no cycle exactly when its elements can be
ranked so that every step goes up.
-/

namespace Almyty.Lib.Rank

variable {α : Type} {r : α → α → Prop} {rank : α → Nat}

/-- Following the relation never comes back. -/
def Acyclic (r : α → α → Prop) : Prop := ∀ a, ¬Relation.TransGen r a a

/-- Every step goes up. -/
def Ranks (rank : α → Nat) (r : α → α → Prop) : Prop := ∀ a b, r a b → rank a < rank b

theorem Ranks.lt_of_transGen (h : Ranks rank r) {a b : α} (hab : Relation.TransGen r a b) :
    rank a < rank b := by
  induction hab with
  | single hstep => exact h _ _ hstep
  | tail _ hstep ih => exact ih.trans (h _ _ hstep)

theorem Ranks.acyclic (h : Ranks rank r) : Acyclic r :=
  fun _ hcycle => (h.lt_of_transGen hcycle).ne rfl

theorem Acyclic.exists_ranks (h : Acyclic r) (targets : List α)
    (hr : ∀ a b, r a b → b ∈ targets) : ∃ rank, Ranks rank r := by
  have hahead (a : α) : {c | Relation.TransGen r a c} ⊆ {c | c ∈ targets} := by
    intro c hc
    obtain ⟨b, -, hbc⟩ := Relation.TransGen.tail'_iff.mp hc
    exact hr b c hbc
  have hfinite (a : α) : {c | Relation.TransGen r a c}.Finite :=
    (List.finite_toSet targets).subset (hahead a)
  refine ⟨fun a => {c | c ∈ targets}.ncard - {c | Relation.TransGen r a c}.ncard, ?_⟩
  intro a b hab
  have hlt : {c | Relation.TransGen r b c}.ncard < {c | Relation.TransGen r a c}.ncard := by
    refine Set.ncard_lt_ncard ⟨fun c hc => hc.head hab, fun hsub => ?_⟩ (hfinite a)
    exact h b (hsub (.single hab))
  have hle := Set.ncard_le_ncard (hahead a) (List.finite_toSet targets)
  show {c | c ∈ targets}.ncard - _ < {c | c ∈ targets}.ncard - _
  omega

end Almyty.Lib.Rank
