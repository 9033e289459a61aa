import Mathlib

/-!
# Leases with fencing tokens

A lease is held by at most one token. Acquiring it replaces whatever was there (nothing, or the
token of a holder that is gone) by a token never seen before; dropping it leaves it free; every
other write made under it names the token and takes effect only while that token holds it. A history
is the list of what took effect, newest first, and `Legal` is the rule above, read at every entry.
-/

namespace Almyty.Lib.Lease

variable {τ : Type}

inductive Event (τ : Type)
  | acquire (t : τ) (prior : Option τ)
  | write (t : τ)
  | drop (t : τ)

/-- Who holds the lease after a history. -/
def holder (init : Option τ) : List (Event τ) → Option τ
  | [] => init
  | .acquire t _ :: _ => some t
  | .drop _ :: _ => none
  | .write _ :: h => holder init h

def held (init : Option τ) : List (Event τ) → List τ
  | [] => init.toList
  | .acquire t _ :: h => t :: held init h
  | .drop _ :: h | .write _ :: h => held init h

/-- An acquisition brings a new token and says what it replaced; everything else
is done by the holder. -/
def Legal (init : Option τ) : List (Event τ) → Prop
  | [] => True
  | .acquire t prior :: h => prior = holder init h ∧ t ∉ held init h ∧ Legal init h
  | .write t :: h | .drop t :: h => holder init h = some t ∧ Legal init h

variable {init : Option τ}

theorem Legal.tail {e : Event τ} {h : List (Event τ)} (hl : Legal init (e :: h)) :
    Legal init h := by
  cases e with
  | acquire t prior => exact hl.2.2
  | write | drop => exact hl.2

variable {newer older : List (Event τ)}

theorem Legal.of_append (hl : Legal init (newer ++ older)) : Legal init older := by
  induction newer with
  | nil => exact hl
  | cons e newer ih => exact ih hl.tail

theorem mem_held_of_holder {h : List (Event τ)} {t : τ} (ht : holder init h = some t) :
    t ∈ held init h := by
  induction h with
  | nil =>
    rw [holder] at ht
    rw [held, ht]
    exact List.mem_singleton.mpr rfl
  | cons e h ih =>
    cases e with
    | acquire t' prior =>
      rw [holder, Option.some.injEq] at ht
      rw [ht]
      exact List.mem_cons_self ..
    | write t' => exact ih ht
    | drop t' => cases ht

theorem held_mono {t : τ} (ht : t ∈ held init older) : t ∈ held init (newer ++ older) := by
  induction newer with
  | nil => exact ht
  | cons e newer ih =>
    cases e with
    | acquire t' prior => exact List.mem_cons_of_mem _ ih
    | write | drop => exact ih

theorem holder_not_held {t₂ : τ} {prior : Option τ}
    (hl : Legal init (newer ++ .acquire t₂ prior :: older)) {t : τ}
    (ht : holder init (newer ++ .acquire t₂ prior :: older) = some t) : t ∉ held init older := by
  induction newer with
  | nil =>
    rw [List.nil_append, holder, Option.some.injEq] at ht
    rw [← ht]
    exact hl.2.1
  | cons e newer ih =>
    cases e with
    | acquire t' prior' =>
      rw [List.cons_append, holder, Option.some.injEq] at ht
      subst ht
      intro hmem
      refine hl.2.1 (held_mono ?_)
      exact List.mem_cons_of_mem _ hmem
    | write t' => exact ih hl.tail ht
    | drop t' => cases ht

/-- The lease is held by a token newer than an acquisition, or a newer token
dropped it. -/
theorem holder_after_acquire {mid older : List (Event τ)} {t₁ : τ} {prior₁ : Option τ}
    (hl : Legal init (mid ++ .acquire t₁ prior₁ :: older)) :
    (∃ t, holder init (mid ++ .acquire t₁ prior₁ :: older) = some t ∧ t ∉ held init older) ∨
      (holder init (mid ++ .acquire t₁ prior₁ :: older) = none ∧
        ∃ t, .drop t ∈ mid ∧ t ∉ held init older) := by
  induction mid with
  | nil => exact Or.inl ⟨t₁, rfl, hl.2.1⟩
  | cons e mid ih =>
    cases e with
    | acquire t' prior' =>
      refine Or.inl ⟨t', rfl, fun hmem => hl.2.1 (held_mono ?_)⟩
      exact List.mem_cons_of_mem _ hmem
    | write t' =>
      rcases ih hl.tail with h | ⟨hnone, t, hdrop, ht⟩
      · exact Or.inl h
      · exact Or.inr ⟨hnone, t, List.mem_cons_of_mem _ hdrop, ht⟩
    | drop t' =>
      exact Or.inr ⟨rfl, t', List.mem_cons_self .., holder_not_held hl.tail hl.1⟩

theorem acquires_differ {newer mid older : List (Event τ)} {t₁ t₂ : τ} {prior₁ prior₂ : Option τ}
    (hl : Legal init (newer ++ .acquire t₂ prior₂ :: (mid ++ .acquire t₁ prior₁ :: older))) :
    (∀ t, prior₁ = some t → t ∈ held init older) ∧
      ((∃ t, prior₂ = some t ∧ t ∉ held init older) ∨
        (prior₂ = none ∧ ∃ t, .drop t ∈ mid ∧ t ∉ held init older)) := by
  have h₂ := hl.of_append
  have h₁ : Legal init (.acquire t₁ prior₁ :: older) := h₂.tail.of_append
  refine ⟨fun t ht => mem_held_of_holder (h₁.1 ▸ ht), ?_⟩
  rw [h₂.1]
  exact holder_after_acquire h₂.tail

end Almyty.Lib.Lease
