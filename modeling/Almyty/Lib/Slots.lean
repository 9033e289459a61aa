import Mathlib

/-!
# One entry of a list replaced

The calls a service has begun are a list that grows at its end, and a step of one call replaces its
entry. What is in the list after that is the new entry or one of the others, and what was in it is
the old entry or is still there.
-/

namespace Almyty.Lib.Slots

variable {α β : Type} {l : List α} {i j : Nat} {old new other : α}

theorem getElem?_set_cases (h : (l.set i new)[j]? = some other) :
    (j = i ∧ other = new) ∨ (j ≠ i ∧ l[j]? = some other) := by
  rw [List.getElem?_set] at h
  split at h
  next heq =>
    split at h
    · exact .inl ⟨heq.symm, (Option.some.inj h).symm⟩
    · cases h
  next hne => exact .inr ⟨fun heq => hne heq.symm, h⟩

theorem getElem?_append_singleton_cases (h : (l ++ [new])[j]? = some other) :
    (j = l.length ∧ other = new) ∨ l[j]? = some other := by
  rw [List.getElem?_append] at h
  split at h
  · exact .inr h
  next hlength =>
    obtain ⟨hlt, heq⟩ := List.getElem?_eq_some_iff.mp h
    simp only [List.length_singleton] at hlt
    refine .inl ⟨by omega, ?_⟩
    simpa using heq.symm

theorem getElem?_set_of_some (hold : l[i]? = some old) : (l.set i new)[i]? = some new :=
  List.getElem?_set_self (List.getElem?_eq_some_iff.mp hold).1

theorem eq_or_mem_set (hold : l[i]? = some old) (h : other ∈ l) :
    other = old ∨ other ∈ l.set i new := by
  obtain ⟨j, hj⟩ := List.getElem?_of_mem h
  by_cases hji : j = i
  · subst hji
    exact .inl (Option.some.inj (hj.symm.trans hold))
  · refine .inr (List.mem_of_getElem? (i := j) ?_)
    rw [List.getElem?_set_ne (Ne.symm hji), hj]

theorem exists_mem_set {P : α → Prop} (hold : l[i]? = some old) (h : ∃ x ∈ l, P x)
    (hnew : P old → P new) : ∃ x ∈ l.set i new, P x := by
  obtain ⟨x, hx, hP⟩ := h
  rcases eq_or_mem_set hold hx with rfl | hmem
  · exact ⟨new, List.mem_of_getElem? (getElem?_set_of_some hold), hnew hP⟩
  · exact ⟨x, hmem, hP⟩

theorem map_set_of_eq {f : α → β} (hold : l[i]? = some old) (h : f new = f old) :
    (l.set i new).map f = l.map f := by
  obtain ⟨hlt, rfl⟩ := List.getElem?_eq_some_iff.mp hold
  rw [List.map_set, h]
  exact List.ext_getElem (by simp) fun k _ _ => by
    rw [List.getElem_set]
    split
    next hk => simp [← hk]
    · rfl

theorem sum_map_set {f : α → Nat} (hold : l[i]? = some old) :
    ((l.set i new).map f).sum + f old = (l.map f).sum + f new := by
  induction l generalizing i with
  | nil => cases hold
  | cons x l ih =>
    cases i with
    | zero =>
      obtain rfl := Option.some.inj hold
      simp only [List.set_cons_zero, List.map_cons, List.sum_cons]
      omega
    | succ i =>
      have hsum := ih (i := i) hold
      simp only [List.set_cons_succ, List.map_cons, List.sum_cons]
      omega

/-- One entry at most has the property. -/
def Alone (P : α → Prop) (l : List α) : Prop :=
  ∀ (i j : Nat) (a b : α), l[i]? = some a → l[j]? = some b → P a → P b → i = j

theorem Alone.append_singleton {P : α → Prop} (h : Alone P l) (hnew : ¬ P new) :
    Alone P (l ++ [new]) := by
  -- an entry that has it was there before
  have hwas : ∀ {k : Nat} {a : α}, (l ++ [new])[k]? = some a → P a → l[k]? = some a := by
    intro k a hk ha
    rcases getElem?_append_singleton_cases hk with ⟨-, rfl⟩ | hk
    · exact absurd ha hnew
    · exact hk
  intro i j a b hi hj ha hb
  exact h i j a b (hwas hi ha) (hwas hj hb) ha hb

theorem Alone.set {P : α → Prop} (h : Alone P l) (hold : l[i]? = some old)
    (hnew : P new → P old ∨ ∀ other ∈ l, ¬ P other) : Alone P (l.set i new) := by
  have hapart : ∀ {k : Nat} {b : α}, k ≠ i → l[k]? = some b → P b → ¬ P new := by
    intro k b hne hk hb hhas
    rcases hnew hhas with hwas | hnone
    · exact hne (h k i b old hk hold hb hwas)
    · exact hnone b (List.mem_of_getElem? hk) hb
  intro j k a b hj hk ha hb
  rcases getElem?_set_cases hj with ⟨hji, rfl⟩ | ⟨hji, hj'⟩
  · rcases getElem?_set_cases hk with ⟨hki, -⟩ | ⟨hki, hk'⟩
    · exact hji.trans hki.symm
    · exact absurd ha (hapart hki hk' hb)
  · rcases getElem?_set_cases hk with ⟨-, rfl⟩ | ⟨-, hk'⟩
    · exact absurd hb (hapart hji hj' ha)
    · exact h j k a b hj' hk' ha hb

end Almyty.Lib.Slots
