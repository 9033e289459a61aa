import Mathlib

/-!
# The tightest of several limits

A limit that several scopes may set is the least value any of them sets, and a default where none
does. It is at most each value that is set (`tightest_le`), and making a value that is set smaller
never makes it larger (`tightest_mono`).
-/

namespace Almyty.Lib

theorem exists_of_forall₂ {β γ : Type} {R : β → γ → Prop} {xs : List β} {ys : List γ}
    (h : List.Forall₂ R xs ys) {x : β} (hx : x ∈ xs) : ∃ y ∈ ys, R x y := by
  induction h with
  | nil => cases hx
  | cons hxy _ ih =>
    rcases List.mem_cons.mp hx with rfl | hx
    · exact ⟨_, List.mem_cons_self, hxy⟩
    · obtain ⟨y, hy, hR⟩ := ih hx
      exact ⟨y, List.mem_cons_of_mem _ hy, hR⟩

variable {α : Type} [LinearOrder α]

def tightest (default : α) (values : List (Option α)) : α :=
  (values.filterMap id).minimum.untopD default

inductive Tightened : Option α → Option α → Prop
  | same (value : Option α) : Tightened value value
  | smaller {value value' : α} (h : value' ≤ value) : Tightened (some value) (some value')

theorem Tightened.getD_le {value value' : Option α} (h : Tightened value value') (default : α) :
    value'.getD default ≤ value.getD default := by
  cases h with
  | same => exact le_refl _
  | smaller hle => exact hle

variable {values : List (Option α)}

variable {default : α}

theorem tightest_eq_default (h : values.filterMap id = []) :
    tightest default values = default := by
  rw [tightest, h]
  rfl

theorem tightest_mem (h : values.filterMap id ≠ []) :
    some (tightest default values) ∈ values ∧
      ∀ value, some value ∈ values → tightest default values ≤ value := by
  obtain ⟨least, hleast⟩ := WithTop.ne_top_iff_exists.mp (mt List.minimum_eq_top.mp h)
  have htightest : tightest default values = least := by
    rw [tightest, ← hleast, WithTop.untopD_coe]
  rw [htightest]
  constructor
  · obtain ⟨value, hvalue, hid⟩ := List.mem_filterMap.mp (List.minimum_mem hleast.symm)
    exact hid ▸ hvalue
  · intro value hvalue
    exact List.minimum_le_of_mem (List.mem_filterMap.mpr ⟨some value, hvalue, rfl⟩) hleast.symm

theorem tightest_le {value : α} (h : some value ∈ values) :
    tightest default values ≤ value := by
  have hmem : value ∈ values.filterMap id := List.mem_filterMap.mpr ⟨some value, h, rfl⟩
  exact (tightest_mem (List.ne_nil_of_mem hmem)).2 value h

theorem le_tightest {bound : α} (hdefault : bound ≤ default)
    (h : ∀ value, some value ∈ values → bound ≤ value) : bound ≤ tightest default values := by
  by_cases hnone : values.filterMap id = []
  · rwa [tightest_eq_default hnone]
  · exact h _ (tightest_mem hnone).1

theorem Tightened.of_mem {values values' : List (Option α)}
    (h : List.Forall₂ Tightened values values') {value : α} (hmem : some value ∈ values) :
    ∃ value' ≤ value, some value' ∈ values' := by
  obtain ⟨value', hmem', htightened⟩ := exists_of_forall₂ h hmem
  cases htightened with
  | same => exact ⟨value, le_refl value, hmem'⟩
  | smaller hle => exact ⟨_, hle, hmem'⟩

theorem Tightened.unset_iff {values values' : List (Option α)}
    (h : List.Forall₂ Tightened values values') :
    values.filterMap id = [] ↔ values'.filterMap id = [] := by
  induction h with
  | nil => rfl
  | @cons value _ _ _ hvalue _ ih =>
    cases hvalue with
    | same =>
      cases value with
      | none => exact ih
      | some => simp
    | smaller => simp

theorem tightest_mono {values values' : List (Option α)} (h : List.Forall₂ Tightened values values') :
    tightest default values' ≤ tightest default values := by
  have hunset := Tightened.unset_iff h
  by_cases hnone : values.filterMap id = []
  · rw [tightest_eq_default hnone, tightest_eq_default (hunset.mp hnone)]
  · obtain ⟨value', hle, hmem⟩ := Tightened.of_mem h (tightest_mem hnone).1
    exact (tightest_le hmem).trans hle

end Almyty.Lib
