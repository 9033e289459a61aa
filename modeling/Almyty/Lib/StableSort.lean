import Mathlib

/-!
# Stable sorting

A stable sort keeps the order of what it does not tell apart. Of two elements of a list sorted by
one key and then by another, the first comes before the second by the later key; where that does not
tell them apart, by the earlier one; and where neither does, in the list they were sorted from
(`pairwise_twice`).
-/

namespace Almyty.Lib.StableSort

open List

variable {α : Type}

theorem pair_sublist_or {l : List α} {a b : α} (ha : a ∈ l) (hb : b ∈ l) (hne : a ≠ b) :
    [a, b].Sublist l ∨ [b, a].Sublist l := by
  induction l with
  | nil => exact absurd ha not_mem_nil
  | cons c l ih =>
    rcases mem_cons.mp ha with rfl | ha'
    · have hb' : b ∈ l := (mem_cons.mp hb).resolve_left fun h => hne h.symm
      exact .inl ((singleton_sublist.mpr hb').cons_cons a)
    · rcases mem_cons.mp hb with rfl | hb'
      · exact .inr ((singleton_sublist.mpr ha').cons_cons b)
      · rcases ih ha' hb' with h | h
        · exact .inl (h.cons c)
        · exact .inr (h.cons c)

theorem not_both_orders {l : List α} (hl : l.Nodup) {a b : α} (hab : [a, b].Sublist l) :
    ¬[b, a].Sublist l := by
  induction l with
  | nil => exact absurd hab.length_le (by simp)
  | cons c l ih =>
    obtain ⟨hc, hl'⟩ := nodup_cons.mp hl
    intro hba
    cases hab with
    | cons _ hab =>
      cases hba with
      | cons _ hba => exact ih hl' hab hba
      | cons_cons _ hba => exact hc (hab.subset (mem_cons_of_mem _ mem_cons_self))
    | cons_cons _ hab =>
      cases hba with
      | cons _ hba => exact hc (hba.subset (mem_cons_of_mem _ mem_cons_self))
      | cons_cons _ hba => exact hc (hba.subset mem_cons_self)

section

variable {r : α → α → Prop} [DecidableRel r] [Std.Total r] [IsTrans α r]

theorem pair_of_sorted {l : List α} (hl : l.Nodup) {a b : α}
    (h : [a, b].Sublist (l.insertionSort r)) : r a b ∧ (r b a → [a, b].Sublist l) := by
  have hperm := perm_insertionSort r l
  have hsorted : (l.insertionSort r).Nodup := hperm.nodup_iff.mpr hl
  refine ⟨pairwise_pair.mp ((pairwise_insertionSort r l).sublist h), ?_⟩
  intro hba
  have hne : a ≠ b := pairwise_pair.mp (hsorted.sublist h)
  have hmem : ∀ c ∈ [a, b], c ∈ l := fun c hc => hperm.subset (h.subset hc)
  refine (pair_sublist_or (hmem a (by simp)) (hmem b (by simp)) hne).resolve_right ?_
  intro hrev
  exact not_both_orders hsorted h (pair_sublist_insertionSort hba hrev)

end

section

variable {κ ι : Type} {r : κ → κ → Prop} {s : ι → ι → Prop}

theorem total_on [Std.Total r] (key : α → κ) : Std.Total fun a b => r (key a) (key b) :=
  ⟨fun a b => Std.Total.total (key a) (key b)⟩

theorem trans_on [IsTrans κ r] (key : α → κ) : IsTrans α fun a b => r (key a) (key b) :=
  ⟨fun a b c hab hbc => IsTrans.trans (key a) (key b) (key c) hab hbc⟩

variable [DecidableRel r] [Std.Total r] [IsTrans κ r] [DecidableRel s] [Std.Total s] [IsTrans ι s]

theorem pairwise_twice (first : α → κ) (second : α → ι) {l : List α} (hl : l.Nodup) :
    ((l.insertionSort fun a b => r (first a) (first b)).insertionSort
        fun a b => s (second a) (second b)).Pairwise fun a b =>
      s (second a) (second b) ∧ (s (second b) (second a) →
        r (first a) (first b) ∧ (r (first b) (first a) → [a, b].Sublist l)) := by
  have hrTotal := total_on (r := r) first
  have hrTrans := trans_on (r := r) first
  have hsTotal := total_on (r := s) second
  have hsTrans := trans_on (r := s) second
  rw [pairwise_iff_forall_sublist]
  intro a b hab
  have hfirst : (l.insertionSort fun a b => r (first a) (first b)).Nodup :=
    (perm_insertionSort _ l).nodup_iff.mpr hl
  obtain ⟨hs, hsame⟩ := pair_of_sorted hfirst hab
  exact ⟨hs, fun hba => pair_of_sorted hl (hsame hba)⟩

end

/-! ## The front of a sorted list -/

def AtLeast (k : Nat) (p : α → Prop) : Prop := ∃ l : List α, l.Nodup ∧ k ≤ l.length ∧ ∀ a ∈ l, p a

theorem AtLeast.imp {k : Nat} {p q : α → Prop} (h : AtLeast k p) (himp : ∀ a, p a → q a) :
    AtLeast k q := by
  obtain ⟨l, hl, hlen, hall⟩ := h
  exact ⟨l, hl, hlen, fun a ha => himp a (hall a ha)⟩

theorem mem_of_pair_sublist {front later : List α} {b c : α} (hl : (front ++ c :: later).Nodup)
    (h : [b, c].Sublist (front ++ c :: later)) : b ∈ front := by
  induction front with
  | nil =>
    have hc : c ∉ later := (nodup_cons.mp hl).1
    cases h with
    | cons _ h => exact absurd (h.subset (mem_cons_of_mem _ mem_cons_self)) hc
    | cons_cons _ h => exact absurd (h.subset mem_cons_self) hc
  | cons d front ih =>
    rw [cons_append] at hl h
    cases h with
    | cons _ h => exact mem_cons_of_mem d (ih (nodup_cons.mp hl).2 h)
    | cons_cons _ _ => exact mem_cons_self

theorem not_mem_take_iff {l : List α} (hl : l.Nodup) {c : α} (hc : c ∈ l) (k : Nat) :
    c ∉ l.take k ↔ AtLeast k fun b => [b, c].Sublist l := by
  obtain ⟨front, later, rfl⟩ := append_of_mem hc
  constructor
  · intro hnot
    have hlen : k ≤ front.length := by
      by_contra hlonger
      refine hnot ?_
      have hfront : front ++ [c] <+: (front ++ c :: later).take k := by
        refine prefix_of_prefix_length_le ⟨later, by simp⟩ (List.take_prefix _ _) ?_
        simp only [length_append, length_take, length_cons, length_nil]
        omega
      exact hfront.subset (mem_append_right _ (mem_singleton_self c))
    refine ⟨front, (nodup_append.mp hl).1, hlen, fun b hb => ?_⟩
    exact (singleton_sublist.mpr hb).append (singleton_sublist.mpr mem_cons_self)
  · rintro ⟨before, hbefore, hlen, hall⟩ hmem
    have hsub : before ⊆ front := fun b hb => mem_of_pair_sublist hl (hall b hb)
    have hle : before.length ≤ front.length := (hbefore.subperm hsub).length_le
    have hcut : (front ++ c :: later).take k = front.take k :=
      take_append_of_le_length (hlen.trans hle)
    rw [hcut] at hmem
    have hdisjoint := (nodup_append.mp hl).2.2
    exact hdisjoint c (mem_of_mem_take hmem) c mem_cons_self rfl

theorem pair_sublist_of_take {l : List α} {b c : α} {k : Nat} (hb : b ∈ l.take k) (hc : c ∈ l)
    (hout : c ∉ l.take k) : [b, c].Sublist l := by
  have hlater : c ∈ l.drop k := by
    rw [← take_append_drop k l] at hc
    exact (mem_append.mp hc).resolve_left hout
  have hpair := (singleton_sublist.mpr hb).append (singleton_sublist.mpr hlater)
  rwa [take_append_drop] at hpair

section

variable {r : α → α → Prop} [DecidableRel r] [Std.Total r] [IsTrans α r]

/-- One element is sorted before another. -/
def Ahead (r : α → α → Prop) (l : List α) (b c : α) : Prop :=
  b ∈ l ∧ b ≠ c ∧ r b c ∧ (r c b → [b, c].Sublist l)

theorem pair_sublist_sorted_iff {l : List α} (hl : l.Nodup) {b c : α} (hc : c ∈ l) :
    [b, c].Sublist (l.insertionSort r) ↔ Ahead r l b c := by
  have hperm := perm_insertionSort r l
  have hsorted : (l.insertionSort r).Nodup := hperm.nodup_iff.mpr hl
  constructor
  · intro h
    have hne : b ≠ c := pairwise_pair.mp (hsorted.sublist h)
    exact ⟨hperm.subset (h.subset mem_cons_self), hne, pair_of_sorted hl h⟩
  · rintro ⟨hb, hne, hbc, htie⟩
    refine (pair_sublist_or (hperm.symm.subset hb) (hperm.symm.subset hc) hne).resolve_right ?_
    intro hrev
    obtain ⟨hcb, hback⟩ := pair_of_sorted hl hrev
    exact not_both_orders hl (htie hcb) (hback hbc)

theorem not_mem_take_sorted_iff {l : List α} (hl : l.Nodup) {c : α} (hc : c ∈ l) (k : Nat) :
    c ∉ (l.insertionSort r).take k ↔ AtLeast k fun b => Ahead r l b c := by
  have hperm := perm_insertionSort r l
  rw [not_mem_take_iff (hperm.nodup_iff.mpr hl) (hperm.symm.subset hc)]
  simp only [pair_sublist_sorted_iff hl hc]

end

end Almyty.Lib.StableSort
