import Mathlib

/-!
# The lines of a text

`splitOnP` cuts a text at every separator. A line is a stretch without one that reaches from a
separator, or the beginning, to the next, or the end (`mem_lines_iff`); so what holds no separator
lies in the text exactly when it lies in one of its lines (`exists_line_infix_iff`).
-/

namespace Almyty.Lib

open List

variable {α : Type} {p : α → Bool}

theorem exists_cut_of_not_all {s : List α} (h : ¬∀ c ∈ s, p c = false) :
    ∃ line sep rest, s = line ++ sep :: rest ∧ (∀ c ∈ line, p c = false) ∧ p sep = true := by
  induction s with
  | nil => simp at h
  | cons c s ih =>
    by_cases hc : p c = true
    · exact ⟨[], c, s, rfl, by simp, hc⟩
    · rw [Bool.not_eq_true] at hc
      obtain ⟨line, sep, rest, rfl, hline, hsep⟩ := ih fun hall =>
        h (forall_mem_cons.mpr ⟨hc, hall⟩)
      exact ⟨c :: line, sep, rest, rfl, forall_mem_cons.mpr ⟨hc, hline⟩, hsep⟩

theorem mem_lines_iff {s line : List α} :
    line ∈ s.splitOnP p ↔
      ∃ before after, s = before ++ line ++ after ∧ (∀ c ∈ line, p c = false) ∧
        before.getLast?.all p = true ∧ after.head?.all p = true := by
  constructor
  · intro hmem
    -- on the length: the line is the first one, or one of what follows the first separator
    induction hlen : s.length using Nat.strong_induction_on generalizing s with
    | _ n ih =>
      subst hlen
      by_cases hall : ∀ c ∈ s, p c = false
      · rw [splitOnP_eq_singleton hall, mem_singleton] at hmem
        subst hmem
        exact ⟨[], [], by simp, hall, rfl, rfl⟩
      · obtain ⟨first, sep, rest, rfl, hfirst, hsep⟩ := exists_cut_of_not_all hall
        rw [splitOnP_append_cons_of_forall_mem hfirst sep hsep, mem_cons] at hmem
        rcases hmem with rfl | hmem
        · exact ⟨[], sep :: rest, by simp, hfirst, rfl, by simpa using hsep⟩
        · obtain ⟨before, after, rfl, hline, hbefore, hafter⟩ :=
            ih rest.length (by simp; omega) hmem rfl
          refine ⟨first ++ sep :: before, after, by simp, hline, ?_, hafter⟩
          cases hlast : before.getLast? with
          | none => simp [List.getLast?_append, List.getLast?_cons, hlast, hsep]
          | some d =>
            rw [hlast] at hbefore
            simpa [List.getLast?_append, List.getLast?_cons, hlast] using hbefore
  · intro h
    obtain ⟨before, after, rfl, hline, hbefore, hafter⟩ := h
    have hhead : line ∈ (line ++ after).splitOnP p := by
      cases after with
      | nil => simp [splitOnP_eq_singleton hline]
      | cons sep after =>
        rw [splitOnP_append_cons_of_forall_mem hline sep (by simpa using hafter)]
        exact mem_cons_self
    rcases eq_nil_or_concat' before with rfl | ⟨front, sep, rfl⟩
    · simpa using hhead
    · have hsep : p sep = true := by simpa using hbefore
      rw [append_assoc, append_assoc, singleton_append, splitOnP_append_cons _ _ hsep]
      exact mem_append_right _ hhead

theorem exists_line_of_stretch (a : List α) {m : List α} (b : List α) (hm : ∀ c ∈ m, p c = false) :
    ∃ front, front <:+ a ∧ front ++ m ++ b.takeWhile (!p ·) ∈ (a ++ m ++ b).splitOnP p := by
  refine ⟨a.rtakeWhile (!p ·), rtakeWhile_suffix _ _, mem_lines_iff.mpr
    ⟨a.rdropWhile (!p ·), b.dropWhile (!p ·), ?_, ?_, ?_, ?_⟩⟩
  · have hfront := rdropWhile_append_rtakeWhile (p := (!p ·)) (l := a)
    have hback := takeWhile_append_dropWhile (p := (!p ·)) (l := b)
    calc a ++ m ++ b
        = (a.rdropWhile (!p ·) ++ a.rtakeWhile (!p ·)) ++ m ++
            (b.takeWhile (!p ·) ++ b.dropWhile (!p ·)) := by rw [hfront, hback]
      _ = _ := by simp only [append_assoc]
  · intro c hc
    rcases mem_append.mp hc with hc | hc
    · rcases mem_append.mp hc with hc | hc
      · simpa using mem_rtakeWhile_imp hc
      · exact hm c hc
    · simpa using mem_takeWhile_imp hc
  · by_cases hne : a.rdropWhile (!p ·) = []
    · rw [hne]
      rfl
    · rw [List.getLast?_eq_some_getLast hne]
      simpa using rdropWhile_last_not (!p ·) a hne
  · cases hhead : (b.dropWhile (!p ·)).head? with
    | none => rfl
    | some c =>
      have hnot := List.head?_dropWhile_not (!p ·) b
      rw [hhead] at hnot
      simpa using hnot

theorem exists_line_infix_iff {s m : List α} :
    (∃ line ∈ s.splitOnP p, m <:+: line) ↔ m <:+: s ∧ ∀ c ∈ m, p c = false := by
  constructor
  · intro h
    obtain ⟨line, hline, hm⟩ := h
    obtain ⟨before, after, rfl, hclean, -, -⟩ := mem_lines_iff.mp hline
    exact ⟨hm.trans ⟨before, after, rfl⟩, fun c hc => hclean c (hm.subset hc)⟩
  · intro h
    obtain ⟨⟨a, b, rfl⟩, hm⟩ := h
    obtain ⟨front, -, hline⟩ := exists_line_of_stretch a b hm
    exact ⟨_, hline, front, _, rfl⟩

end Almyty.Lib
