import Almyty.Common.Comparison
import Almyty.Common.MethodCondition

/-!
# `singleReference`, and all readers

A reference is two braces on either side of a text without a closing one, and spaces around
(`Reference`); the reader and the pattern each take exactly these, and return the same path.
-/

namespace Almyty.Common

open Almyty.Lib List

/-! ## References agree -/

structure Reference (s inner : Text) : Prop where
  parts : ∃ before after, s = before ++ (123 :: 123 :: inner ++ [125, 125]) ++ after ∧
    (∀ c ∈ before, isSpace c = true) ∧ ∀ c ∈ after, isSpace c = true
  nonempty : inner ≠ []
  closed : (125 : CodeUnit) ∉ inner

/-- What the pattern captures of what the braces hold. -/
def pathOf (inner : Text) : Text :=
  if (trim inner).isEmpty then inner.drop (inner.length - 1) else trim inner

theorem trim_spaced {before m after : Text} (hbefore : ∀ c ∈ before, isSpace c = true)
    (hafter : ∀ c ∈ after, isSpace c = true) (hne : m ≠ []) (hhead : isSpace (m.head hne) = false)
    (hlast : isSpace (m.getLast hne) = false) : trim (before ++ m ++ after) = m := by
  have hdrop : (before ++ m ++ after).dropWhile isSpace = m ++ after := by
    rw [append_assoc, dropWhile_append_of_pos hbefore]
    obtain ⟨c, m', rfl⟩ := exists_cons_of_ne_nil hne
    rw [cons_append, dropWhile_cons_of_neg (by simpa using hhead)]
  rw [trim, hdrop]
  clear hdrop
  induction after using List.reverseRecOn with
  | nil =>
    rw [append_nil, rdropWhile_eq_self_iff]
    intro _
    simpa using hlast
  | append_singleton after c ih =>
    rw [← append_assoc, rdropWhile_concat_pos _ _ _ (hafter c (by simp))]
    exact ih fun d hd => hafter d (mem_append_left _ hd)

theorem Reference.trim {s inner : Text} (h : Reference s inner) :
    Common.trim s = 123 :: 123 :: inner ++ [125, 125] := by
  obtain ⟨before, after, rfl, hbefore, hafter⟩ := h.parts
  refine trim_spaced hbefore hafter (by simp) ?_ ?_
  · simp only [cons_append, head_cons]
    decide
  · rw [getLast_append_of_ne_nil _ (by simp)]
    decide

theorem singleReference_of {s inner : Text} (h : Reference s inner) :
    singleReference s = some (pathOf inner) := by
  have hopen : ascii "\x7b\x7b" = [123, 123] := by decide
  have hclose : ascii "\x7d\x7d" = [125, 125] := by decide
  have hpos := length_pos_iff.mpr h.nonempty
  have hbegins : startsWith (123 :: 123 :: inner ++ [125, 125]) [123, 123] 0 = true := by
    simp [startsWith]
  have hends : endsWith (123 :: 123 :: inner ++ [125, 125]) [125, 125] = true :=
    isSuffixOf_iff_suffix.mpr (suffix_append _ _)
  have hlen : (123 :: 123 :: inner ++ [(125 : CodeUnit), 125]).length = inner.length + 4 := by simp
  have hslice : Regex.slice (123 :: 123 :: inner ++ [(125 : CodeUnit), 125]) 2
      (inner.length + 4 - 2) = inner := by
    show ((123 :: 123 :: inner ++ [(125 : CodeUnit), 125]).take (inner.length + 2)).drop 2 = inner
    simp
  have hclosed : inner.contains 125 = false := by simpa using h.closed
  rw [singleReference, h.trim, hopen, hclose, hlen, hbegins, hends]
  simp only [hslice, hclosed, pathOf]
  have hlong : ¬ inner.length + 4 < 5 := by omega
  simp [hlong]

theorem reference_of_some {s path : Text} (h : singleReference s = some path) :
    ∃ inner, Reference s inner := by
  have hopen : ascii "\x7b\x7b" = [123, 123] := by decide
  have hclose : ascii "\x7d\x7d" = [125, 125] := by decide
  rw [singleReference, hopen, hclose] at h
  split at h
  next => cases h
  next hshape =>
    simp only [Bool.or_eq_true, decide_eq_true_eq, Bool.not_eq_true', not_or, not_lt,
      Bool.not_eq_false] at hshape
    obtain ⟨⟨hlong, hbegins⟩, hends⟩ := hshape
    obtain ⟨before, after, hs, hbefore, hafter, -⟩ := trim_parts s
    obtain ⟨t, ht⟩ := isPrefixOf_iff_prefix.mp hbegins
    obtain ⟨u, hu⟩ := isSuffixOf_iff_suffix.mp hends
    have hlen : (trim s).length = u.length + 2 := by
      rw [← hu, length_append]
      rfl
    have hslice : Regex.slice (trim s) 2 ((trim s).length - 2) = u.drop 2 := by
      rw [Regex.slice, hlen, Nat.add_sub_cancel, ← hu, take_left]
    have hu' : u = 123 :: 123 :: u.drop 2 := by
      have hfront : u.take 2 = [123, 123] := by
        have htake := congrArg (List.take 2) ht
        rw [drop_zero, ← hu, take_append_of_le_length (show 2 ≤ u.length by omega)] at htake
        exact htake.symm
      conv_lhs => rw [← take_append_drop 2 u, hfront]
      rfl
    rw [hslice] at h
    dsimp only at h
    split at h
    next => cases h
    next hclosed =>
      refine ⟨u.drop 2, ⟨before, after, ?_, hbefore, hafter⟩, ?_, by simpa using hclosed⟩
      · rw [← hu', hu]
        exact hs
      · rw [← length_pos_iff, length_drop]
        omega

theorem reference_of_leaves {s rest : Text} (h : SINGLE_REFERENCE.Leaves s rest) :
    ∃ inner, Reference s inner := by
  have hopen : ascii "\x7b\x7b" = [123, 123] := by decide
  have hclose : ascii "\x7d\x7d" = [125, 125] := by decide
  have hspace : isSpace 125 = false := by decide
  simp only [SINGLE_REFERENCE, Regex.leaves_sequence_cons, Regex.leaves_sequence_nil,
    Regex.leaves_text, spaces, Regex.Leaves, hopen, hclose] at h
  obtain ⟨s₁, ⟨before, rfl, -, hbefore⟩, s₂, rfl, s₃, ⟨gap, rfl, -, hgap⟩, s₄,
    ⟨path, rfl, hlen, hpath⟩, s₅, ⟨gap', rfl, -, hgap'⟩, s₆, rfl, s₇, ⟨after, rfl, -, hafter⟩,
    s₈, ⟨rfl, rfl⟩, rfl⟩ := h
  refine ⟨gap ++ path ++ gap', ⟨before, after, by simp, hbefore, hafter⟩, ?_, ?_⟩
  · rw [← length_pos_iff, length_append, length_append]
    omega
  · intro hmem
    rcases mem_append.mp hmem with hmem | hmem
    · rcases mem_append.mp hmem with hmem | hmem
      · simp [hgap 125 hmem] at hspace
      · simpa using hpath 125 hmem
    · simp [hgap' 125 hmem] at hspace

section Captured

variable {β : Type} (f : List Text → β)

theorem run_braces (u : Text) :
    Regex.run (.sequence [spaces, .text (ascii "\x7d\x7d"), spaces, .atEnd]) u
        (fun groups _ => some (f groups)) =
      if [125, 125] <+: u.dropWhile isSpace ∧ ((u.dropWhile isSpace).drop 2).all isSpace = true then
        some (f [])
      else none := by
  have hclose : ascii "\x7d\x7d" = [125, 125] := by decide
  rw [Regex.run_sequence_cons, spaces, Regex.run_greedy, Regex.greedyFrom_of_refuses]
  · simp only [Nat.zero_le, if_true, hclose, Regex.run_sequence_cons, Regex.run_text,
      Regex.run_greedy]
    by_cases hbegins : [125, 125] <+: u.dropWhile isSpace
    · rw [if_pos hbegins, Regex.greedyFrom_of_end (fun _ _ => rfl)]
      simp [hbegins, Regex.run_atEnd_nil]
    · rw [if_neg hbegins, if_neg fun h => hbegins h.1]
  · intro c t hc
    have hne : (125 : CodeUnit) ≠ c := by
      intro h
      subst h
      revert hc
      decide
    simp [hclose, cons_prefix_cons, hne]

theorem dropWhile_braces {b : Text} (hb : ∀ c ∈ b, isSpace c = true) (after : Text) :
    (b ++ 125 :: 125 :: after).dropWhile isSpace = 125 :: 125 :: after := by
  rw [dropWhile_append_of_pos hb, dropWhile_cons_of_neg (by decide)]

theorem run_captured {x b after : Text} (hne : x ≠ []) (hclosed : (125 : CodeUnit) ∉ x)
    (hb : ∀ c ∈ b, isSpace c = true) (hafter : ∀ c ∈ after, isSpace c = true)
    (hshort : ∀ a t, x = a ++ t → a ≠ [] → (∀ c ∈ t, isSpace c = true) → t = []) :
    Regex.run (.sequence [.group (.many false 1 (· ≠ 125)), spaces, .text (ascii "\x7d\x7d"), spaces,
      .atEnd]) (x ++ (b ++ 125 :: 125 :: after)) (fun groups _ => some (f groups)) =
      some (f [x]) := by
  have htake : (x ++ (b ++ 125 :: 125 :: after)).take
      ((x ++ (b ++ 125 :: 125 :: after)).length - (b ++ 125 :: 125 :: after).length) = x := by
    rw [length_append, Nat.add_sub_cancel, take_left]
  have hpos := length_pos_iff.mpr hne
  rw [Regex.run_sequence_cons]
  refine Regex.lazyFrom_eq_some hpos ?_ ?_ ?_
  · intro c hc
    have hbrace : c ≠ 125 := fun h => hclosed (h ▸ hc)
    simpa using hbrace
  · refine (run_braces (fun groups => f ([_] ++ groups)) (b ++ 125 :: 125 :: after)).trans ?_
    rw [dropWhile_braces hb, if_pos ⟨⟨after, rfl⟩, all_eq_true.mpr hafter⟩, htake]
    rfl
  · intro a t hx ht hlen
    refine (run_braces (fun groups => f ([_] ++ groups)) (t ++ (b ++ 125 :: 125 :: after))).trans ?_
    rw [if_neg]
    intro hbraces
    obtain ⟨⟨rest, hrest⟩, -⟩ := hbraces
    by_cases hspaces : ∀ c ∈ t, isSpace c = true
    · exact ht (hshort a t hx (length_pos_iff.mp hlen) hspaces)
    · -- what is left of the text does not begin with a brace
      have hleft : t.dropWhile isSpace ≠ [] := fun h => hspaces (dropWhile_eq_nil_iff.mp h)
      obtain ⟨c, u, hu⟩ := exists_cons_of_ne_nil hleft
      rw [dropWhile_append, hu] at hrest
      have hc : c = 125 := (cons_eq_cons.mp hrest).1.symm
      have hmem : c ∈ t := (dropWhile_suffix isSpace).subset (hu ▸ mem_cons_self)
      exact hclosed (hc ▸ hx ▸ mem_append_right a hmem)

theorem run_path {inner after : Text} (hne : inner ≠ []) (hclosed : (125 : CodeUnit) ∉ inner)
    (hafter : ∀ c ∈ after, isSpace c = true) :
    Regex.run (.sequence [spaces, .group (.many false 1 (· ≠ 125)), spaces, .text (ascii "\x7d\x7d"),
      spaces, .atEnd]) (inner ++ 125 :: 125 :: after) (fun groups _ => some (f groups)) =
      some (f [pathOf inner]) := by
  obtain ⟨a, b, hinner, ha, hb, hdrop⟩ := trim_parts inner
  rw [Regex.run_sequence_cons, pathOf]
  by_cases htrim : trim inner = []
  · -- all spaces: the last of them is given back
    have hspaces : ∀ c ∈ inner, isSpace c = true := by
      intro c hc
      rw [hinner, htrim, append_nil] at hc
      rcases mem_append.mp hc with hc | hc
      · exact ha c hc
      · exact hb c hc
    obtain ⟨gap, c, rfl⟩ : ∃ gap c, inner = gap ++ [c] :=
      ⟨inner.dropLast, inner.getLast hne, (dropLast_append_getLast hne).symm⟩
    have hlast : (gap ++ [c]).drop ((gap ++ [c]).length - 1) = [c] := by simp
    rw [htrim, isEmpty_nil, if_pos rfl, hlast, append_assoc]
    refine Regex.greedyFrom_eq_some (Nat.zero_le _)
      (fun d hd => hspaces d (mem_append_left [c] hd)) ?_ ?_
    · refine run_captured (fun groups => f ([] ++ groups)) (by simp)
        (fun h => hclosed (mem_append_right gap h)) (b := []) (by simp) hafter ?_
      intro a t ht hne' _
      rcases append_eq_singleton_iff.mp ht.symm with ⟨hnil, -⟩ | ⟨-, hnil⟩
      · exact absurd hnil hne'
      · exact hnil
    · intro a' t' heq hne' hspace
      obtain ⟨d, a'', rfl⟩ := exists_cons_of_ne_nil hne'
      obtain ⟨rfl, htail⟩ := cons_eq_cons.mp heq
      -- after the last space comes a brace
      cases a'' with
      | nil =>
        obtain rfl : 125 :: 125 :: after = t' := htail
        simp [Regex.lazyFrom]
      | cons e a'' =>
        obtain ⟨rfl, -⟩ := cons_eq_cons.mp htail
        have hbrace : isSpace 125 = false := by decide
        simp [hspace] at hbrace
  · have htext : inner ++ 125 :: 125 :: after = a ++ (trim inner ++ (b ++ 125 :: 125 :: after)) := by
      conv_lhs => rw [hinner]
      simp
    have hempty : (trim inner).isEmpty = false := by simpa using htrim
    have hsub : ∀ c ∈ trim inner, c ∈ inner := by
      intro c hc
      rw [hinner]
      exact mem_append_left b (mem_append_right a hc)
    rw [htext, hempty]
    refine Regex.greedyFrom_eq_some (Nat.zero_le _) ha ?_ ?_
    · exact run_captured (fun groups => f ([] ++ groups)) htrim (fun h => hclosed (hsub 125 h)) hb
        hafter fun a t ht _ hspaces => trim_ends ht hspaces
    · intro a' t' heq hne' hspace
      obtain ⟨c, u, hu⟩ := exists_cons_of_ne_nil htrim
      obtain ⟨d, a'', rfl⟩ := exists_cons_of_ne_nil hne'
      rw [hu] at hdrop heq
      have hnot := not_space_of_dropWhile hdrop
      obtain ⟨rfl, -⟩ := cons_eq_cons.mp heq
      simp [hspace] at hnot

theorem captures_of {s inner : Text} (h : Reference s inner) :
    SINGLE_REFERENCE.captures s = some [pathOf inner] := by
  have hopen : ascii "\x7b\x7b" = [123, 123] := by decide
  obtain ⟨before, after, rfl, hbefore, hafter⟩ := h.parts
  have htext : before ++ (123 :: 123 :: inner ++ [125, 125]) ++ after =
      before ++ ([123, 123] ++ (inner ++ 125 :: 125 :: after)) := by simp
  rw [htext, SINGLE_REFERENCE, Regex.captures, Regex.run_sequence_cons, hopen]
  refine Regex.greedyFrom_eq_some (Nat.zero_le _) hbefore ?_ ?_
  · beta_reduce
    rw [Regex.run_sequence_cons, Regex.run_text, if_pos (prefix_append _ _), drop_left]
    exact run_path (fun groups => [] ++ ([] ++ groups)) h.nonempty h.closed hafter
  · intro a t heq hne hspace
    obtain ⟨c, a', rfl⟩ := exists_cons_of_ne_nil hne
    obtain ⟨rfl, -⟩ := cons_eq_cons.mp heq
    have hbrace : isSpace 123 = false := by decide
    simp [hspace] at hbrace

end Captured

theorem reference_agrees (s : Text) :
    (singleReference s).map (fun path => [path]) = SINGLE_REFERENCE.captures s := by
  cases hread : singleReference s with
  | some path =>
    obtain ⟨inner, h⟩ := reference_of_some hread
    rw [← hread, singleReference_of h, captures_of h]
    rfl
  | none =>
    cases hcaptured : SINGLE_REFERENCE.captures s with
    | none => rfl
    | some groups =>
      obtain ⟨rest, hrest⟩ := (Regex.captures_isSome_iff SINGLE_REFERENCE s).mp
        (by rw [hcaptured]; rfl)
      obtain ⟨inner, h⟩ := reference_of_leaves hrest
      rw [singleReference_of h] at hread
      cases hread

/-! ## The readers agree -/

/-- Each reader returns what its pattern captures, on every text. -/
theorem readers_agree (s : Text) :
    (matchMethodCondition s).map (fun (negate, receiver, method, argument) =>
        [negate, receiver, method, argument]) = METHOD.captures s ∧
      (matchComparison s COMPARISON_OPERATORS []).map
        (fun (left, op, right) => [left, op, right]) = COMPARISON.captures s ∧
      (matchComparison s EQUALITY_OPERATORS (ascii "data.")).map
        (fun (left, op, right) => [left, op, right]) = DATA_COMPARISON.captures s ∧
      looksLikeMethodCall s = (METHOD_CALL.captures s).isSome ∧
      (singleReference s).map (fun path => [path]) = SINGLE_REFERENCE.captures s :=
  ⟨method_agrees s, comparison_agrees s, dataComparison_agrees s, methodCall_agrees s,
    reference_agrees s⟩

end Almyty.Common
