import Almyty.Common.ConditionExpression

/-!
# `matchComparison` and its patterns

The shortest left side is taken that an operator follows, so the loop over its ends is the lazy
quantifier itself (`comparisonFrom_eq`).
-/

namespace Almyty.Common

open Almyty.Lib List

/-! ## A comparison's right side -/

/-- What `\s*(.+)$` takes. -/
def rightOf (u : Text) : Option Text :=
  let w := u.dropWhile isSpace
  if w ≠ [] then if w.all isDot then some w else none
  else u.getLast?.bind fun ch => if isDot ch then some [ch] else none

theorem rightOf_cons_space {c : CodeUnit} (hc : isSpace c = true) (u : Text) :
    rightOf (c :: u) =
      (rightOf u).or (if (c :: u).all isDot = true then some (c :: u) else none) := by
  have hbreak : ∀ d ∈ u, isDot d = false → (c :: u).all isDot = false := by
    intro d hd hdot
    rw [all_eq_false]
    exact ⟨d, mem_cons_of_mem c hd, by simp [hdot]⟩
  rw [rightOf, rightOf, dropWhile_cons_of_pos hc]
  by_cases hrest : u.dropWhile isSpace = []
  · simp only [hrest, ne_eq, not_true_eq_false, if_false]
    cases hlast : u.getLast? with
    | none =>
      obtain rfl := List.getLast?_eq_none_iff.mp hlast
      by_cases hdot : isDot c = true <;> simp [hdot]
    | some d =>
      have hlast' : (c :: u).getLast? = some d := by rw [List.getLast?_cons, hlast]; rfl
      rw [hlast', Option.bind_some]
      by_cases hdot : isDot d = true
      · rw [if_pos hdot, Option.some_or]
      · rw [if_neg hdot, hbreak d (List.mem_of_getLast? hlast) (by simpa using hdot)]
        rfl
  · simp only [ne_eq, hrest, not_false_eq_true, if_true]
    by_cases hall : (u.dropWhile isSpace).all isDot = true
    · rw [if_pos hall, Option.some_or]
    · obtain ⟨d, hd, hdot⟩ := all_eq_false.mp (by simpa using hall)
      rw [if_neg hall, hbreak d ((dropWhile_suffix _).subset hd) (by simpa using hdot)]
      rfl

section Right

variable {β : Type} (f : List Text → β)

theorem run_dots_to_end (u : Text) :
    Regex.run (.sequence [.group (.many true 1 isDot), .atEnd]) u (fun groups _ => some (f groups)) =
      if u ≠ [] ∧ u.all isDot = true then some (f [u]) else none := by
  rw [Regex.run_sequence_cons, Regex.run_group, Regex.run_greedy,
    Regex.greedyFrom_of_end fun _ _ => rfl]
  have hne : 1 ≤ u.length ↔ u ≠ [] := by
    rw [← length_pos_iff]
    omega
  simp [hne, Regex.run_atEnd_nil]

theorem run_right (u : Text) :
    Regex.run (.sequence [spaces, .group (.many true 1 isDot), .atEnd]) u
        (fun groups _ => some (f groups)) =
      (rightOf u).map fun right => f [right] := by
  rw [Regex.run_sequence_cons, spaces, Regex.run_greedy]
  simp only [nil_append]
  induction u with
  | nil => simp [Regex.greedyFrom, rightOf]
  | cons c u ih =>
    rw [Regex.greedyFrom, Nat.zero_sub]
    by_cases hc : isSpace c = true
    · -- the space is taken, and given back if nothing goes through without it
      rw [if_pos hc, ih, if_pos rfl, run_dots_to_end, rightOf_cons_space hc]
      cases rightOf u with
      | some right => rfl
      | none => by_cases hall : (c :: u).all isDot = true <;> simp [hall]
    · rw [if_neg hc, if_pos rfl, run_dots_to_end]
      simp [rightOf, dropWhile_cons_of_neg hc]

end Right

theorem rightStart_eq (s : Text) {start : Nat} (hstart : start ≤ s.length) :
    (rightStart s (nextNonSpace s) (lastBreakOf s) start).map (s.drop ·) =
      rightOf (s.drop start) := by
  have hdrop := drop_nextNonSpace s hstart
  rw [rightStart, rightOf, ← hdrop]
  generalize (nextNonSpace s).getD start 0 = w at hdrop ⊢
  have hnonempty : ((w : Int) < s.length) ↔ s.drop w ≠ [] := by
    rw [ne_eq, drop_eq_nil_iff]
    omega
  simp only [hnonempty, gt_iff_lt, lastBreakOf_lt_iff]
  by_cases hw : s.drop w = []
  · rw [if_neg (not_not.mpr hw), if_neg (not_not.mpr hw)]
    -- only spaces are left, and the last of them is the right side
    by_cases hlt : start < s.length
    · obtain ⟨n, hn⟩ : ∃ n, s.length = n + 1 := ⟨s.length - 1, by omega⟩
      have hlast : s.drop n = [s[n]] := by
        rw [drop_eq_getElem_cons (by omega), drop_eq_nil_iff.mpr (by omega)]
      have hget : (s.drop start).getLast? = some s[n] := by
        have hindex : s.length - 1 = n := by omega
        rw [List.getLast?_drop, if_neg (by omega), List.getLast?_eq_getElem?, hindex,
          List.getElem?_eq_getElem]
      have hsub : ((s.length : Int) - 1) = (n : Nat) := by omega
      have hle : ((n : Nat) : Int) ≥ start := by omega
      rw [hget, hsub, Option.bind_some]
      simp only [hle, true_and, lastBreakOf_lt_iff, hlast, Int.toNat_natCast]
      by_cases hdot : isDot s[n] = true <;> simp [hdot, hlast]
    · have hnil : s.drop start = [] := drop_eq_nil_iff.mpr (by omega)
      rw [if_neg (by omega), hnil]
      rfl
  · rw [if_pos hw, if_pos hw]
    by_cases hall : (s.drop w).all isDot = true
    · rw [if_pos hall, if_pos hall]
      rfl
    · rw [if_neg hall, if_neg hall]
      rfl

/-! ## A comparison's operator -/

/-- What the alternatives `a=?` try, in their order. -/
def operatorsOf (ops : List String) : List Text :=
  ops.flatMap fun op => [ascii op ++ ascii "=", ascii op]

section Operators

variable {β : Type} (next : List Text → Text → Option β)

theorem run_orEqual (op : String) (s : Text) :
    Regex.run (orEqual op) s next = [ascii op ++ ascii "=", ascii op].findSome? fun op =>
      if op <+: s then next [] (s.drop op.length) else none := by
  simp only [orEqual, Regex.run_seq, Regex.run_text, Regex.run_optional, append_nil,
    List.findSome?_cons, List.findSome?_nil, append_prefix_iff, length_append, drop_drop]
  by_cases hop : ascii op <+: s
  · by_cases heq : ascii "=" <+: s.drop (ascii op).length
    · cases next [] (s.drop ((ascii op).length + (ascii "=").length)) <;>
        cases next [] (s.drop (ascii op).length) <;> simp [hop, heq]
    · cases next [] (s.drop (ascii op).length) <;> simp [hop, heq]
  · simp [hop]

theorem run_operators (ops : List String) (s : Text) :
    Regex.run (.anyOf (ops.map orEqual)) s next = (operatorsOf ops).findSome? fun op =>
      if op <+: s then next [] (s.drop op.length) else none := by
  induction ops with
  | nil => simp [operatorsOf]
  | cons op ops ih =>
    rw [map_cons, Regex.run_anyOf_cons, ih, run_orEqual, operatorsOf, operatorsOf,
      flatMap_cons, List.findSome?_append]

end Operators

/-! ## The comparisons agree -/

section Comparison

variable (ops : List String)

/-- What `\s*(a=?|…)\s*(.+)$` captures. -/
def afterLeft (t : Text) : Option (Text × Text) :=
  let u := t.dropWhile isSpace
  (operatorsOf ops).findSome? fun op =>
    if op <+: u then (rightOf (u.drop op.length)).map fun right => (op, right) else none

theorem operatorsOf_ne_space (hops : ∀ op ∈ ops, ((ascii op).head?.any fun c => !isSpace c) = true)
    {op : Text} (hop : op ∈ operatorsOf ops) {c : CodeUnit} {t : Text} (hc : isSpace c = true) :
    ¬ op <+: c :: t := by
  intro hbegins
  obtain ⟨name, hname, hmem⟩ := mem_flatMap.mp hop
  have hhead := hops name hname
  cases hunits : ascii name with
  | nil => simp [hunits] at hhead
  | cons d rest =>
    have hd : isSpace d = false := by simpa [hunits] using hhead
    have hop' : ∃ rest', op = d :: rest' := by
      rw [hunits] at hmem
      rcases mem_cons.mp hmem with rfl | hmem
      · exact ⟨_, rfl⟩
      · exact ⟨rest, mem_singleton.mp hmem⟩
    obtain ⟨rest', rfl⟩ := hop'
    obtain ⟨rfl, -⟩ := cons_prefix_cons.mp hbegins
    rw [hc] at hd
    cases hd

variable {β : Type} (f : List Text → β)

theorem run_afterLeft (hops : ∀ op ∈ ops, ((ascii op).head?.any fun c => !isSpace c) = true)
    (t : Text) :
    Regex.run (.sequence [spaces, .group (.anyOf (ops.map orEqual)), spaces,
      .group (.many true 1 isDot), .atEnd]) t (fun groups _ => some (f groups)) =
      (afterLeft ops t).map fun (op, right) => f [op, right] := by
  have htail : ∀ u, Regex.run (.sequence [.group (.anyOf (ops.map orEqual)), spaces,
      .group (.many true 1 isDot), .atEnd]) u (fun groups _ => some (f groups)) =
      (operatorsOf ops).findSome? fun op =>
        if op <+: u then (rightOf (u.drop op.length)).map fun right => f [op, right] else none := by
    intro u
    rw [Regex.run_sequence_cons, Regex.run_group, run_operators]
    congr 1
    funext op
    by_cases hop : op <+: u
    · rw [if_pos hop, if_pos hop, ← run_right fun groups => f (op :: groups)]
      have htaken : u.take (u.length - (u.drop op.length).length) = op := by
        rw [take_sub_drop u hop.length_le, ← prefix_iff_eq_take.mp hop]
      rw [htaken]
      rfl
    · rw [if_neg hop, if_neg hop]
  rw [Regex.run_sequence_cons, spaces, Regex.run_greedy]
  simp only [nil_append]
  rw [← spaces, Regex.greedyFrom_of_refuses, if_pos (Nat.zero_le _), htail, afterLeft]
  · rw [List.map_findSome?]
    congr 1
    funext op
    by_cases hop : op <+: t.dropWhile isSpace <;> simp [hop, Function.comp_def]
  · -- no operator begins with a space
    intro c u hc
    rw [htail, List.findSome?_eq_none_iff]
    intro op hop
    rw [if_neg (operatorsOf_ne_space ops hops hop hc)]

theorem found_eq (s : Text) (start : Nat) {stop : Nat} (hstop : stop ≤ s.length) :
    ((operatorsOf ops).findSome? fun op =>
        if startsWith s op ((nextNonSpace s).getD stop 0) then
          (rightStart s (nextNonSpace s) (lastBreakOf s)
              ((nextNonSpace s).getD stop 0 + op.length)).map fun right =>
            (Regex.slice s start stop, op, s.drop right)
        else none) =
      (afterLeft ops (s.drop stop)).map fun (op, right) =>
        (Regex.slice s start (s.length - (s.drop stop).length), op, right) := by
  have hat := drop_nextNonSpace s hstop
  have hend : s.length - (s.drop stop).length = stop := by
    rw [length_drop]
    omega
  have hle : (nextNonSpace s).getD stop 0 ≤ s.length := by
    have hspaces := (List.takeWhile_prefix isSpace (l := s.drop stop)).length_le
    rw [length_drop] at hspaces
    rw [nextNonSpace_getD s hstop]
    omega
  rw [afterLeft, List.map_findSome?, ← hat, hend]
  congr 1
  funext op
  generalize (nextNonSpace s).getD stop 0 = at' at hle ⊢
  by_cases hop : op <+: s.drop at'
  · have hbegins : startsWith s op at' = true := isPrefixOf_iff_prefix.mpr hop
    have hlen := hop.length_le
    rw [length_drop] at hlen
    have hright := rightStart_eq s (show at' + op.length ≤ s.length by omega)
    rw [if_pos hbegins, Function.comp_apply, if_pos hop, drop_drop, ← hright, Option.map_map,
      Option.map_map]
    rfl
  · have hbegins : ¬ startsWith s op at' = true := fun h => hop (List.isPrefixOf_iff_prefix.mp h)
    rw [if_neg hbegins, Function.comp_apply, if_neg hop, Option.map_none]

theorem comparisonFrom_eq (s : Text) (start left stop : Nat) (hstop : 1 ≤ stop)
    (hleft : left + stop = s.length + 1) :
    comparisonFrom s (operatorsOf ops) start (nextNonSpace s) (lastBreakOf s) left stop =
      Regex.lazyFrom isDot 1 (s.drop (stop - 1)) fun t =>
        (afterLeft ops t).map fun (op, right) =>
          (Regex.slice s start (s.length - t.length), op, right) := by
  induction left generalizing stop with
  | zero =>
    have hnil : s.drop (stop - 1) = [] := drop_eq_nil_iff.mpr (by omega)
    rw [hnil]
    rfl
  | succ left ih =>
    obtain ⟨i, rfl⟩ : ∃ i, stop = i + 1 := ⟨stop - 1, by omega⟩
    have hi : i < s.length := by omega
    rw [comparisonFrom, Nat.add_sub_cancel, List.getElem?_eq_getElem hi, Option.any_some,
      drop_eq_getElem_cons hi, Regex.lazyFrom, if_neg Nat.one_ne_zero, Option.none_or]
    by_cases hbreak : isLineTerminator s[i] = true
    · -- the left side ends at a line break at the latest
      simp [hbreak, isDot]
    · have hdot : isDot s[i] = true := by simpa [isDot] using hbreak
      have hnext := ih (i + 1 + 1) (by omega) (by omega)
      have hfound := found_eq ops s start (show i + 1 ≤ s.length by omega)
      rw [Nat.add_sub_cancel] at hnext
      rw [if_neg hbreak, if_pos hdot, Nat.sub_self, Regex.lazyFrom_zero, hnext]
      simp only [hfound]
      cases (afterLeft ops (s.drop (i + 1))).map _ with
      | none | some => rfl

theorem run_comparisonAfter (s : Text) {start : Nat} (hstart : start ≤ s.length)
    (hops : ∀ op ∈ ops, ((ascii op).head?.any fun c => !isSpace c) = true) :
    Regex.run (.sequence (comparisonAfter (.anyOf (ops.map orEqual)))) (s.drop start)
        (fun groups _ => some groups) =
      (comparisonFrom s (operatorsOf ops) start (nextNonSpace s) (lastBreakOf s)
        (s.length - start) (start + 1)).map fun (left, op, right) => [left, op, right] := by
  have hslice (t : Text) : Regex.slice s start (s.length - t.length) =
      (s.drop start).take ((s.drop start).length - t.length) := by
    rw [Regex.slice, drop_take, length_drop]
    congr 1
    omega
  rw [comparisonFrom_eq ops s start _ _ (by omega) (by omega), comparisonAfter,
    Regex.run_sequence_cons, Regex.run_group, Regex.run_lazy, Nat.add_sub_cancel,
    Regex.lazyFrom_map]
  congr 1
  funext t
  rw [Option.map_map, hslice]
  exact run_afterLeft ops (fun groups => [_] ++ groups) hops t

end Comparison

theorem comparison_agrees (s : Text) :
    (matchComparison s COMPARISON_OPERATORS []).map (fun (left, op, right) => [left, op, right]) =
      COMPARISON.captures s := by
  have hops : COMPARISON_OPERATORS = operatorsOf ["==", "!=", ">", "<"] := by decide
  have hbegins : startsWith s [] 0 = true := by simp [startsWith]
  rw [matchComparison, if_pos hbegins, hops, length_nil,
    ← run_comparisonAfter _ s (Nat.zero_le _) (by decide)]
  rfl

theorem dataComparison_agrees (s : Text) :
    (matchComparison s EQUALITY_OPERATORS (ascii "data.")).map
        (fun (left, op, right) => [left, op, right]) =
      DATA_COMPARISON.captures s := by
  have hops : EQUALITY_OPERATORS = operatorsOf ["==", "!="] := by decide
  rw [DATA_COMPARISON, Regex.captures, Regex.run_sequence_cons, Regex.run_text, matchComparison]
  by_cases hbegins : ascii "data." <+: s
  · have hstarts : startsWith s (ascii "data.") 0 = true := isPrefixOf_iff_prefix.mpr hbegins
    rw [if_pos hstarts, if_pos hbegins, hops,
      ← run_comparisonAfter _ s hbegins.length_le (by decide)]
    rfl
  · have hstarts : ¬ startsWith s (ascii "data.") 0 = true :=
      fun h => hbegins (List.isPrefixOf_iff_prefix.mp h)
    rw [if_neg hstarts, if_neg hbegins, Option.map_none]

end Almyty.Common
