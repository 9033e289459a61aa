import Almyty.Common.ConditionExpression

/-!
# `matchMethodCondition`, `looksLikeMethodCall` and their patterns

The receiver is as long as it can be, so the call is the last one in the text: `LastCall` is the
invariant of the loop over the names.
-/

namespace Almyty.Common

open Almyty.Lib List Option

/-! ## Method calls agree -/

theorem endsWith_close (s : Text) : endsWith s (ascii ")") = true ↔ s.getLast? = some 41 := by
  rw [endsWith, isSuffixOf_iff_suffix, List.getLast?_eq_some_iff]
  constructor <;>
  · intro h
    obtain ⟨t, ht⟩ := h
    exact ⟨t, ht.symm⟩

theorem callAfterDot_open {s rest : Text} (h : CALL_AFTER_DOT.Leaves s rest) :
    ∃ call, s = call ++ 40 :: rest := by
  simp only [CALL_AFTER_DOT, Regex.leaves_sequence_cons, Regex.leaves_sequence_nil,
    Regex.leaves_text, spaces, Regex.Leaves] at h
  obtain ⟨s₁, rfl, s₂, ⟨gap, rfl, -, -⟩, s₃, ⟨c, rfl, -⟩, s₄, ⟨name, rfl, -, -⟩, s₅,
    ⟨gap', rfl, -, -⟩, s₆, rfl, rfl⟩ := h
  refine ⟨ascii "." ++ gap ++ c :: name ++ gap', ?_⟩
  have hopen : ascii "(" = [40] := by decide
  simp [hopen]

theorem beforeCall_iff (s call : Text) :
    (Regex.sequence [.optional (.text (ascii "!")), spaces, .many true 1 fun _ => true]).Leaves
        s call ↔
      ∃ c before, s = c :: before ++ call := by
  simp only [Regex.leaves_sequence_cons, Regex.leaves_sequence_nil, Regex.optional, spaces,
    Regex.Leaves, Regex.leaves_text]
  constructor
  · intro h
    obtain ⟨s₁, hbang, s₂, ⟨gap, rfl, -, -⟩, s₃, ⟨before, rfl, hlen, -⟩, rfl⟩ := h
    obtain ⟨c, before', hbefore⟩ : ∃ c before', gap ++ before = c :: before' := by
      apply exists_cons_of_ne_nil
      intro hnil
      simp [(append_eq_nil_iff.mp hnil).2] at hlen
    rw [← append_assoc gap before s₃, hbefore] at hbang
    rcases hbang with rfl | rfl
    · exact ⟨33, c :: before', rfl⟩
    · exact ⟨c, before', rfl⟩
  · intro h
    obtain ⟨c, before, rfl⟩ := h
    exact ⟨_, .inr rfl, _, ⟨[], rfl, Nat.zero_le _, by simp⟩, call,
      ⟨c :: before, rfl, by simp, by simp⟩, rfl⟩

theorem afterCall_iff (s : Text) :
    (∃ rest, (Regex.sequence [.many true 0 fun _ => true, .text (ascii ")"), .atEnd]).Leaves s rest) ↔
      endsWith s (ascii ")") = true := by
  have hclose : ascii ")" = [41] := by decide
  rw [endsWith_close, List.getLast?_eq_some_iff]
  simp only [Regex.leaves_sequence_cons, Regex.leaves_sequence_nil, Regex.Leaves,
    Regex.leaves_text, hclose]
  constructor
  · intro h
    obtain ⟨_, s₁, ⟨a, rfl, -, -⟩, s₂, rfl, s₃, ⟨rfl, rfl⟩, rfl⟩ := h
    exact ⟨a, rfl⟩
  · intro h
    obtain ⟨a, rfl⟩ := h
    exact ⟨[], [41], ⟨a, rfl, Nat.zero_le _, by simp⟩, [], rfl, [], ⟨rfl, rfl⟩, rfl⟩

theorem methodCall_iff (s : Text) :
    (METHOD_CALL.captures s).isSome ↔
      ∃ c before call rest, s = c :: before ++ call ∧ CALL_AFTER_DOT.Leaves call rest ∧
        endsWith rest (ascii ")") = true := by
  rw [Regex.captures_isSome_iff]
  constructor
  · intro h
    obtain ⟨last, h⟩ := h
    obtain ⟨call, hbefore, h⟩ := (Regex.leaves_sequence_append
      [.optional (.text (ascii "!")), spaces, .many true 1 fun _ => true] _ s last).mp h
    obtain ⟨rest, hcall, hafter⟩ := (Regex.leaves_sequence_append
      [.text (ascii "."), spaces, .unit isWordStart, .many true 0 isWord, spaces,
        .text (ascii "(")] _ call last).mp h
    obtain ⟨c, before, rfl⟩ := (beforeCall_iff s call).mp hbefore
    exact ⟨c, before, call, rest, rfl, hcall, (afterCall_iff rest).mp ⟨last, hafter⟩⟩
  · intro h
    obtain ⟨c, before, call, rest, rfl, hcall, hend⟩ := h
    obtain ⟨last, hafter⟩ := (afterCall_iff rest).mpr hend
    refine ⟨last, (Regex.leaves_sequence_append
      [.optional (.text (ascii "!")), spaces, .many true 1 fun _ => true] _ _ last).mpr
      ⟨call, (beforeCall_iff _ _).mpr ⟨c, before, rfl⟩, ?_⟩⟩
    exact (Regex.leaves_sequence_append
      [.text (ascii "."), spaces, .unit isWordStart, .many true 0 isWord, spaces,
        .text (ascii "(")] _ call last).mpr ⟨rest, hcall, hafter⟩

theorem methodCall_agrees (s : Text) : looksLikeMethodCall s = (METHOD_CALL.captures s).isSome := by
  rw [Bool.eq_iff_iff, methodCall_iff, looksLikeMethodCall, Bool.and_eq_true, Regex.test_iff]
  constructor
  · intro h
    obtain ⟨hend, before, call, rest, hdrop, hcall⟩ := h
    obtain ⟨name, rfl⟩ := callAfterDot_open hcall
    cases s with
    | nil => simp at hdrop
    | cons c s =>
      obtain rfl : s = before ++ (name ++ 40 :: rest) := hdrop
      refine ⟨c, before, _, rest, rfl, hcall, ?_⟩
      -- the parenthesis that was found is not the one at the end
      rw [endsWith_close] at hend ⊢
      cases hlast : rest.getLast? with
      | none => simp [List.getLast?_cons, hlast] at hend
      | some d => simpa [List.getLast?_cons, hlast] using hend
  · intro h
    obtain ⟨c, before, call, rest, rfl, hcall, hend⟩ := h
    obtain ⟨name, rfl⟩ := callAfterDot_open hcall
    refine ⟨?_, before, _, rest, rfl, hcall⟩
    rw [endsWith_close] at hend ⊢
    simp [List.getLast?_cons, hend]

/-! ## Method conditions agree -/

theorem trim_parts (v : Text) :
    ∃ a b, v = a ++ trim v ++ b ∧ (∀ c ∈ a, isSpace c = true) ∧ (∀ c ∈ b, isSpace c = true) ∧
      v.dropWhile isSpace = trim v ++ b := by
  refine ⟨v.takeWhile isSpace, (v.dropWhile isSpace).rtakeWhile isSpace, ?_, ?_, ?_, ?_⟩
  · rw [trim, append_assoc, rdropWhile_append_rtakeWhile, takeWhile_append_dropWhile]
  · exact fun c hc => mem_takeWhile_imp hc
  · exact fun c hc => mem_rtakeWhile_imp hc
  · rw [trim, rdropWhile_append_rtakeWhile]

theorem trim_ends {v a b : Text} (h : trim v = a ++ b) (hb : ∀ c ∈ b, isSpace c = true) :
    b = [] := by
  by_contra hne
  have htrim : trim v ≠ [] := by simp [h, hne]
  refine rdropWhile_last_not isSpace (v.dropWhile isSpace) htrim ?_
  have hlast : (trim v).getLast htrim ∈ b := by
    simp only [h, getLast_append_of_ne_nil _ hne]
    exact getLast_mem hne
  exact hb _ hlast

section Method

variable {β : Type} (f : List Text → β)

theorem run_close (u : Text) :
    Regex.run (.sequence [spaces, .text (ascii ")"), .atEnd]) u (fun groups _ => some (f groups)) =
      if u.dropWhile isSpace = [41] then some (f []) else none := by
  have hclose : ascii ")" = [41] := by decide
  rw [Regex.run_sequence_cons, spaces, Regex.run_greedy, Regex.greedyFrom_of_refuses]
  · simp only [Nat.zero_le, if_true, hclose, Regex.run_sequence_cons, Regex.run_text]
    cases u.dropWhile isSpace with
    | nil => rfl
    | cons c t =>
      by_cases hc : c = 41
      · cases t <;> simp [hc, Regex.run]
      · simp [hc, Ne.symm hc, cons_prefix_cons]
  · intro c t hc
    have hne : (41 : CodeUnit) ≠ c := by
      intro h
      subst h
      revert hc
      decide
    simp [hclose, cons_prefix_cons, hne]

theorem dropWhile_append_close (x : Text) :
    (x ++ [41]).dropWhile isSpace = x.dropWhile isSpace ++ [41] := by
  have hclose : isSpace 41 = false := by decide
  rw [dropWhile_append]
  cases x.dropWhile isSpace with
  | nil => simp [hclose]
  | cons c u => rfl

theorem dropWhile_close (x : Text) :
    (x ++ [41]).dropWhile isSpace = [41] ↔ ∀ c ∈ x, isSpace c = true := by
  rw [dropWhile_append_close, ← dropWhile_eq_nil_iff]
  exact append_left_eq_self

theorem run_argument (v : Text) :
    Regex.run (.sequence [spaces, .group (.many false 0 fun _ => true), spaces,
      .text (ascii ")"), .atEnd]) (v ++ [41]) (fun groups _ => some (f groups)) =
      some (f [trim v]) := by
  obtain ⟨a, b, hv, ha, hb, hdrop⟩ := trim_parts v
  have htext : v ++ [41] = a ++ (trim v ++ (b ++ [41])) := by
    conv_lhs => rw [hv]
    simp
  have htake : (trim v ++ (b ++ [41])).take
      ((trim v ++ (b ++ [41])).length - (b ++ [41]).length) = trim v := by
    rw [length_append, Nat.add_sub_cancel, take_left]
  rw [htext, Regex.run_sequence_cons]
  refine Regex.greedyFrom_eq_some (Nat.zero_le _) ha ?_ ?_
  · refine Regex.lazyFrom_eq_some (Nat.zero_le _) (by simp) ?_ ?_
    · refine (run_close (fun groups => f ([] ++ ([_] ++ groups))) (b ++ [41])).trans ?_
      rw [if_pos ((dropWhile_close b).mpr hb), htake]
      rfl
    · intro a' t' htrim hne _
      refine (run_close (fun groups => f ([] ++ ([_] ++ groups))) (t' ++ (b ++ [41]))).trans ?_
      rw [if_neg]
      intro hspaces
      rw [← append_assoc, dropWhile_close] at hspaces
      exact hne (trim_ends htrim fun c hc => hspaces c (mem_append_left b hc))
  · intro a' t' heq hne hspace
    -- the spaces before are all taken
    obtain ⟨c, a'', rfl⟩ := exists_cons_of_ne_nil hne
    have hhead : (v ++ [41]).dropWhile isSpace = c :: (a'' ++ t') := by
      rw [dropWhile_append_close, hdrop, append_assoc, heq]
      rfl
    have hnot := not_space_of_dropWhile hhead
    simp [hspace] at hnot

/-- `\.(includes|startsWith|endsWith)\(\s*(.*?)\s*\)$`. -/
def callParts : List (Regex CodeUnit) :=
  [.text (ascii "."), .group (.anyOf (METHOD_CALLS.map .text)), .text (ascii "("), spaces,
    .group (.many false 0 fun _ => true), spaces, .text (ascii ")"), .atEnd]

def argumentAt (s : Text) (call : Nat) (method : Text) : Text :=
  trim (Regex.slice s (call + method.length + 2) (s.length - 1))

theorem callText_prefix_iff (name w : Text) :
    callText name <+: w ↔
      ascii "." <+: w ∧ name <+: w.drop 1 ∧ ascii "(" <+: w.drop (1 + name.length) := by
  have hdot : (ascii ".").length = 1 := by decide
  rw [callText, append_prefix_iff, append_prefix_iff, length_append, hdot, and_assoc]

theorem length_callText (name : Text) : (callText name).length = name.length + 2 := by
  have hdot : (ascii ".").length = 1 := by decide
  have hopen : (ascii "(").length = 1 := by decide
  rw [callText, length_append, length_append, hdot, hopen]
  omega

theorem drop_after_call {s : Text} (hend : endsWith s (ascii ")") = true) {i : Nat} {name : Text}
    (hcall : callText name <+: s.drop i) :
    s.drop (i + name.length + 2) =
      Regex.slice s (i + name.length + 2) (s.length - 1) ++ [41] := by
  rw [endsWith_close, List.getLast?_eq_some_iff] at hend
  obtain ⟨t, rfl⟩ := hend
  have hlen := hcall.length_le
  rw [length_drop, length_append, length_singleton, length_callText] at hlen
  have hlt : i + name.length + 2 ≤ t.length := by
    by_contra hgt
    have heq : callText name = (t ++ [41]).drop i := hcall.eq_of_length (by
      rw [length_callText, length_drop, length_append, length_singleton]
      omega)
    have hlast := congrArg List.getLast? heq
    rw [List.getLast?_drop, if_neg (by rw [length_append, length_singleton]; omega)] at hlast
    have hopen : ascii "(" = [40] := by decide
    simp [callText, hopen] at hlast
  rw [Regex.slice, length_append, length_singleton, Nat.add_sub_cancel, take_left,
    drop_append_of_le_length hlt]

theorem run_callParts {s : Text} (hend : endsWith s (ascii ")") = true) (i : Nat) :
    Regex.run (.sequence callParts) (s.drop i) (fun groups _ => some (f groups)) =
      METHOD_CALLS.findSome? fun name =>
        if callText name <+: s.drop i then some (f [name, argumentAt s i name]) else none := by
  have hdot : (ascii ".").length = 1 := by decide
  have hopen : (ascii "(").length = 1 := by decide
  rw [callParts, Regex.run_sequence_cons, Regex.run_text]
  by_cases hbegins : ascii "." <+: s.drop i
  · rw [if_pos hbegins, Regex.run_sequence_cons, Regex.run_group, Regex.run_anyOf_text, hdot]
    congr 1
    funext name
    by_cases hname : name <+: (s.drop i).drop 1
    · rw [if_pos hname, Regex.run_sequence_cons, Regex.run_text, take_sub_drop _ hname.length_le,
        ← prefix_iff_eq_take.mp hname, drop_drop, hopen]
      by_cases hparen : ascii "(" <+: (s.drop i).drop (1 + name.length)
      · have hcall := (callText_prefix_iff name _).mpr ⟨hbegins, hname, hparen⟩
        have hrest : ((s.drop i).drop (1 + name.length)).drop 1 =
            Regex.slice s (i + name.length + 2) (s.length - 1) ++ [41] := by
          rw [← drop_after_call hend hcall, drop_drop, drop_drop]
          congr 1
          omega
        rw [if_pos hparen, if_pos hcall, hrest]
        exact run_argument (fun groups => f ([] ++ ([name] ++ ([] ++ groups)))) _
      · rw [if_neg hparen, if_neg fun h => hparen ((callText_prefix_iff name _).mp h).2.2]
    · rw [if_neg hname, if_neg fun h => hname ((callText_prefix_iff name _).mp h).2.1]
  · rw [if_neg hbegins, eq_comm, List.findSome?_eq_none_iff]
    intro name _
    rw [if_neg fun h => hbegins ((callText_prefix_iff name _).mp h).1]

/-! ### The last call -/

theorem lastIndexOf_spec {pattern : Text} (hne : pattern ≠ []) (s : Text) :
    -1 ≤ lastIndexOf pattern s ∧
      (∀ i : Nat, pattern <+: s.drop i → (i : Int) ≤ lastIndexOf pattern s) ∧
      ∀ i : Nat, lastIndexOf pattern s = i → pattern <+: s.drop i := by
  induction s with
  | nil =>
    have hempty : pattern.isEmpty = false := by simpa using hne
    rw [lastIndexOf, hempty, if_neg Bool.false_ne_true]
    refine ⟨Int.le_refl _, ?_, ?_⟩
    · intro i hi
      rw [drop_nil, prefix_nil] at hi
      exact absurd hi hne
    · intro i hi
      omega
  | cons ch s ih =>
    obtain ⟨hleast, hlast, hat⟩ := ih
    rw [lastIndexOf]
    generalize lastIndexOf pattern s = last at hleast hlast hat
    by_cases hfound : 0 ≤ last
    · rw [if_pos hfound]
      refine ⟨by omega, ?_, ?_⟩
      · intro i hi
        cases i with
        | zero => omega
        | succ i =>
          have hle := hlast i hi
          omega
      · intro i hi
        cases i with
        | zero => omega
        | succ i => exact hat i (by omega)
    · have hnone : ∀ i, ¬ pattern <+: s.drop i := by
        intro i hi
        have hle := hlast i hi
        omega
      rw [if_neg hfound]
      by_cases hhere : pattern.isPrefixOf (ch :: s) = true
      · rw [if_pos hhere]
        refine ⟨by omega, ?_, ?_⟩
        · intro i hi
          cases i with
          | zero => omega
          | succ i => exact absurd hi (hnone i)
        · intro i hi
          obtain rfl : i = 0 := by omega
          exact isPrefixOf_iff_prefix.mp hhere
      · rw [if_neg hhere]
        refine ⟨Int.le_refl _, ?_, ?_⟩
        · intro i hi
          cases i with
          | zero => exact absurd (List.isPrefixOf_iff_prefix.mpr hi) hhere
          | succ i => exact absurd hi (hnone i)
        · intro i hi
          omega

structure LastCall (names : List Text) (s : Text) (last : Int × Text) : Prop where
  least : -1 ≤ last.1
  after : ∀ name ∈ names, ∀ i : Nat, callText name <+: s.drop i → (i : Int) ≤ last.1
  here : ∀ i : Nat, last.1 = i → last.2 ∈ names ∧ callText last.2 <+: s.drop i

theorem LastCall.later {names : List Text} {s : Text} {last : Int × Text}
    (h : LastCall names s last) (name : Text) :
    LastCall (names ++ [name]) s (laterCall s last name) := by
  have hne : callText name ≠ [] := by
    rw [← length_pos_iff, length_callText]
    omega
  obtain ⟨hleast, hafter, hhere⟩ := lastIndexOf_spec hne s
  rw [laterCall]
  by_cases hlater : lastIndexOf (callText name) s > last.1
  · rw [if_pos hlater]
    refine ⟨hleast, ?_, ?_⟩
    · intro name' hname' i hi
      rcases mem_append.mp hname' with hname' | hname'
      · have hle := h.after name' hname' i hi
        show (i : Int) ≤ lastIndexOf (callText name) s
        omega
      · obtain rfl := mem_singleton.mp hname'
        exact hafter i hi
    · intro i hi
      exact ⟨mem_append_right _ (mem_singleton_self _), hhere i hi⟩
  · rw [if_neg hlater]
    refine ⟨h.least, ?_, ?_⟩
    · intro name' hname' i hi
      rcases mem_append.mp hname' with hname' | hname'
      · exact h.after name' hname' i hi
      · obtain rfl := mem_singleton.mp hname'
        have hle := hafter i hi
        omega
    · intro i hi
      obtain ⟨hmem, hcall⟩ := h.here i hi
      exact ⟨mem_append_left _ hmem, hcall⟩

theorem LastCall.foldl {s : Text} (names before : List Text) {last : Int × Text}
    (h : LastCall before s last) :
    LastCall (before ++ names) s (names.foldl (laterCall s) last) := by
  induction names generalizing before last with
  | nil => rwa [append_nil]
  | cons name names ih =>
    rw [foldl_cons, append_cons]
    exact ih _ (h.later name)

theorem lastCallOf_spec (s : Text) : LastCall METHOD_CALLS s (lastCallOf s) :=
  LastCall.foldl METHOD_CALLS [] ⟨Int.le_refl _, by simp, fun i hi => by
    have hneg : (-1 : Int) = i := hi
    omega⟩

theorem callText_inj {a b w : Text} (ha : a ∈ METHOD_CALLS) (hb : b ∈ METHOD_CALLS)
    (hcallA : callText a <+: w) (hcallB : callText b <+: w) : a = b := by
  have hapart : ∀ a ∈ METHOD_CALLS, ∀ b ∈ METHOD_CALLS, callText a <+: callText b → a = b := by
    decide
  rcases prefix_or_prefix_of_prefix hcallA hcallB with h | h
  · exact hapart a ha b hb h
  · exact (hapart b hb a ha h).symm

theorem run_callParts_after {s : Text} (hend : endsWith s (ascii ")") = true) {i : Nat}
    (hafter : (lastCallOf s).1 < i) :
    Regex.run (.sequence callParts) (s.drop i) (fun groups _ => some (f groups)) = none := by
  rw [run_callParts f hend, List.findSome?_eq_none_iff]
  intro name hname
  rw [if_neg]
  intro hcall
  have hle := (lastCallOf_spec s).after name hname i hcall
  omega

theorem run_callParts_here {s : Text} (hend : endsWith s (ascii ")") = true) {call : Nat}
    (hcall : (lastCallOf s).1 = call) :
    Regex.run (.sequence callParts) (s.drop call) (fun groups _ => some (f groups)) =
      some (f [(lastCallOf s).2, argumentAt s call (lastCallOf s).2]) := by
  obtain ⟨hmethod, hhere⟩ := (lastCallOf_spec s).here call hcall
  rw [run_callParts f hend]
  cases hfound : METHOD_CALLS.findSome? fun name =>
      if callText name <+: s.drop call then some (f [name, argumentAt s call name]) else none with
  | none =>
    have hnone := List.findSome?_eq_none_iff.mp hfound _ hmethod
    rw [if_pos hhere] at hnone
    cases hnone
  | some b =>
    obtain ⟨name, hname, hb⟩ := List.exists_of_findSome?_eq_some hfound
    split at hb
    next hcallName =>
      obtain rfl := callText_inj hname hmethod hcallName hhere
      exact hb.symm
    next => cases hb

theorem run_receiver {s : Text} (hend : endsWith s (ascii ")") = true) (start : Nat) :
    Regex.run (.sequence (.group (.many true 1 fun _ => true) :: callParts)) (s.drop start)
        (fun groups _ => some (f groups)) =
      if (start : Int) + 1 ≤ (lastCallOf s).1 then
        some (f [Regex.slice s start (lastCallOf s).1.toNat, (lastCallOf s).2,
          argumentAt s (lastCallOf s).1.toNat (lastCallOf s).2])
      else none := by
  rw [Regex.run_sequence_cons, Regex.run_group, Regex.run_greedy]
  by_cases hroom : (start : Int) + 1 ≤ (lastCallOf s).1
  · obtain ⟨call, hcall⟩ : ∃ call : Nat, (lastCallOf s).1 = call :=
      ⟨(lastCallOf s).1.toNat, by omega⟩
    have hlen := ((lastCallOf_spec s).here call hcall).2.length_le
    rw [length_callText, length_drop] at hlen
    have hslice : Regex.slice s start call = (s.drop start).take (call - start) := drop_take
    have hparts : s.drop start = Regex.slice s start call ++ s.drop call := by
      have hskip : s.drop call = (s.drop start).drop (call - start) := by
        rw [drop_drop]
        congr 1
        omega
      rw [hslice, hskip, take_append_drop]
    have htaken : (s.drop start).take ((s.drop start).length - (s.drop call).length) =
        Regex.slice s start call := by
      rw [hslice, length_drop, length_drop]
      congr 1
      omega
    rw [if_pos hroom, hcall, Int.toNat_natCast]
    conv_lhs => arg 3; rw [hparts]
    refine Regex.greedyFrom_eq_some ?_ (fun _ _ => rfl) ?_ ?_
    · rw [hslice, length_take, length_drop]
      omega
    · refine (run_callParts_here (fun groups => f ([_] ++ groups)) hend hcall).trans ?_
      rw [htaken]
      rfl
    · intro a t heq hne _
      have ht : t = s.drop (call + a.length) := by
        rw [← drop_drop, heq, drop_left]
      have hpos := length_pos_iff.mpr hne
      rw [ht]
      exact run_callParts_after (fun groups => f ([_] ++ groups)) hend (by omega)
  · rw [if_neg hroom, ← not_isSome_iff_eq_none, Regex.greedyFrom_isSome_iff]
    intro hgoes
    obtain ⟨a, t, heq, hpos, -, hsome⟩ := hgoes
    have ht : t = s.drop (start + a.length) := by
      rw [← drop_drop, heq, drop_left]
    refine absurd hsome (not_isSome_iff_eq_none.mpr ?_)
    rw [ht]
    exact run_callParts_after (fun groups => f ([_] ++ groups)) hend (by omega)

theorem run_spaced {s : Text} (hend : endsWith s (ascii ")") = true) (start : Nat) :
    Regex.run (.sequence (spaces :: .group (.many true 1 fun _ => true) :: callParts))
        (s.drop start) (fun groups _ => some (f groups)) =
      (receiverFrom s (lastCallOf s).1 start).map fun receiver =>
        f [receiver, (lastCallOf s).2, argumentAt s (lastCallOf s).1.toNat (lastCallOf s).2] := by
  rw [Regex.run_sequence_cons, spaces, Regex.run_greedy, receiverFrom]
  have hfirst : s.drop (start + ((s.drop start).takeWhile isSpace).length) =
      (s.drop start).dropWhile isSpace := by
    rw [dropWhile_eq_drop, drop_drop]
  by_cases hroom : (start : Int) + 1 ≤ (lastCallOf s).1
  · obtain ⟨call, hcall⟩ : ∃ call : Nat, (lastCallOf s).1 = call + 1 :=
      ⟨((lastCallOf s).1 - 1).toNat, by omega⟩
    have hmin : min ((start + ((s.drop start).takeWhile isSpace).length : Nat) : Int)
        ((lastCallOf s).1 - 1) = (start + min ((s.drop start).takeWhile isSpace).length
          (call - start) : Nat) := by
      omega
    simp only [hmin]
    rw [if_pos (by omega), Int.toNat_natCast, map_some]
    generalize hk : min ((s.drop start).takeWhile isSpace).length (call - start) = k
    have htaken : (s.drop start).take k = ((s.drop start).takeWhile isSpace).take k := by
      conv_lhs => rw [← takeWhile_append_dropWhile (p := isSpace) (l := s.drop start)]
      rw [take_append_of_le_length (by omega)]
    have hparts : s.drop start = ((s.drop start).takeWhile isSpace).take k ++ s.drop (start + k) := by
      rw [← htaken, ← drop_drop, take_append_drop]
    conv_lhs => arg 3; rw [hparts]
    refine Regex.greedyFrom_eq_some (Nat.zero_le _)
      (fun c hc => mem_takeWhile_imp (mem_of_mem_take hc)) ?_ ?_
    · refine (run_receiver (fun groups => f ([] ++ groups)) hend (start + k)).trans ?_
      rw [if_pos (by omega)]
      rfl
    · intro a t heq hne hspace
      have ht : t = s.drop (start + k + a.length) := by
        rw [← drop_drop, heq, drop_left]
      have hpos := length_pos_iff.mpr hne
      by_cases hall : k = ((s.drop start).takeWhile isSpace).length
      · -- nothing that could be taken is left
        obtain ⟨c, a', rfl⟩ := exists_cons_of_ne_nil hne
        rw [hall, hfirst] at heq
        have hnot := not_space_of_dropWhile heq
        simp [hspace] at hnot
      · rw [ht]
        refine (run_receiver (fun groups => f ([] ++ groups)) hend (start + k + a.length)).trans ?_
        rw [if_neg (by omega)]
  · rw [if_neg (by omega), map_none, ← not_isSome_iff_eq_none, Regex.greedyFrom_isSome_iff]
    intro hgoes
    obtain ⟨a, t, heq, -, -, hsome⟩ := hgoes
    have ht : t = s.drop (start + a.length) := by
      rw [← drop_drop, heq, drop_left]
    refine absurd hsome (not_isSome_iff_eq_none.mpr ?_)
    rw [ht]
    refine (run_receiver (fun groups => f ([] ++ groups)) hend (start + a.length)).trans ?_
    rw [if_neg (by omega)]

end Method

theorem method_ends {s : Text} (h : (METHOD.captures s).isSome) : endsWith s (ascii ")") = true := by
  obtain ⟨rest, h⟩ := (Regex.captures_isSome_iff METHOD s).mp h
  obtain ⟨t, hbefore, hafter⟩ := (Regex.leaves_sequence_append
    [.group (.optional (.text (ascii "!"))), spaces, .group (.many true 1 fun _ => true),
      .text (ascii "."), .group (.anyOf (METHOD_CALLS.map .text)), .text (ascii "("), spaces,
      .group (.many false 0 fun _ => true), spaces] [.text (ascii ")"), .atEnd] s rest).mp h
  simp only [Regex.leaves_sequence_cons, Regex.leaves_sequence_nil, Regex.leaves_text,
    Regex.Leaves] at hafter
  obtain ⟨_, rfl, _, ⟨rfl, rfl⟩, rfl⟩ := hafter
  rw [append_nil] at hbefore
  exact isSuffixOf_iff_suffix.mpr hbefore.suffix

theorem method_agrees (s : Text) :
    (matchMethodCondition s).map (fun (negate, receiver, method, argument) =>
      [negate, receiver, method, argument]) = METHOD.captures s := by
  by_cases hend : endsWith s (ascii ")") = true
  · have hbang : ascii "!" = [33] := by decide
    have hnegated : [33] <+: s ↔ s.head? = some 33 := by
      cases s <;> simp [cons_prefix_cons, eq_comm]
    have hleast := (lastCallOf_spec s).least
    rw [METHOD, Regex.captures, Regex.run_sequence_cons, Regex.run_group, Regex.run_optional,
      Regex.run_text, hbang, matchMethodCondition, if_pos hend]
    -- the run from the text itself, and from after the `!`
    have hplain := run_spaced (fun groups => [s.take (s.length - s.length)] ++ groups) hend 0
    have hafter := run_spaced
      (fun groups => [s.take (s.length - (s.drop [(33 : CodeUnit)].length).length)] ++ groups)
      hend 1
    rw [drop_zero] at hplain
    refine Eq.trans ?_ (congrArg₂ Option.or
      (congrArg (fun found => if [33] <+: s then found else none) hafter) hplain).symm
    generalize lastCallOf s = last at hleast ⊢
    obtain ⟨call, method⟩ := last
    replace hleast : -1 ≤ call := hleast
    have htake : s.take (s.length - s.length) = [] := by simp
    simp only [hnegated, htake, hbang, length_singleton]
    by_cases hcall : call = -1
    · have hnone (start : Nat) : receiverFrom s call start = none := if_neg (by omega)
      rw [if_pos hcall, hnone, hnone, map_none, map_none, ite_self]
      rfl
    · rw [if_neg hcall]
      by_cases hnegate : s.head? = some 33
      · have htakeOne : s.take (s.length - (s.drop 1).length) = [33] := by
          obtain ⟨t, rfl⟩ := hnegated.mpr hnegate
          simp
        rw [if_pos hnegate, if_pos hnegate, htakeOne, List.findSome?_cons, List.findSome?_cons,
          List.findSome?_nil]
        cases receiverFrom s call 1 with
        | none => cases receiverFrom s call 0 <;> rfl
        | some receiver => rfl
      · rw [if_neg hnegate, if_neg hnegate, List.findSome?_cons, List.findSome?_nil]
        cases receiverFrom s call 0 <;> rfl
  · have hnone : METHOD.captures s = none :=
      not_isSome_iff_eq_none.mp fun h => hend (method_ends h)
    rw [matchMethodCondition, if_neg hend, hnone, map_none]

end Almyty.Common
