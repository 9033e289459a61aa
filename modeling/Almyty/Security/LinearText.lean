import Almyty.Common.ConditionExpression

/-!
# One pass over delimiters: `common/security/linear-text.ts`

`/<open>([^<close[0]>]+)<close>/g` is tried again from every opener, and each try runs to the next
`close[0]`. The scan goes over the text once: an opener whose next `close[0]` is not the closer is
passed over together with all before that character. `spans_agree` says that it finds what the
pattern finds.
-/

namespace Almyty.Security

open Almyty.Lib List
open Almyty.Common (Text CodeUnit startsWith ascii)

structure DelimitedSpan where
  start : Nat
  stop : Nat
  body : Text

def indexOf (value pattern : Text) (at' : Nat) : Option Nat :=
  (List.range' at' (value.length + 1 - at')).find? fun i => startsWith value pattern i

section Delimited

variable (value opener : Text) (stop : CodeUnit) (rest : Text)

def delimitedSpansFrom (limit : Option Nat) :
    Nat → List DelimitedSpan → Nat → List DelimitedSpan
  | 0, spans, _ => spans
  | fuel + 1, spans, at' =>
    if limit.any (· ≤ spans.length) then spans
    else
      match indexOf value opener at' with
      | none => spans
      | some start =>
        let bodyStart := start + opener.length
        match indexOf value [stop] bodyStart with
        | none => spans
        | some first =>
          if first = bodyStart then delimitedSpansFrom limit fuel spans (start + 1)
          else if startsWith value (stop :: rest) first then
            let stop' := first + (stop :: rest).length
            delimitedSpansFrom limit fuel
              (spans ++ [⟨start, stop', Regex.slice value bodyStart first⟩]) stop'
          else delimitedSpansFrom limit fuel spans first

def delimitedSpans (limit : Option Nat) : List DelimitedSpan :=
  delimitedSpansFrom value opener stop rest limit (value.length + 1) [] 0

def replaceSpans (replacer : Text → Text → Text) : Text → Nat → List DelimitedSpan → Text × Nat
  | out, kept, [] => (out, kept)
  | out, kept, span :: spans =>
    replaceSpans replacer
      (out ++ Regex.slice value kept span.start ++
        replacer (Regex.slice value span.start span.stop) span.body) span.stop spans

def replaceDelimited (replacer : Text → Text → Text) : Text :=
  let (out, kept) :=
    replaceSpans value replacer [] 0 (delimitedSpans value opener stop rest none)
  if kept = 0 then value else out ++ value.drop kept

def matchDelimited : List Text :=
  (delimitedSpans value opener stop rest none).map fun span =>
    Regex.slice value span.start span.stop

def hasDelimited : Bool := (delimitedSpans value opener stop rest (some 1)).length > 0

/-- `[^<close[0]>]+`. -/
def bodyPattern : Regex CodeUnit := .many true 1 (· ≠ stop)

/-- `/<open>([^<close[0]>]+)<close>/g`. -/
def delimited : Regex CodeUnit :=
  .sequence [.text opener, .group (bodyPattern stop), .text (stop :: rest)]

/-- `/<open>[^<close[0]>]+<close>/g`. -/
def delimitedWhole : Regex CodeUnit :=
  .sequence [.text opener, bodyPattern stop, .text (stop :: rest)]

/-- The match that begins at an index. -/
def spanAt (i : Nat) : Option DelimitedSpan :=
  let bodyStart := i + opener.length
  let body := (value.drop bodyStart).takeWhile (· ≠ stop)
  let first := bodyStart + body.length
  if opener <+: value.drop i ∧ body ≠ [] ∧ stop :: rest <+: value.drop first then
    some ⟨i, first + (stop :: rest).length, body⟩
  else none

end Delimited

/-! ## What the patterns match -/

section Patterns

variable {value opener : Text} {stop : CodeUnit} {rest : Text}

theorem run_body (stop : CodeUnit) (rest : Text) {β : Type} (s : Text)
    (next : Text → List Text → Text → Option β) :
    Regex.run (bodyPattern stop) s (fun groups s' =>
        Regex.run (.sequence [.text (stop :: rest)]) s' fun groups' s'' =>
          next s' (groups ++ groups') s'') =
      if s.takeWhile (· ≠ stop) ≠ [] ∧ stop :: rest <+: s.dropWhile (· ≠ stop) then
        next (s.dropWhile (· ≠ stop)) [] ((s.dropWhile (· ≠ stop)).drop (stop :: rest).length)
      else none := by
  rw [bodyPattern, Regex.run_greedy, Regex.greedyFrom_of_refuses]
  · have hpos : 1 ≤ (s.takeWhile (· ≠ stop)).length ↔ s.takeWhile (· ≠ stop) ≠ [] := by
      rw [← length_pos_iff]
      omega
    simp only [hpos, Regex.run_sequence_cons, Regex.run_sequence_nil, Regex.run_text, append_nil]
    generalize s.takeWhile (· ≠ stop) = body
    generalize s.dropWhile (· ≠ stop) = after
    by_cases hbody : body = [] <;> by_cases hclose : stop :: rest <+: after <;>
      simp [hbody, hclose]
  · intro c t hc
    have hne : stop ≠ c := fun h => by simp [h] at hc
    simp [cons_prefix_cons, hne]

theorem matchHere_delimited (s : Text) :
    (delimited opener stop rest).matchHere s =
      if opener <+: s ∧ (s.drop opener.length).takeWhile (· ≠ stop) ≠ [] ∧
          stop :: rest <+: (s.drop opener.length).dropWhile (· ≠ stop) then
        some ([(s.drop opener.length).takeWhile (· ≠ stop)],
          ((s.drop opener.length).dropWhile (· ≠ stop)).drop (stop :: rest).length)
      else none := by
  have htaken (u : Text) : u.take (u.length - (u.dropWhile (· ≠ stop)).length) =
      u.takeWhile (· ≠ stop) := by
    have hfront := takeWhile_prefix (· ≠ stop) (l := u)
    rw [Common.dropWhile_eq_drop, Common.take_sub_drop u hfront.length_le,
      ← prefix_iff_eq_take.mp hfront]
  rw [Regex.matchHere, delimited, Regex.run_sequence_cons, Regex.run_text]
  by_cases hopen : opener <+: s
  · rw [if_pos hopen]
    refine (run_body stop rest (s.drop opener.length) fun s' groups s'' =>
      some ((s.drop opener.length).take ((s.drop opener.length).length - s'.length) :: groups,
        s'')).trans ?_
    simp only [hopen, true_and, htaken]
  · rw [if_neg hopen, if_neg fun h => hopen h.1]

theorem matchHere_delimitedWhole (s : Text) :
    (delimitedWhole opener stop rest).matchHere s =
      if opener <+: s ∧ (s.drop opener.length).takeWhile (· ≠ stop) ≠ [] ∧
          stop :: rest <+: (s.drop opener.length).dropWhile (· ≠ stop) then
        some ([], ((s.drop opener.length).dropWhile (· ≠ stop)).drop (stop :: rest).length)
      else none := by
  rw [Regex.matchHere, delimitedWhole, Regex.run_sequence_cons, Regex.run_text]
  by_cases hopen : opener <+: s
  · rw [if_pos hopen]
    refine (run_body stop rest (s.drop opener.length) fun _ groups s'' => some (groups, s'')).trans ?_
    simp only [hopen, true_and]
  · rw [if_neg hopen, if_neg fun h => hopen h.1]

theorem length_matched {s : Text} (hopen : opener <+: s)
    (hclose : stop :: rest <+: (s.drop opener.length).dropWhile (· ≠ stop)) :
    s.length - (((s.drop opener.length).dropWhile (· ≠ stop)).drop (stop :: rest).length).length =
      opener.length + ((s.drop opener.length).takeWhile (· ≠ stop)).length +
        (stop :: rest).length := by
  have hopenLen := hopen.length_le
  have hcloseLen := hclose.length_le
  have hparts := congrArg List.length (takeWhile_append_dropWhile (p := (· ≠ stop))
    (l := s.drop opener.length))
  rw [length_append, length_drop] at hparts
  rw [length_drop (l := List.dropWhile _ _)]
  omega

variable (value opener stop rest) in
theorem foundAt_delimited (i : Nat) :
    (delimited opener stop rest).foundAt value i =
      (spanAt value opener stop rest i).map fun span =>
        ⟨span.start, span.stop, [span.body]⟩ := by
  rw [Regex.foundAt, matchHere_delimited, spanAt]
  simp only [← drop_drop, ← Common.dropWhile_eq_drop]
  split
  next h =>
    rw [Option.map_some, Option.map_some, length_matched h.1 h.2.2, ← Nat.add_assoc,
      ← Nat.add_assoc]
  next => rfl

variable (value opener stop rest) in
theorem foundAt_delimitedWhole (i : Nat) :
    (delimitedWhole opener stop rest).foundAt value i =
      (spanAt value opener stop rest i).map fun span => ⟨span.start, span.stop, []⟩ := by
  rw [Regex.foundAt, matchHere_delimitedWhole, spanAt]
  simp only [← drop_drop, ← Common.dropWhile_eq_drop]
  split
  next h =>
    rw [Option.map_some, Option.map_some, length_matched h.1 h.2.2, ← Nat.add_assoc,
      ← Nat.add_assoc]
  next => rfl

end Patterns

/-! ## What the scan passes over -/

section Scan

variable {value opener : Text} {stop : CodeUnit} {rest : Text}

theorem startsWith_iff {pattern : Text} {i : Nat} :
    startsWith value pattern i = true ↔ pattern <+: value.drop i :=
  isPrefixOf_iff_prefix

theorem indexOf_none {pattern : Text} (hne : pattern ≠ []) {at' : Nat}
    (h : indexOf value pattern at' = none) {i : Nat} (hi : at' ≤ i) :
    ¬ pattern <+: value.drop i := by
  intro hbegins
  have hlen := hbegins.length_le
  have hpos := length_pos_iff.mpr hne
  rw [length_drop] at hlen
  refine List.find?_eq_none.mp h i ?_ (startsWith_iff.mpr hbegins)
  rw [mem_range'_1]
  omega

theorem indexOf_some {pattern : Text} {at' k : Nat} (h : indexOf value pattern at' = some k) :
    at' ≤ k ∧ pattern <+: value.drop k ∧ ∀ i, at' ≤ i → i < k → ¬ pattern <+: value.drop i := by
  rw [indexOf, List.find?_range'_eq_some] at h
  obtain ⟨hk, hmem, hbefore⟩ := h
  rw [mem_range'_1] at hmem
  refine ⟨hmem.1, startsWith_iff.mp hk, ?_⟩
  intro i hle hlt hbegins
  have hnot := hbefore i hle hlt
  rw [startsWith_iff.mpr hbegins] at hnot
  cases hnot

theorem singleton_prefix_drop {i : Nat} : [stop] <+: value.drop i ↔ value[i]? = some stop := by
  rw [← List.head?_drop]
  cases value.drop i <;> simp [cons_prefix_cons, eq_comm]

theorem takeWhile_stop {b first : Nat} (hle : b ≤ first) (hstop : value[first]? = some stop)
    (hbefore : ∀ i, b ≤ i → i < first → value[i]? ≠ some stop) :
    (value.drop b).takeWhile (· ≠ stop) = Regex.slice value b first := by
  have hlt : first < value.length := (List.getElem?_eq_some_iff.mp hstop).1
  have hparts : value.drop b = Regex.slice value b first ++ value.drop first := by
    have hskip : value.drop first = (value.drop b).drop (first - b) := by
      rw [drop_drop]
      congr 1
      omega
    rw [Regex.slice, drop_take, hskip, take_append_drop]
  have hhead : value.drop first = stop :: value.drop (first + 1) := by
    obtain ⟨_, hget⟩ := List.getElem?_eq_some_iff.mp hstop
    rw [drop_eq_getElem_cons hlt, hget]
  rw [hparts, takeWhile_append_of_pos, hhead, takeWhile_cons_of_neg (by simp), append_nil]
  intro c hc
  obtain ⟨n, hn, rfl⟩ := getElem_of_mem hc
  rw [Regex.slice, length_drop, length_take] at hn
  have hne := hbefore (b + n) (by omega) (by omega)
  simp only [Regex.slice, getElem_drop, getElem_take]
  rw [List.getElem?_eq_getElem (by omega)] at hne
  simpa using hne

theorem spanAt_of_no_stop {i : Nat}
    (hnone : ∀ j, i + opener.length ≤ j → ¬ [stop] <+: value.drop j) :
    spanAt value opener stop rest i = none := by
  rw [spanAt, if_neg]
  intro h
  obtain ⟨-, -, hclose⟩ := h
  refine hnone _ (Nat.le_add_right _ _) (List.IsPrefix.trans ?_ hclose)
  exact ⟨rest, rfl⟩

theorem spanAt_before (rest : Text) {start first i : Nat} (hclosed : stop ∉ opener) (hi : start ≤ i)
    (hlt : i < first) (hstop : value[first]? = some stop)
    (hbefore : ∀ j, start + opener.length ≤ j → j < first → value[j]? ≠ some stop) :
    spanAt value opener stop rest i =
      if opener <+: value.drop i ∧ i + opener.length ≠ first ∧
          stop :: rest <+: value.drop first then
        some ⟨i, first + (stop :: rest).length, Regex.slice value (i + opener.length) first⟩
      else none := by
  rw [spanAt]
  by_cases hopen : opener <+: value.drop i
  · -- the opener does not reach over the `close[0]`
    have hle : i + opener.length ≤ first := by
      by_contra hgt
      obtain ⟨t, ht⟩ := hopen
      have hget : (value.drop i)[first - i]? = some stop := by
        rw [List.getElem?_drop]
        have hindex : i + (first - i) = first := by omega
        rw [hindex, hstop]
      rw [← ht, List.getElem?_append_left (by omega)] at hget
      exact hclosed (List.mem_of_getElem? hget)
    have hbody := takeWhile_stop hle hstop fun j hj hjlt => hbefore j (by omega) hjlt
    have hlen : (Regex.slice value (i + opener.length) first).length =
        first - (i + opener.length) := by
      have hfirst := (List.getElem?_eq_some_iff.mp hstop).1
      rw [Regex.slice, length_drop, length_take]
      omega
    have hne : Regex.slice value (i + opener.length) first ≠ [] ↔ i + opener.length ≠ first := by
      rw [← length_pos_iff, hlen]
      omega
    have hend : i + opener.length + (first - (i + opener.length)) = first := by omega
    simp only [hbody, hlen, hne, hend]
  · rw [if_neg fun h => hopen h.1, if_neg fun h => hopen h.1]

theorem delimitedSpansFrom_eq {r : Regex CodeUnit} {groups : DelimitedSpan → List Text}
    (hne : opener ≠ []) (hclosed : stop ∉ opener)
    (hr : ∀ i, r.foundAt value i = (spanAt value opener stop rest i).map fun span =>
      ⟨span.start, span.stop, groups span⟩)
    (fuel fuel' at' : Nat) (spans : List DelimitedSpan) (hfuel : value.length + 1 ≤ fuel + at')
    (hfuel' : value.length + 1 ≤ fuel' + at') :
    (delimitedSpansFrom value opener stop rest none fuel spans at').map
        (fun span => (⟨span.start, span.stop, groups span⟩ : Regex.Found CodeUnit)) =
      spans.map (fun span => ⟨span.start, span.stop, groups span⟩) ++ r.allFrom value fuel' at' := by
  have hpos := length_pos_iff.mpr hne
  have hfound {i : Nat} (h : spanAt value opener stop rest i = none) : r.foundAt value i = none := by
    rw [hr, h, Option.map_none]
  induction fuel generalizing fuel' at' spans with
  | zero =>
    have hexec : r.exec value at' = none := if_pos (by omega)
    rw [Regex.allFrom_of_exec_none hexec, append_nil]
    rfl
  | succ fuel ih =>
    rw [delimitedSpansFrom, if_neg (by simp)]
    cases hopen : indexOf value opener at' with
    | none =>
      have hexec : r.exec value at' = none := by
        refine r.exec_none value fun i hi => hfound ?_
        rw [spanAt, if_neg fun h => indexOf_none hne hopen hi h.1]
      rw [Regex.allFrom_of_exec_none hexec, append_nil]
    | some start =>
      obtain ⟨hat, hstart, hearlier⟩ := indexOf_some hopen
      have hlen := hstart.length_le
      rw [length_drop] at hlen
      -- before the opener there is no match
      have hskip : r.exec value at' = r.exec value start := by
        refine r.exec_skip value hat fun i hi hlt => hfound ?_
        rw [spanAt, if_neg fun h => hearlier i hi hlt h.1]
      dsimp only
      cases hstop : indexOf value [stop] (start + opener.length) with
      | none =>
        have hexec : r.exec value start = none := by
          refine r.exec_none value fun i hi => hfound (spanAt_of_no_stop fun j hj => ?_)
          exact indexOf_none (by simp) hstop (by omega)
        rw [Regex.allFrom_of_exec_none (hskip.trans hexec), append_nil]
      | some first =>
        obtain ⟨hle, hfirst, hbefore⟩ := indexOf_some hstop
        simp only [singleton_prefix_drop] at hfirst hbefore
        have hlt := (List.getElem?_eq_some_iff.mp hfirst).1
        have hspan {i : Nat} (hi : start ≤ i) (hlt : i < first) :=
          spanAt_before rest hclosed hi hlt hfirst hbefore
        dsimp only
        by_cases hempty : first = start + opener.length
        · have hnone := hspan (Nat.le_refl start) (by omega)
          rw [if_neg fun h => h.2.1 hempty.symm] at hnone
          have hexec : r.exec value start = r.exec value (start + 1) := by
            refine r.exec_skip value (Nat.le_succ start) fun i hi hlt => hfound ?_
            obtain rfl : i = start := by omega
            exact hnone
          rw [if_pos hempty, ih fuel' (start + 1) spans (by omega) (by omega),
            Regex.allFrom_congr (hskip.trans hexec)]
        · rw [if_neg hempty]
          by_cases hclose : startsWith value (stop :: rest) first = true
          · have hmatch := hspan (Nat.le_refl start) (by omega)
            rw [if_pos ⟨hstart, Ne.symm hempty, startsWith_iff.mp hclose⟩] at hmatch
            have hexec := hskip.trans (r.exec_here value (by omega)
              ((hr start).trans (congrArg (Option.map _) hmatch)))
            have hstop' : first + (stop :: rest).length ≠ start := by omega
            obtain ⟨fuel', rfl⟩ : ∃ f, fuel' = f + 1 := ⟨fuel' - 1, by omega⟩
            rw [if_pos hclose, ih fuel' _ _ (by simp; omega) (by simp; omega), Regex.allFrom, hexec,
              map_append, append_assoc]
            simp only [map_cons, map_nil, hstop', if_false]
            rfl
          · have hexec : r.exec value start = r.exec value first := by
              refine r.exec_skip value (by omega) fun i hi hlt => hfound ?_
              rw [hspan hi hlt, if_neg fun h => hclose (startsWith_iff.mpr h.2.2)]
            rw [if_neg hclose, ih fuel' first spans (by omega) (by omega),
              Regex.allFrom_congr (hskip.trans hexec)]

theorem delimitedSpansFrom_acc (fuel at' : Nat) (spans : List DelimitedSpan) :
    delimitedSpansFrom value opener stop rest none fuel spans at' =
      spans ++ delimitedSpansFrom value opener stop rest none fuel [] at' := by
  induction fuel generalizing at' spans with
  | zero => simp [delimitedSpansFrom]
  | succ fuel ih =>
    rw [delimitedSpansFrom, delimitedSpansFrom, if_neg (by simp), if_neg (by simp)]
    cases indexOf value opener at' with
    | none => simp
    | some start =>
      dsimp only
      cases indexOf value [stop] (start + opener.length) with
      | none => simp
      | some first =>
        dsimp only
        split
        next => exact ih _ spans
        next =>
          split
          next => rw [ih _ (spans ++ _), ih _ ([] ++ _), append_assoc, nil_append]
          next => exact ih _ spans

theorem delimitedSpansFrom_limit (n fuel at' : Nat) (spans : List DelimitedSpan) :
    delimitedSpansFrom value opener stop rest (some n) fuel spans at' =
      spans ++ (delimitedSpansFrom value opener stop rest none fuel [] at').take
        (n - spans.length) := by
  induction fuel generalizing at' spans with
  | zero => simp [delimitedSpansFrom]
  | succ fuel ih =>
    rw [delimitedSpansFrom, delimitedSpansFrom]
    by_cases hfull : n ≤ spans.length
    · have hzero : n - spans.length = 0 := by omega
      rw [if_pos (by simpa using hfull), hzero, take_zero, append_nil]
    · rw [if_neg (by simpa using hfull), if_neg (by simp)]
      cases indexOf value opener at' with
      | none => simp
      | some start =>
        dsimp only
        cases indexOf value [stop] (start + opener.length) with
        | none => simp
        | some first =>
          dsimp only
          split
          next => exact ih _ spans
          next =>
            split
            next =>
              have hsucc : n - spans.length = (n - (spans.length + 1)) + 1 := by omega
              rw [ih, delimitedSpansFrom_acc fuel _ ([] ++ [_]), length_append, hsucc]
              simp
            next => exact ih _ spans

end Scan

/-! ## The helpers agree -/

section Agree

variable (value opener : Text) (stop : CodeUnit) (rest : Text)

theorem delimitedSpans_eq {r : Regex CodeUnit} {groups : DelimitedSpan → List Text}
    (hne : opener ≠ []) (hclosed : stop ∉ opener)
    (hr : ∀ i, r.foundAt value i = (spanAt value opener stop rest i).map fun span =>
      ⟨span.start, span.stop, groups span⟩) :
    (delimitedSpans value opener stop rest none).map
        (fun span => (⟨span.start, span.stop, groups span⟩ : Regex.Found CodeUnit)) =
      r.all value := by
  rw [delimitedSpans, delimitedSpansFrom_eq hne hclosed hr (value.length + 1) (value.length + 2) 0
    [] (by omega) (by omega), map_nil, nil_append, Regex.all]

theorem replaceSpans_eq (replacer : Text → Text → Text) (spans : List DelimitedSpan) (out : Text)
    (kept : Nat) :
    (replaceSpans value replacer out kept spans).1 ++
        value.drop (replaceSpans value replacer out kept spans).2 =
      out ++ Regex.replaceFrom value (fun whole groups => replacer whole (groups.headD [])) kept
        (spans.map fun span => ⟨span.start, span.stop, [span.body]⟩) := by
  induction spans generalizing out kept with
  | nil => rfl
  | cons span spans ih =>
    rw [replaceSpans, ih, map_cons, Regex.replaceFrom]
    simp

theorem replaceSpans_kept (replacer : Text → Text → Text) (spans : List DelimitedSpan) (out : Text)
    (kept : Nat) (hpos : ∀ span ∈ spans, 0 < span.stop)
    (h : (replaceSpans value replacer out kept spans).2 = 0) : spans = [] := by
  induction spans generalizing out kept with
  | nil => rfl
  | cons span spans ih =>
    rw [replaceSpans] at h
    obtain rfl := ih _ _ (fun s hs => hpos s (mem_cons_of_mem span hs)) h
    have hstop := hpos span mem_cons_self
    have hzero : span.stop = 0 := h
    omega

theorem spanAt_stop_pos {i : Nat} {span : DelimitedSpan}
    (h : spanAt value opener stop rest i = some span) : 0 < span.stop := by
  rw [spanAt] at h
  split at h
  next =>
    cases h
    show 0 < _ + (rest.length + 1)
    omega
  next => cases h

theorem spans_agree (hne : opener ≠ []) (hclosed : stop ∉ opener) (replacer : Text → Text → Text) :
    (delimitedSpans value opener stop rest none).map
        (fun span => (⟨span.start, span.stop, [span.body]⟩ : Regex.Found CodeUnit)) =
      (delimited opener stop rest).all value ∧
    replaceDelimited value opener stop rest replacer =
      (delimited opener stop rest).replaceAll value (fun whole groups =>
        replacer whole (groups.headD [])) ∧
    matchDelimited value opener stop rest = (delimitedWhole opener stop rest).matchAll value ∧
    hasDelimited value opener stop rest = (delimitedWhole opener stop rest).test value := by
  have hspans := delimitedSpans_eq value opener stop rest hne hclosed
    (foundAt_delimited value opener stop rest)
  have hwhole := delimitedSpans_eq value opener stop rest hne hclosed
    (foundAt_delimitedWhole value opener stop rest)
  refine ⟨hspans, ?_, ?_, ?_⟩
  · have hpos : ∀ span ∈ delimitedSpans value opener stop rest none, 0 < span.stop := by
      intro span hspan
      have hmem := mem_map_of_mem hspan
        (f := fun span => (⟨span.start, span.stop, [span.body]⟩ : Regex.Found CodeUnit))
      rw [hspans] at hmem
      obtain ⟨i, hi⟩ := Regex.foundAt_of_mem_allFrom hmem
      rw [foundAt_delimited] at hi
      obtain ⟨found, hfound, heq⟩ := Option.map_eq_some_iff.mp hi
      have hstop := congrArg Regex.Found.stop heq
      have hfoundPos := spanAt_stop_pos value opener stop rest hfound
      have hsame : found.stop = span.stop := hstop
      omega
    have hwritten := replaceSpans_eq value replacer (delimitedSpans value opener stop rest none) [] 0
    rw [hspans, nil_append] at hwritten
    rw [Regex.replaceAll, ← hwritten, replaceDelimited]
    by_cases hkept : (replaceSpans value replacer [] 0
        (delimitedSpans value opener stop rest none)).2 = 0
    · have hnil := replaceSpans_kept value replacer _ [] 0 hpos hkept
      rw [hnil]
      rfl
    · exact if_neg hkept
  · rw [matchDelimited, Regex.matchAll, ← hwhole, map_map]
    rfl
  · rw [Regex.test_eq_all, ← hwhole, hasDelimited, delimitedSpans, delimitedSpansFrom_limit]
    show decide (([] ++ (delimitedSpans value opener stop rest none).take 1).length > 0) = _
    cases delimitedSpans value opener stop rest none <;> simp

/-- Two references, one with a brace before it, and one that is not closed. -/
theorem spans_agree_braces :
    let value := ascii "\x7b\x7ba\x7d\x7d \x7b\x7b\x7bb\x7d\x7d \x7b\x7bc\x7d \x7b\x7bd"
    (delimitedSpans value (ascii "\x7b\x7b") 125 (ascii "\x7d") none).map
        (fun span => (⟨span.start, span.stop, [span.body]⟩ : Regex.Found CodeUnit)) =
      (delimited (ascii "\x7b\x7b") 125 (ascii "\x7d")).all value ∧
    replaceDelimited value (ascii "\x7b\x7b") 125 (ascii "\x7d") (fun _ body => body) =
      (delimited (ascii "\x7b\x7b") 125 (ascii "\x7d")).replaceAll value (fun _ groups =>
        groups.headD []) ∧
    matchDelimited value (ascii "\x7b\x7b") 125 (ascii "\x7d") =
      (delimitedWhole (ascii "\x7b\x7b") 125 (ascii "\x7d")).matchAll value ∧
    hasDelimited value (ascii "\x7b\x7b") 125 (ascii "\x7d") =
      (delimitedWhole (ascii "\x7b\x7b") 125 (ascii "\x7d")).test value :=
  spans_agree _ (ascii "\x7b\x7b") 125 (ascii "\x7d") (by decide) (by decide) fun _ body => body

end Agree

end Almyty.Security
