import Mathlib

/-!
# Regular expressions with captures

A matcher takes the rest of the text and what is to be done with what it leaves, tries its
alternatives in order and answers with the first that goes through.

A quantifier is over one unit of the text, and groups are not nested; their texts come in order. A
pattern that begins with `^` can only match where the text begins, and is tried there with
`matchHere`; any other is looked for with `exec`.

What is proved of a quantifier is which length it takes. If nothing that follows can begin inside
the class, it takes all it can (`greedyFrom_of_refuses`); in general it takes the longest run that
goes through, or the shortest (`greedyFrom_eq_some`, `lazyFrom_eq_some`).
-/

namespace Almyty.Lib

open List

inductive Regex (α : Type)
  | empty
  | unit (p : α → Bool)
  /-- So many units of a class at least: as many as can be, or as few. -/
  | many (greedy : Bool) (least : Nat) (p : α → Bool)
  | seq (first second : Regex α)
  | alt (first second : Regex α)
  | group (r : Regex α)
  /-- `$`. -/
  | atEnd

namespace Regex

variable {α β : Type}

/-! ## Matching -/

def greedyFrom (p : α → Bool) : Nat → List α → (List α → Option β) → Option β
  | least, [], next => if least = 0 then next [] else none
  | least, c :: s, next =>
    if p c then
      (greedyFrom p (least - 1) s next).or (if least = 0 then next (c :: s) else none)
    else if least = 0 then next (c :: s) else none

def lazyFrom (p : α → Bool) : Nat → List α → (List α → Option β) → Option β
  | least, [], next => if least = 0 then next [] else none
  | least, c :: s, next =>
    (if least = 0 then next (c :: s) else none).or
      (if p c then lazyFrom p (least - 1) s next else none)

def run : Regex α → List α → (List (List α) → List α → Option β) → Option β
  | .empty, s, next => next [] s
  | .unit _, [], _ => none
  | .unit p, c :: s, next => if p c then next [] s else none
  | .many true least p, s, next => greedyFrom p least s (next [])
  | .many false least p, s, next => lazyFrom p least s (next [])
  | .seq first second, s, next =>
    first.run s fun groups s' => second.run s' fun groups' s'' => next (groups ++ groups') s''
  | .alt first second, s, next => (first.run s next).or (second.run s next)
  | .group r, s, next =>
    r.run s fun groups s' => next (s.take (s.length - s'.length) :: groups) s'
  | .atEnd, s, next => if s.isEmpty then next [] s else none

def text [DecidableEq α] : List α → Regex α
  | [] => .empty
  | c :: cs => .seq (.unit (· = c)) (text cs)

def anyOf : List (Regex α) → Regex α
  | [] => .unit fun _ => false
  | r :: rs => .alt r (anyOf rs)

def optional (r : Regex α) : Regex α := .alt r .empty

def sequence : List (Regex α) → Regex α
  | [] => .empty
  | r :: rs => .seq r (sequence rs)

def matchHere (r : Regex α) (s : List α) : Option (List (List α) × List α) :=
  r.run s fun groups rest => some (groups, rest)

/-- The groups of a pattern that begins with `^`. -/
def captures (r : Regex α) (s : List α) : Option (List (List α)) :=
  r.run s fun groups _ => some groups

/-! ## Looking for matches -/

structure Found (α : Type) where
  start : Nat
  stop : Nat
  groups : List (List α)

def searchFrom (r : Regex α) : Nat → List α → Option (Found α)
  | start, s =>
    match r.matchHere s with
    | some (groups, rest) => some ⟨start, start + (s.length - rest.length), groups⟩
    | none =>
      match s with
      | [] => none
      | _ :: s => searchFrom r (start + 1) s

def exec (r : Regex α) (s : List α) (lastIndex : Nat) : Option (Found α) :=
  if s.length < lastIndex then none else r.searchFrom lastIndex (s.drop lastIndex)

def test (r : Regex α) (s : List α) : Bool := (r.exec s 0).isSome

def allFrom (r : Regex α) (s : List α) : Nat → Nat → List (Found α)
  | 0, _ => []
  | fuel + 1, lastIndex =>
    match r.exec s lastIndex with
    | none => []
    | some found =>
      found :: allFrom r s fuel (if found.stop = found.start then found.stop + 1 else found.stop)

def all (r : Regex α) (s : List α) : List (Found α) := r.allFrom s (s.length + 2) 0

def slice (s : List α) (start stop : Nat) : List α := (s.take stop).drop start

/-- What is left of a text after an index, with each match replaced. -/
def replaceFrom (s : List α) (replacer : List α → List (List α) → List α) :
    Nat → List (Found α) → List α
  | next, [] => s.drop next
  | next, found :: rest =>
    slice s next found.start ++ replacer (slice s found.start found.stop) found.groups ++
      replaceFrom s replacer found.stop rest

def replaceAll (r : Regex α) (s : List α) (replacer : List α → List (List α) → List α) : List α :=
  replaceFrom s replacer 0 (r.all s)

def matchAll (r : Regex α) (s : List α) : List (List α) :=
  (r.all s).map fun found => slice s found.start found.stop

/-! ## Quantifiers -/

section Quantifiers

variable {p : α → Bool} {next : List α → Option β}

theorem greedyFrom_of_refuses (h : ∀ c t, p c = true → next (c :: t) = none) (least : Nat)
    (s : List α) :
    greedyFrom p least s next =
      if least ≤ (s.takeWhile p).length then next (s.dropWhile p) else none := by
  induction s generalizing least with
  | nil => simp [greedyFrom]
  | cons c s ih =>
    rw [greedyFrom]
    by_cases hc : p c = true
    · have hstop : (if least = 0 then next (c :: s) else none) = none := by
        rw [h c s hc, ite_self]
      rw [if_pos hc, hstop, Option.or_none, ih, takeWhile_cons_of_pos hc,
        dropWhile_cons_of_pos hc, length_cons]
      congr 1
      exact propext (by omega)
    · rw [if_neg hc, takeWhile_cons_of_neg hc, dropWhile_cons_of_neg hc, length_nil]
      congr 1
      exact propext (by omega)

theorem lazyFrom_zero (s : List α) : lazyFrom p 0 s next = (next s).or (lazyFrom p 1 s next) := by
  cases s <;> simp [lazyFrom]

theorem lazyFrom_map {γ : Type} (f : β → γ) (least : Nat) (s : List α) :
    (lazyFrom p least s next).map f = lazyFrom p least s fun t => (next t).map f := by
  induction s generalizing least with
  | nil =>
    rw [lazyFrom, lazyFrom]
    split <;> rfl
  | cons c s ih =>
    rw [lazyFrom, lazyFrom, Option.map_or, ← ih]
    split <;> split <;> rfl

theorem greedyFrom_of_end (h : ∀ c t, next (c :: t) = none) (least : Nat) (s : List α) :
    greedyFrom p least s next = if least ≤ s.length ∧ s.all p = true then next [] else none := by
  rw [greedyFrom_of_refuses (fun c t _ => h c t)]
  by_cases hall : s.all p = true
  · have htake : s.takeWhile p = s := takeWhile_eq_self_iff.mpr (all_eq_true.mp hall)
    have hdrop : s.dropWhile p = [] := dropWhile_eq_nil_iff.mpr (all_eq_true.mp hall)
    simp [htake, hdrop, hall]
  · have hdrop : s.dropWhile p ≠ [] := fun hnil =>
      hall (all_eq_true.mpr (dropWhile_eq_nil_iff.mp hnil))
    obtain ⟨c, t, hct⟩ := exists_cons_of_ne_nil hdrop
    rw [hct, h c t, ite_self, if_neg fun hand => hall hand.2]

variable {least : Nat}

theorem greedyFrom_eq_some {a t : List α} {b : β} (hleast : least ≤ a.length)
    (hall : ∀ c ∈ a, p c = true) (ht : next t = some b)
    (hlonger : ∀ a' t', t = a' ++ t' → a' ≠ [] → (∀ c ∈ a', p c = true) → next t' = none) :
    greedyFrom p least (a ++ t) next = some b := by
  induction a generalizing least with
  | nil =>
    obtain rfl : least = 0 := Nat.le_zero.mp hleast
    -- every longer run is refused, one unit after the other
    have hrefused : ∀ a' t', t = a' ++ t' → a' ≠ [] → (∀ c ∈ a', p c = true) →
        greedyFrom p 0 t' next = none := by
      intro a' t' heq hne hclass
      induction t' generalizing a' with
      | nil => simpa [greedyFrom] using hlonger a' [] heq hne hclass
      | cons c t' ih =>
        have hstop := hlonger a' (c :: t') heq hne hclass
        rw [greedyFrom]
        by_cases hc : p c = true
        · rw [if_pos hc, if_pos rfl, hstop, Option.or_none]
          refine ih (a' ++ [c]) (by simp [heq]) (by simp) ?_
          intro d hd
          rcases mem_append.mp hd with hd | hd
          · exact hclass d hd
          · exact mem_singleton.mp hd ▸ hc
        · rw [if_neg hc, if_pos rfl, hstop]
    rw [nil_append]
    cases t with
    | nil => simpa [greedyFrom] using ht
    | cons c t =>
      rw [greedyFrom]
      by_cases hc : p c = true
      · rw [if_pos hc, hrefused [c] t rfl (by simp) (by simpa using hc), Option.none_or, if_pos rfl,
          ht]
      · rw [if_neg hc, if_pos rfl, ht]
  | cons c a ih =>
    rw [cons_append, greedyFrom, if_pos (hall c mem_cons_self),
      ih (by rw [length_cons] at hleast; omega) fun d hd => hall d (mem_cons_of_mem c hd),
      Option.some_or]

theorem lazyFrom_skip {a t : List α} (hleast : least ≤ a.length) (hall : ∀ c ∈ a, p c = true)
    (hshorter : ∀ a' t', a = a' ++ t' → t' ≠ [] → least ≤ a'.length → next (t' ++ t) = none) :
    lazyFrom p least (a ++ t) next = lazyFrom p 0 t next := by
  induction a generalizing least with
  | nil =>
    obtain rfl : least = 0 := Nat.le_zero.mp hleast
    rfl
  | cons c a ih =>
    have hstop : (if least = 0 then next (c :: (a ++ t)) else none) = none := by
      split
      next hzero => exact hshorter [] (c :: a) rfl (by simp) (by omega)
      next => rfl
    rw [cons_append, lazyFrom, hstop, Option.none_or, if_pos (hall c mem_cons_self)]
    refine ih (by rw [length_cons] at hleast; omega)
      (fun d hd => hall d (mem_cons_of_mem c hd)) fun a' t' heq hne hlen => ?_
    exact hshorter (c :: a') t' (by rw [heq, cons_append]) hne
      (by rw [length_cons]; omega)

theorem lazyFrom_eq_some {a t : List α} {b : β} (hleast : least ≤ a.length)
    (hall : ∀ c ∈ a, p c = true) (ht : next t = some b)
    (hshorter : ∀ a' t', a = a' ++ t' → t' ≠ [] → least ≤ a'.length → next (t' ++ t) = none) :
    lazyFrom p least (a ++ t) next = some b := by
  rw [lazyFrom_skip hleast hall hshorter, lazyFrom_zero, ht, Option.some_or]

theorem exists_suffix_of_lazyFrom {s : List α} {b : β} (h : lazyFrom p least s next = some b) :
    ∃ t, t <:+ s ∧ next t = some b := by
  induction s generalizing least with
  | nil =>
    rw [lazyFrom] at h
    split at h
    · exact ⟨[], suffix_rfl, h⟩
    · cases h
  | cons c s ih =>
    rw [lazyFrom, Option.or_eq_some_iff] at h
    rcases h with hstop | ⟨-, hlater⟩
    · split at hstop
      · exact ⟨c :: s, suffix_rfl, hstop⟩
      · cases hstop
    · split at hlater
      · obtain ⟨t, hsuffix, ht⟩ := ih hlater
        exact ⟨t, hsuffix.trans (suffix_cons c s), ht⟩
      · cases hlater

def Goes (p : α → Bool) (least : Nat) (s : List α) (good : List α → Prop) : Prop :=
  ∃ a t, s = a ++ t ∧ least ≤ a.length ∧ (∀ c ∈ a, p c = true) ∧ good t

theorem goes_nil {good : List α → Prop} : Goes p least [] good ↔ least = 0 ∧ good [] := by
  constructor
  · intro h
    obtain ⟨a, t, heq, hlen, -, hgood⟩ := h
    obtain ⟨rfl, rfl⟩ := append_eq_nil_iff.mp heq.symm
    exact ⟨Nat.le_zero.mp hlen, hgood⟩
  · intro h
    exact ⟨[], [], rfl, by simp [h.1], by simp, h.2⟩

theorem goes_cons {c : α} {s : List α} {good : List α → Prop} :
    Goes p least (c :: s) good ↔
      (p c = true ∧ Goes p (least - 1) s good) ∨ (least = 0 ∧ good (c :: s)) := by
  constructor
  · intro h
    obtain ⟨a, t, heq, hlen, hall, hgood⟩ := h
    cases a with
    | nil => exact .inr ⟨Nat.le_zero.mp hlen, by rwa [heq]⟩
    | cons d a =>
      obtain ⟨rfl, rfl⟩ := cons_eq_cons.mp heq
      refine .inl ⟨hall c mem_cons_self, a, t, rfl, ?_, ?_, hgood⟩
      · rw [length_cons] at hlen
        omega
      · exact fun d hd => hall d (mem_cons_of_mem c hd)
  · intro h
    rcases h with ⟨hc, a, t, rfl, hlen, hall, hgood⟩ | ⟨hzero, hgood⟩
    · refine ⟨c :: a, t, rfl, ?_, ?_, hgood⟩
      · rw [length_cons]
        omega
      · exact forall_mem_cons.mpr ⟨hc, hall⟩
    · exact ⟨[], c :: s, rfl, by simp [hzero], by simp, hgood⟩

theorem greedyFrom_isSome_iff (least : Nat) (s : List α) :
    (greedyFrom p least s next).isSome ↔ Goes p least s fun t => (next t).isSome := by
  induction s generalizing least with
  | nil =>
    rw [goes_nil, greedyFrom]
    split <;> simp [*]
  | cons c s ih =>
    rw [goes_cons, greedyFrom, ← ih]
    by_cases hc : p c = true <;> by_cases hzero : least = 0 <;> simp [hc, hzero]

theorem lazyFrom_isSome_iff (least : Nat) (s : List α) :
    (lazyFrom p least s next).isSome ↔ Goes p least s fun t => (next t).isSome := by
  induction s generalizing least with
  | nil =>
    rw [goes_nil, lazyFrom]
    split <;> simp [*]
  | cons c s ih =>
    rw [goes_cons, lazyFrom, ← ih]
    by_cases hc : p c = true
    · by_cases hzero : least = 0 <;> simp [hc, hzero, or_comm]
    · by_cases hzero : least = 0 <;> simp [hc, hzero]

end Quantifiers

/-! ## Patterns -/

section Patterns

variable {next : List (List α) → List α → Option β}

@[simp] theorem run_empty (s : List α) : run .empty s next = next [] s := rfl

@[simp] theorem run_seq (first second : Regex α) (s : List α) :
    run (.seq first second) s next = run first s fun groups s' =>
      run second s' fun groups' s'' => next (groups ++ groups') s'' := rfl

@[simp] theorem run_alt (first second : Regex α) (s : List α) :
    run (.alt first second) s next = (run first s next).or (run second s next) := rfl

@[simp] theorem run_group (r : Regex α) (s : List α) :
    run (.group r) s next = run r s fun groups s' =>
      next (s.take (s.length - s'.length) :: groups) s' := rfl

@[simp] theorem run_greedy (least : Nat) (p : α → Bool) (s : List α) :
    run (.many true least p) s next = greedyFrom p least s (next []) := rfl

@[simp] theorem run_lazy (least : Nat) (p : α → Bool) (s : List α) :
    run (.many false least p) s next = lazyFrom p least s (next []) := rfl

@[simp] theorem run_sequence_nil (s : List α) : run (sequence []) s next = next [] s := rfl

@[simp] theorem run_sequence_cons (r : Regex α) (rs : List (Regex α)) (s : List α) :
    run (sequence (r :: rs)) s next = run r s fun groups s' =>
      run (sequence rs) s' fun groups' s'' => next (groups ++ groups') s'' := rfl

@[simp] theorem run_anyOf_nil (s : List α) : run (anyOf []) s next = none := by
  cases s <;> rfl

@[simp] theorem run_anyOf_cons (r : Regex α) (rs : List (Regex α)) (s : List α) :
    run (anyOf (r :: rs)) s next = (run r s next).or (run (anyOf rs) s next) := rfl

@[simp] theorem run_optional (r : Regex α) (s : List α) :
    run (optional r) s next = (run r s next).or (next [] s) := rfl

theorem run_atEnd_nil : run .atEnd [] next = next [] [] := rfl

variable [DecidableEq α]

@[simp] theorem run_text (cs s : List α) :
    run (text cs) s next = if cs <+: s then next [] (s.drop cs.length) else none := by
  induction cs generalizing s next with
  | nil => simp [text]
  | cons c cs ih =>
    cases s with
    | nil => simp [text, run]
    | cons d s =>
      by_cases h : d = c
      · simp [text, run, ih, h, cons_prefix_cons]
      · simp [text, run, h, cons_prefix_cons, Ne.symm h]

theorem run_anyOf_text (css : List (List α)) (s : List α) :
    run (anyOf (css.map text)) s next =
      css.findSome? fun cs => if cs <+: s then next [] (s.drop cs.length) else none := by
  induction css with
  | nil => simp
  | cons cs css ih =>
    rw [map_cons, run_anyOf_cons, ih, run_text, List.findSome?_cons]
    cases (if cs <+: s then next [] (s.drop cs.length) else none) with
    | none | some => rfl

end Patterns

/-! ## Whether a pattern matches -/

def Leaves : Regex α → List α → List α → Prop
  | .empty, s, rest => s = rest
  | .unit p, s, rest => ∃ c, s = c :: rest ∧ p c = true
  | .many _ least p, s, rest => ∃ a, s = a ++ rest ∧ least ≤ a.length ∧ ∀ c ∈ a, p c = true
  | .seq first second, s, rest => ∃ s', first.Leaves s s' ∧ second.Leaves s' rest
  | .alt first second, s, rest => first.Leaves s rest ∨ second.Leaves s rest
  | .group r, s, rest => r.Leaves s rest
  | .atEnd, s, rest => s = [] ∧ rest = []

theorem run_isSome_iff (r : Regex α) (s : List α) {next : List (List α) → List α → Option β}
    (good : List α → Prop) (hnext : ∀ groups rest, (next groups rest).isSome ↔ good rest) :
    (r.run s next).isSome ↔ ∃ rest, r.Leaves s rest ∧ good rest := by
  induction r generalizing s next good with
  | empty => simp [run, Leaves, hnext]
  | unit p =>
    cases s with
    | nil => simp [run, Leaves]
    | cons c s => by_cases hc : p c = true <;> simp [run, Leaves, hc, hnext]
  | many greedy least p =>
    have hgoes : (run (.many greedy least p) s next).isSome ↔ Goes p least s good := by
      cases greedy with
      | true => simp only [run, greedyFrom_isSome_iff, hnext]
      | false => simp only [run, lazyFrom_isSome_iff, hnext]
    rw [hgoes]
    constructor
    · intro h
      obtain ⟨a, rest, heq, hlen, hall, hgood⟩ := h
      exact ⟨rest, ⟨a, heq, hlen, hall⟩, hgood⟩
    · intro h
      obtain ⟨rest, ⟨a, heq, hlen, hall⟩, hgood⟩ := h
      exact ⟨a, rest, heq, hlen, hall, hgood⟩
  | seq first second ihfirst ihsecond =>
    rw [run, ihfirst s (fun s' => ∃ rest, second.Leaves s' rest ∧ good rest)
      fun groups s' => ihsecond s' good fun groups' rest => hnext (groups ++ groups') rest]
    constructor
    · intro h
      obtain ⟨s', hfirst, rest, hsecond, hgood⟩ := h
      exact ⟨rest, ⟨s', hfirst, hsecond⟩, hgood⟩
    · intro h
      obtain ⟨rest, ⟨s', hfirst, hsecond⟩, hgood⟩ := h
      exact ⟨s', hfirst, rest, hsecond, hgood⟩
  | alt first second ihfirst ihsecond =>
    rw [run, Option.isSome_or, Bool.or_eq_true, ihfirst s good hnext, ihsecond s good hnext]
    simp only [Leaves, or_and_right, exists_or]
  | group r ih => exact ih s good fun groups rest => hnext _ rest
  | atEnd =>
    cases s with
    | nil => simp [run, Leaves, hnext]
    | cons c s => simp [run, Leaves]

variable {r : Regex α}

variable {s : List α} {lastIndex : Nat}

theorem Leaves.suffix {rest : List α} (h : r.Leaves s rest) : rest <:+ s := by
  induction r generalizing s rest with
  | empty =>
    obtain rfl : s = rest := h
    exact suffix_refl s
  | unit p =>
    obtain ⟨c, rfl, -⟩ := h
    exact suffix_cons c rest
  | many greedy least p =>
    obtain ⟨a, rfl, -⟩ := h
    exact suffix_append a rest
  | seq first second ihfirst ihsecond =>
    obtain ⟨s', hfirst, hsecond⟩ := h
    exact (ihsecond hsecond).trans (ihfirst hfirst)
  | alt first second ihfirst ihsecond =>
    rcases h with h | h
    · exact ihfirst h
    · exact ihsecond h
  | group r ih => exact ih h
  | atEnd =>
    obtain ⟨rfl, rfl⟩ := h
    exact suffix_refl []

theorem captures_isSome_iff (r : Regex α) (s : List α) :
    (r.captures s).isSome ↔ ∃ rest, r.Leaves s rest := by
  rw [captures, run_isSome_iff r s (fun _ => True) (by simp)]
  simp only [and_true]

@[simp] theorem leaves_sequence_nil (s rest : List α) : (sequence []).Leaves s rest ↔ s = rest :=
  Iff.rfl

@[simp] theorem leaves_sequence_cons (r : Regex α) (rs : List (Regex α)) (s rest : List α) :
    (sequence (r :: rs)).Leaves s rest ↔ ∃ s', r.Leaves s s' ∧ (sequence rs).Leaves s' rest :=
  Iff.rfl

theorem leaves_sequence_append (rs rs' : List (Regex α)) (s rest : List α) :
    (sequence (rs ++ rs')).Leaves s rest ↔
      ∃ s', (sequence rs).Leaves s s' ∧ (sequence rs').Leaves s' rest := by
  induction rs generalizing s with
  | nil => simp
  | cons r rs ih =>
    rw [cons_append, leaves_sequence_cons]
    constructor
    · intro h
      obtain ⟨s₁, hr, hrest⟩ := h
      obtain ⟨s₂, hrs, hrs'⟩ := (ih s₁).mp hrest
      exact ⟨s₂, ⟨s₁, hr, hrs⟩, hrs'⟩
    · intro h
      obtain ⟨s₂, ⟨s₁, hr, hrs⟩, hrs'⟩ := h
      exact ⟨s₁, hr, (ih s₁).mpr ⟨s₂, hrs, hrs'⟩⟩

@[simp] theorem leaves_text [DecidableEq α] (cs s rest : List α) :
    (text cs).Leaves s rest ↔ s = cs ++ rest := by
  induction cs generalizing s with
  | nil => exact Iff.rfl
  | cons c cs ih => simp [text, Leaves, ih]

theorem searchFrom_isSome_iff (r : Regex α) (start : Nat) (s : List α) :
    (r.searchFrom start s).isSome ↔
      ∃ before after rest, s = before ++ after ∧ r.Leaves after rest := by
  have hhere (s : List α) : (r.matchHere s).isSome ↔ ∃ rest, r.Leaves s rest := by
    rw [matchHere, run_isSome_iff r s (fun _ => True) (by simp)]
    simp only [and_true]
  induction s generalizing start with
  | nil =>
    rw [searchFrom]
    have hnil := hhere []
    cases hfound : r.matchHere [] with
    | none | some => simpa [hfound] using hnil
  | cons c s ih =>
    rw [searchFrom]
    have hcons := hhere (c :: s)
    cases hfound : r.matchHere (c :: s) with
    | some found =>
      obtain ⟨rest, hrest⟩ := hcons.mp (by rw [hfound]; rfl)
      simp only [Option.isSome_some, true_iff]
      exact ⟨[], c :: s, rest, rfl, hrest⟩
    | none =>
      rw [show _ ↔ _ from ih (start + 1)]
      constructor
      · intro h
        obtain ⟨before, after, rest, rfl, hrest⟩ := h
        exact ⟨c :: before, after, rest, rfl, hrest⟩
      · intro h
        obtain ⟨before, after, rest, heq, hrest⟩ := h
        cases before with
        | nil =>
          have hsome := hcons.mpr ⟨rest, by rwa [show c :: s = after from heq]⟩
          rw [hfound] at hsome
          cases hsome
        | cons d before => exact ⟨before, after, rest, (cons_eq_cons.mp heq).2, hrest⟩

theorem test_iff (r : Regex α) (s : List α) :
    r.test s = true ↔ ∃ before after rest, s = before ++ after ∧ r.Leaves after rest :=
  searchFrom_isSome_iff r 0 s

/-! ## Where a match is found -/

/-- The match that begins at an index. -/
def foundAt (r : Regex α) (s : List α) (i : Nat) : Option (Found α) :=
  (r.matchHere (s.drop i)).map fun (groups, rest) =>
    ⟨i, i + ((s.drop i).length - rest.length), groups⟩

theorem searchFrom_eq_findSome (r : Regex α) (s : List α) (n start : Nat)
    (hn : start + n = s.length) :
    r.searchFrom start (s.drop start) =
      (List.range' start (n + 1)).findSome? (r.foundAt s) := by
  induction n generalizing start with
  | zero =>
    have hnil : s.drop start = [] := drop_eq_nil_iff.mpr (by omega)
    rw [List.range'_one, List.findSome?_singleton, foundAt, hnil, searchFrom]
    cases r.matchHere [] <;> rfl
  | succ n ih =>
    have hlt : start < s.length := by omega
    rw [List.range'_succ, List.findSome?_cons, ← ih (start + 1) (by omega), foundAt]
    conv_lhs => rw [drop_eq_getElem_cons hlt, searchFrom]
    rw [← drop_eq_getElem_cons hlt]
    cases r.matchHere (s.drop start) <;> rfl

theorem exec_eq_findSome (r : Regex α) (s : List α) (lastIndex : Nat) :
    r.exec s lastIndex =
      (List.range' lastIndex (s.length + 1 - lastIndex)).findSome? (r.foundAt s) := by
  rw [exec]
  by_cases hlt : s.length < lastIndex
  · have hzero : s.length + 1 - lastIndex = 0 := by omega
    rw [if_pos hlt, hzero]
    rfl
  · have hsucc : s.length + 1 - lastIndex = (s.length - lastIndex) + 1 := by omega
    rw [if_neg hlt, hsucc, searchFrom_eq_findSome r s (s.length - lastIndex) lastIndex (by omega)]

theorem exec_skip (r : Regex α) (s : List α) {next : Nat} (hle : lastIndex ≤ next)
    (hnone : ∀ i, lastIndex ≤ i → i < next → r.foundAt s i = none) :
    r.exec s lastIndex = r.exec s next := by
  rw [exec_eq_findSome, exec_eq_findSome]
  by_cases hnext : next ≤ s.length + 1
  · have hsplit : s.length + 1 - lastIndex = (next - lastIndex) + (s.length + 1 - next) := by omega
    have hstart : lastIndex + (next - lastIndex) = next := by omega
    rw [hsplit, ← List.range'_append_1, hstart, List.findSome?_append,
      List.findSome?_eq_none_iff.mpr, Option.none_or]
    intro i hi
    rw [mem_range'_1] at hi
    exact hnone i hi.1 (by omega)
  · have hzero : s.length + 1 - next = 0 := by omega
    rw [hzero, List.range'_zero, List.findSome?_nil, List.findSome?_eq_none_iff]
    intro i hi
    rw [mem_range'_1] at hi
    exact hnone i hi.1 (by omega)

theorem exec_none (r : Regex α) (s : List α) (hnone : ∀ i, lastIndex ≤ i → r.foundAt s i = none) :
    r.exec s lastIndex = none := by
  rw [exec_eq_findSome, List.findSome?_eq_none_iff]
  intro i hi
  rw [mem_range'_1] at hi
  exact hnone i hi.1

theorem exec_here (r : Regex α) (s : List α) {found : Found α} (hle : lastIndex ≤ s.length)
    (hfound : r.foundAt s lastIndex = some found) :
    r.exec s lastIndex = some found := by
  have hsucc : s.length + 1 - lastIndex = (s.length - lastIndex) + 1 := by omega
  rw [exec_eq_findSome, hsucc, List.range'_succ, List.findSome?_cons, hfound]

theorem allFrom_of_exec_none (h : r.exec s lastIndex = none) (fuel : Nat) :
    r.allFrom s fuel lastIndex = [] := by
  cases fuel with
  | zero => rfl
  | succ fuel => rw [allFrom, h]

theorem allFrom_congr {next : Nat} (h : r.exec s lastIndex = r.exec s next) (fuel : Nat) :
    r.allFrom s fuel lastIndex = r.allFrom s fuel next := by
  cases fuel with
  | zero => rfl
  | succ fuel => rw [allFrom, allFrom, h]

theorem foundAt_of_mem_allFrom {fuel : Nat} {found : Found α}
    (h : found ∈ r.allFrom s fuel lastIndex) : ∃ i, r.foundAt s i = some found := by
  induction fuel generalizing lastIndex with
  | zero => cases h
  | succ fuel ih =>
    rw [allFrom] at h
    cases hexec : r.exec s lastIndex with
    | none =>
      rw [hexec] at h
      cases h
    | some first =>
      rw [hexec] at h
      rcases mem_cons.mp h with rfl | h
      · rw [exec_eq_findSome] at hexec
        obtain ⟨i, -, hi⟩ := List.exists_of_findSome?_eq_some hexec
        exact ⟨i, hi⟩
      · exact ih h

theorem test_eq_all (r : Regex α) (s : List α) : r.test s = !(r.all s).isEmpty := by
  rw [test, all, allFrom]
  cases r.exec s 0 <;> rfl

/-! ## Matches in their place -/

/-- Whether the pattern matches somewhere in its place: `good` is told where the match begins and
what it leaves. -/
def testWhere (r : Regex α) (good : Nat → List α → Bool) (s : List α) : Bool :=
  (List.range (s.length + 1)).any fun i =>
    (r.run (s.drop i) fun _ rest => if good i rest then some () else none).isSome

/-- `\b`, before what is left of a text. -/
def atBoundary (word : α → Bool) (s rest : List α) : Bool :=
  (s.take (s.length - rest.length)).getLast?.any word != rest.head?.any word

theorem testWhere_iff (r : Regex α) (good : Nat → List α → Bool) (s : List α) :
    r.testWhere good s = true ↔
      ∃ before after rest, s = before ++ after ∧ r.Leaves after rest ∧
        good before.length rest = true := by
  have hrun (i : Nat) :
      (r.run (s.drop i) fun _ rest => if good i rest then some () else none).isSome ↔
        ∃ rest, r.Leaves (s.drop i) rest ∧ good i rest = true :=
    run_isSome_iff r (s.drop i) (fun rest => good i rest = true) (by simp)
  rw [testWhere, any_eq_true]
  constructor
  · intro h
    obtain ⟨i, hi, hsome⟩ := h
    obtain ⟨rest, hleaves, hgood⟩ := (hrun i).mp hsome
    have hlen : (s.take i).length = i := by
      rw [length_take]
      rw [mem_range] at hi
      omega
    exact ⟨s.take i, s.drop i, rest, (take_append_drop i s).symm, hleaves, by rwa [hlen]⟩
  · intro h
    obtain ⟨before, after, rest, rfl, hleaves, hgood⟩ := h
    refine ⟨before.length, ?_, (hrun before.length).mpr ⟨rest, ?_, hgood⟩⟩
    · rw [mem_range, length_append]
      omega
    · rwa [drop_left]

theorem atBoundary_after {word : α → Bool} (before rest : List α) {c : α} (hc : word c = true) :
    atBoundary word (before ++ [c] ++ rest) rest = !rest.head?.any word := by
  have hlen : (before ++ [c] ++ rest).length - rest.length = (before ++ [c]).length := by
    rw [length_append, Nat.add_sub_cancel]
  rw [atBoundary, hlen, take_left, List.getLast?_concat, Option.any_some, hc]
  cases rest.head?.any word <;> rfl

/-- Nothing in the pattern asks where the text ends. -/
def Unanchored : Regex α → Prop
  | .empty | .unit _ | .many _ _ _ => True
  | .seq first second | .alt first second => first.Unanchored ∧ second.Unanchored
  | .group r => r.Unanchored
  | .atEnd => False

theorem Leaves.append (hr : r.Unanchored) {rest : List α} (h : r.Leaves s rest) (more : List α) :
    r.Leaves (s ++ more) (rest ++ more) := by
  induction r generalizing s rest with
  | empty => exact congrArg (· ++ more) h
  | unit p =>
    obtain ⟨c, rfl, hc⟩ := h
    exact ⟨c, rfl, hc⟩
  | many greedy least p =>
    obtain ⟨a, rfl, hlen, hall⟩ := h
    exact ⟨a, append_assoc _ _ _, hlen, hall⟩
  | seq first second ihfirst ihsecond =>
    obtain ⟨s', hfirst, hsecond⟩ := h
    exact ⟨s' ++ more, ihfirst hr.1 hfirst, ihsecond hr.2 hsecond⟩
  | alt first second ihfirst ihsecond =>
    rcases h with h | h
    · exact .inl (ihfirst hr.1 h)
    · exact .inr (ihsecond hr.2 h)
  | group r ih => exact ih hr h
  | atEnd => exact hr.elim

theorem test_of_prefix (hr : r.Unanchored) {t : List α} (hst : s <+: t) (h : r.test s = true) :
    r.test t = true := by
  obtain ⟨more, rfl⟩ := hst
  obtain ⟨before, after, rest, rfl, hleaves⟩ := (test_iff r s).mp h
  exact (test_iff r _).mpr
    ⟨before, after ++ more, rest ++ more, append_assoc _ _ _, hleaves.append hr more⟩

theorem unanchored_sequence {rs : List (Regex α)} (h : ∀ r ∈ rs, r.Unanchored) :
    (sequence rs).Unanchored := by
  induction rs with
  | nil => exact trivial
  | cons r rs ih =>
    obtain ⟨hr, hrs⟩ := forall_mem_cons.mp h
    exact ⟨hr, ih hrs⟩

theorem leaves_anyOf (rs : List (Regex α)) (s rest : List α) :
    (anyOf rs).Leaves s rest ↔ ∃ r ∈ rs, r.Leaves s rest := by
  induction rs with
  | nil => simp [anyOf, Leaves]
  | cons r rs ih => simp [anyOf, Leaves, ih]

end Regex

end Almyty.Lib
