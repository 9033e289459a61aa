import Almyty.Security.InputSanitizer

/-!
# Scanners in place of patterns: `strip-tags.ts`, `regex-safety.ts`, `tool-http-pagination.ts`

Three more checks that go over a text once where a pattern was tried again from every `<` or `(`. A
`<` without a `>` after it, or whose `>` is not followed as asked, fails as every later one before
that `>` does; a group without parentheses inside begins at the last `(` before its `)`.

`scanners_agree` says that each of the scanners, with those of `input-sanitizer.ts`, answers as the
pattern it is documented by.
-/

namespace Almyty.Security

open Almyty.Lib List
open Almyty.Common (Text CodeUnit ascii isLineTerminator isSpace startsWith)

/-! ## Tags -/

section Tags

variable (value : Text) (allowEmpty : Bool)

def stripTagsFrom : Nat → Text → Nat → Nat → Text
  | 0, out, kept, _ => out ++ value.drop kept
  | fuel + 1, out, kept, at' =>
    match indexOf value (ascii "<") at' with
    | none => out ++ value.drop kept
    | some lt =>
      match indexOf value (ascii ">") (lt + 1) with
      | none => out ++ value.drop kept
      | some gt =>
        if gt = lt + 1 ∧ allowEmpty = false then stripTagsFrom fuel out kept (lt + 1)
        else stripTagsFrom fuel (out ++ Regex.slice value kept lt) (gt + 1) (gt + 1)

def stripTags : Text := stripTagsFrom value allowEmpty (value.length + 1) [] 0 0

/-- `/<[^>]*>/g`, or `/<[^>]+>/g`. -/
def tag : Regex CodeUnit :=
  .sequence [.unit (· = 60), .many true (if allowEmpty then 0 else 1) (· ≠ 62), .unit (· = 62)]

end Tags

/-! ## Quantified groups -/

/-- `/[+*?]/`. -/
def quantifier : Regex CodeUnit := .unit (ascii "+*?").contains

def isDigitUnit (c : CodeUnit) : Bool := 48 ≤ c && c ≤ 57

/-- `/\{\d+(?:,\d*)?\}/`. -/
def bound : Regex CodeUnit :=
  .sequence [.text (ascii "\x7b"), .many true 1 isDigitUnit,
    .optional (.sequence [.text (ascii ","), .many true 0 isDigitUnit]), .text (ascii "\x7d")]

def quantifies (ch : CodeUnit) : Bool := (ascii "+*?\x7b").contains ch

def quantifiedGroupFrom (pattern : Text) : Option Nat → Nat → Text → Bool
  | _, _, [] => false
  | opened, i, ch :: rest =>
    if ch = 40 then quantifiedGroupFrom pattern (some i) (i + 1) rest
    else if ch = 41 then
      let found :=
        match opened with
        | none => false
        | some start =>
          let body := Regex.slice pattern (start + 1) i
          rest.head?.any quantifies && (quantifier.test body || bound.test body)
      if found then true else quantifiedGroupFrom pattern none (i + 1) rest
    else quantifiedGroupFrom pattern opened (i + 1) rest

def hasQuantifiedGroupOfQuantifier (pattern : Text) : Bool :=
  quantifiedGroupFrom pattern none 0 pattern

/-- `[^()]`. -/
def notParen (c : CodeUnit) : Bool := c ≠ 40 && c ≠ 41

/-- `/\(([^()]*[+*?][^()]*|[^()]*\{\d+,?\d*\}[^()]*)\)[+*?{]/`. -/
def quantifiedGroup : Regex CodeUnit :=
  .sequence [.text (ascii "("),
    .group (.alt
      (.sequence [.many true 0 notParen, quantifier, .many true 0 notParen])
      (.sequence [.many true 0 notParen, .text (ascii "\x7b"), .many true 1 isDigitUnit,
        .optional (.text (ascii ",")), .many true 0 isDigitUnit, .text (ascii "\x7d"),
        .many true 0 notParen])),
    .text (ascii ")"), .unit quantifies]

/-! ## The next link -/

section NextLink

variable (header : Text)

def nextLinkTargetFrom : Nat → Nat → Option Text
  | 0, _ => none
  | fuel + 1, at' =>
    match indexOf header (ascii "<") at' with
    | none => none
    | some lt =>
      match indexOf header (ascii ">") (lt + 1) with
      | none => none
      | some gt =>
        let rel := gt + 2 + ((header.drop (gt + 2)).takeWhile isSpace).length
        if lt + 1 < gt ∧ header[gt + 1]? = some 59 ∧
            startsWith header (ascii "rel=\"next\"") rel = true then
          some (Regex.slice header (lt + 1) gt)
        else nextLinkTargetFrom fuel (gt + 1)

def nextLinkTarget : Option Text := nextLinkTargetFrom header (header.length + 1) 0

def nextLink : Regex CodeUnit :=
  .sequence [.unit (· = 60), .group (.many true 1 (· ≠ 62)), .unit (· = 62), .unit (· = 59),
    .many true 0 isSpace, .text (ascii "rel=\"next\"")]

end NextLink

/-! ## Tags, scanned -/

section Tags

variable {value : Text} {allowEmpty : Bool}

/-- The `[^>]*` that begins at an index. -/
def bodyFrom (value : Text) (i : Nat) : Text := (value.drop i).takeWhile (· ≠ 62)

theorem run_close {β : Type} (least : Nat) (s : Text) (next : Text → List Text → Text → Option β) :
    Regex.greedyFrom (· ≠ 62) least s (fun s' => Regex.run (.unit (· = 62)) s' (next s')) =
      if least ≤ (s.takeWhile (· ≠ 62)).length ∧ (s.dropWhile (· ≠ 62)).head? = some 62 then
        next (s.dropWhile (· ≠ 62)) [] ((s.dropWhile (· ≠ 62)).drop 1)
      else none := by
  rw [Regex.greedyFrom_of_refuses]
  · cases hrest : s.dropWhile (· ≠ 62) with
    | nil => simp [Regex.run]
    | cons c rest =>
      by_cases hc : c = 62 <;> simp [Regex.run, hc]
  · intro c t hc
    have hne : c ≠ 62 := by simpa using hc
    simp [Regex.run, hne]

theorem drop_bodyFrom (value : Text) (i : Nat) :
    (value.drop i).dropWhile (· ≠ 62) = value.drop (i + (bodyFrom value i).length) := by
  rw [Common.dropWhile_eq_drop, drop_drop, bodyFrom]

theorem run_open {β : Type} (value : Text) (i : Nat) (r : Regex CodeUnit)
    (next : List Text → Text → Option β) :
    Regex.run (.seq (.unit (· = 60)) r) (value.drop i) next =
      if value[i]? = some 60 then Regex.run r (value.drop (i + 1)) next else none := by
  rw [← List.head?_drop, ← drop_drop]
  cases value.drop i with
  | nil => simp [Regex.run]
  | cons c s =>
    by_cases hc : c = 60 <;> simp [Regex.run, hc]

variable (value allowEmpty) in
theorem foundAt_tag (i : Nat) :
    (tag allowEmpty).foundAt value i =
      if value[i]? = some 60 ∧ (allowEmpty = true ∨ bodyFrom value (i + 1) ≠ []) ∧
          value[i + 1 + (bodyFrom value (i + 1)).length]? = some 62 then
        some ⟨i, i + 1 + (bodyFrom value (i + 1)).length + 1, []⟩
      else none := by
  have hleast : (if allowEmpty then 0 else 1) ≤ (bodyFrom value (i + 1)).length ↔
      (allowEmpty = true ∨ bodyFrom value (i + 1) ≠ []) := by
    rw [← length_pos_iff]
    cases allowEmpty <;> simp; omega
  have hrun := run_close (if allowEmpty then 0 else 1) (value.drop (i + 1))
    fun _ groups s'' => some (groups ++ [], s'')
  rw [drop_bodyFrom, List.head?_drop, drop_drop, ← bodyFrom] at hrun
  simp only [hleast] at hrun
  have hmatch : (tag allowEmpty).matchHere (value.drop i) =
      if value[i]? = some 60 then
        if (allowEmpty = true ∨ bodyFrom value (i + 1) ≠ []) ∧
            value[i + 1 + (bodyFrom value (i + 1)).length]? = some 62 then
          some ([], value.drop (i + 1 + (bodyFrom value (i + 1)).length + 1))
        else none
      else none := by
    refine Eq.trans ?_ (congrArg (fun found => if value[i]? = some 60 then found else none) hrun)
    rw [Regex.matchHere, tag]
    exact run_open value i _ _
  rw [Regex.foundAt, hmatch, ← ite_and]
  split
  next h =>
    have hlt := (List.getElem?_eq_some_iff.mp h.2.2).1
    rw [Option.map_some]
    dsimp only
    rw [length_drop, length_drop]
    congr 2
    omega
  next => rfl

theorem exec_of_open {r : Regex CodeUnit}
    (hr : ∀ i, value[i]? ≠ some 60 → r.foundAt value i = none) {at' : Nat} :
    (indexOf value (ascii "<") at' = none → r.exec value at' = none) ∧
      ∀ lt, indexOf value (ascii "<") at' = some lt → r.exec value at' = r.exec value lt := by
  constructor
  · intro h
    refine r.exec_none value fun i hi => hr i fun hget => ?_
    exact indexOf_none (by decide) h hi (singleton_prefix_drop.mpr hget)
  · intro lt h
    obtain ⟨hat, -, hearlier⟩ := indexOf_some h
    refine r.exec_skip value hat fun i hi hlt => hr i fun hget => ?_
    exact hearlier i hi hlt (singleton_prefix_drop.mpr hget)

theorem length_bodyFrom {i gt : Nat} (hle : i ≤ gt) (hgt : value[gt]? = some 62)
    (hnone : ∀ k, i ≤ k → k < gt → value[k]? ≠ some 62) :
    bodyFrom value i = Regex.slice value i gt ∧ i + (bodyFrom value i).length = gt := by
  have hbody := takeWhile_stop hle hgt hnone
  refine ⟨hbody, ?_⟩
  have hlt := (List.getElem?_eq_some_iff.mp hgt).1
  rw [bodyFrom, hbody, Regex.slice, length_drop, length_take]
  omega

theorem stripTagsFrom_eq (fuel fuel' : Nat) (out : Text) (kept at' : Nat)
    (hfuel : value.length + 1 ≤ fuel + at') (hfuel' : value.length + 1 ≤ fuel' + at') :
    stripTagsFrom value allowEmpty fuel out kept at' =
      out ++ Regex.replaceFrom value (fun _ _ => []) kept
        ((tag allowEmpty).allFrom value fuel' at') := by
  have hopens : ∀ i, value[i]? ≠ some 60 → (tag allowEmpty).foundAt value i = none := by
    intro i hi
    rw [foundAt_tag, if_neg fun h => hi h.1]
  induction fuel generalizing fuel' out kept at' with
  | zero =>
    have hexec : (tag allowEmpty).exec value at' = none := if_pos (by omega)
    rw [Regex.allFrom_of_exec_none hexec]
    rfl
  | succ fuel ih =>
    rw [stripTagsFrom]
    cases hopen : indexOf value (ascii "<") at' with
    | none =>
      rw [Regex.allFrom_of_exec_none ((exec_of_open hopens).1 hopen)]
      rfl
    | some lt =>
      obtain ⟨hat, hlt, -⟩ := indexOf_some hopen
      have hskip := (exec_of_open hopens).2 lt hopen
      have hget := singleton_prefix_drop.mp hlt
      dsimp only
      cases hclose : indexOf value (ascii ">") (lt + 1) with
      | none =>
        have hexec : (tag allowEmpty).exec value lt = none := by
          refine Regex.exec_none _ value fun i hi => ?_
          rw [foundAt_tag, if_neg]
          rintro ⟨-, -, hgt⟩
          exact indexOf_none (by decide) hclose (by omega) (singleton_prefix_drop.mpr hgt)
        rw [Regex.allFrom_of_exec_none (hskip.trans hexec)]
        rfl
      | some gt =>
        obtain ⟨hle, hgt, hbefore⟩ := indexOf_some hclose
        have hgt' : value[gt]? = some 62 := singleton_prefix_drop.mp hgt
        have hlen := (List.getElem?_eq_some_iff.mp hgt').1
        obtain ⟨-, hend⟩ := length_bodyFrom hle hgt' fun k hk hk' h =>
          hbefore k hk hk' (singleton_prefix_drop.mpr h)
        have hfound := foundAt_tag value allowEmpty lt
        rw [hend] at hfound
        have hempty : bodyFrom value (lt + 1) = [] ↔ gt = lt + 1 := by
          rw [← length_eq_zero_iff]
          omega
        dsimp only
        by_cases hkeep : gt = lt + 1 ∧ allowEmpty = false
        · -- `<>` is kept, and looked past
          rw [if_neg fun h => by simp [hkeep.2, hempty.mpr hkeep.1] at h] at hfound
          have hexec : (tag allowEmpty).exec value lt = (tag allowEmpty).exec value (lt + 1) := by
            refine Regex.exec_skip _ value (Nat.le_succ lt) fun i hi hlt' => ?_
            obtain rfl : i = lt := by omega
            exact hfound
          rw [if_pos hkeep, ih fuel' out kept (lt + 1) (by omega) (by omega),
            Regex.allFrom_congr (hskip.trans hexec)]
        · have hbody : allowEmpty = true ∨ bodyFrom value (lt + 1) ≠ [] := by
            rw [Ne, hempty]
            by_contra hnot
            rw [not_or, not_not, Bool.not_eq_true] at hnot
            exact hkeep hnot.symm
          rw [if_pos ⟨hget, hbody, hgt'⟩] at hfound
          have hexec := hskip.trans (Regex.exec_here _ value (by omega) hfound)
          obtain ⟨fuel', rfl⟩ : ∃ f, fuel' = f + 1 := ⟨fuel' - 1, by omega⟩
          have hstop : gt + 1 ≠ lt := by omega
          rw [if_neg hkeep, ih fuel' _ (gt + 1) (gt + 1) (by omega) (by omega), Regex.allFrom,
            hexec]
          simp only [hstop, if_false, Regex.replaceFrom, append_nil, append_assoc]

theorem stripTags_agrees (value : Text) (allowEmpty : Bool) :
    stripTags value allowEmpty = (tag allowEmpty).replaceAll value fun _ _ => [] :=
  stripTagsFrom_eq (value.length + 1) (value.length + 2) [] 0 0 (by omega) (by omega)

end Tags

/-! ## The next link, scanned -/

section NextLink

variable {header : Text}

def IsNext (header : Text) (gt : Nat) : Prop :=
  header[gt + 1]? = some 59 ∧
    startsWith header (ascii "rel=\"next\"")
      (gt + 2 + ((header.drop (gt + 2)).takeWhile isSpace).length) = true

instance (gt : Nat) : Decidable (IsNext header gt) := inferInstanceAs (Decidable (_ ∧ _))

theorem run_next {β : Type} (gt : Nat) (next : List Text → Text → Option β) :
    Regex.run (.sequence [.unit (· = 59), .many true 0 isSpace, .text (ascii "rel=\"next\"")])
        (header.drop (gt + 1)) next =
      if IsNext header gt then
        next [] (header.drop (gt + 2 + ((header.drop (gt + 2)).takeWhile isSpace).length + 10))
      else none := by
  have hspaces (s : Text) : (Regex.many true 0 isSpace).run s (fun groups s' =>
      Regex.run (.sequence [.text (ascii "rel=\"next\"")]) s' fun groups' s'' =>
        next (groups ++ groups') s'') =
      if ascii "rel=\"next\"" <+: s.dropWhile isSpace then next [] ((s.dropWhile isSpace).drop 10)
      else none := by
    rw [Regex.run_greedy, Regex.greedyFrom_of_refuses, if_pos (Nat.zero_le _)]
    · rw [Regex.run_sequence_cons, Regex.run_text]
      rfl
    · intro c t hc
      rw [Regex.run_sequence_cons, Regex.run_text, if_neg]
      intro hrel
      obtain rfl : 114 = c := (cons_prefix_cons.mp hrel).1
      exact absurd hc (by decide)
  by_cases hsemi : header[gt + 1]? = some 59
  · obtain ⟨hlt, hget⟩ := List.getElem?_eq_some_iff.mp hsemi
    have hdrop : header.drop (gt + 1) = 59 :: header.drop (gt + 2) := by
      rw [drop_eq_getElem_cons hlt, hget]
    have hrest : (header.drop (gt + 2)).dropWhile isSpace =
        header.drop (gt + 2 + ((header.drop (gt + 2)).takeWhile isSpace).length) := by
      rw [Common.dropWhile_eq_drop, drop_drop]
    have hrun := hspaces (header.drop (gt + 2))
    simp only [hrest, drop_drop] at hrun
    simp only [IsNext, hsemi, true_and, startsWith_iff]
    rw [hdrop]
    exact hrun
  · rw [if_neg fun h => hsemi h.1, Regex.run_sequence_cons]
    cases hrest : header.drop (gt + 1) with
    | nil => rfl
    | cons c rest =>
      rw [← List.head?_drop, hrest] at hsemi
      have hc : c ≠ 59 := by simpa using hsemi
      simp [Regex.run, hc]

variable (header) in
theorem foundAt_nextLink (i : Nat) :
    ∃ stop, nextLink.foundAt header i =
      if header[i]? = some 60 ∧ bodyFrom header (i + 1) ≠ [] ∧
          header[i + 1 + (bodyFrom header (i + 1)).length]? = some 62 ∧
          IsNext header (i + 1 + (bodyFrom header (i + 1)).length) then
        some ⟨i, stop, [bodyFrom header (i + 1)]⟩
      else none := by
  have hbody : ∀ gt, gt = i + 1 + (bodyFrom header (i + 1)).length →
      (header.drop (i + 1)).take ((header.drop (i + 1)).length - (header.drop gt).length) =
        bodyFrom header (i + 1) := by
    rintro gt rfl
    have hfront := takeWhile_prefix (· ≠ (62 : CodeUnit)) (l := header.drop (i + 1))
    rw [← drop_bodyFrom, Common.dropWhile_eq_drop, Common.take_sub_drop _ hfront.length_le,
      bodyFrom, ← prefix_iff_eq_take.mp hfront]
  have hrun := run_close 1 (header.drop (i + 1)) fun s' groups s'' =>
    Regex.run (.sequence [.unit (· = 59), .many true 0 isSpace, .text (ascii "rel=\"next\"")]) s''
      fun groups' rest =>
        some ([(header.drop (i + 1)).take ((header.drop (i + 1)).length - s'.length)] ++
          (groups ++ groups'), rest)
  rw [drop_bodyFrom, List.head?_drop, drop_drop, ← bodyFrom, run_next, hbody _ rfl] at hrun
  have hpos : 1 ≤ (bodyFrom header (i + 1)).length ↔ bodyFrom header (i + 1) ≠ [] := by
    rw [← length_pos_iff]
    omega
  simp only [hpos, ← ite_and, and_assoc] at hrun
  have hmatch : nextLink.matchHere (header.drop i) =
      if header[i]? = some 60 then
        Regex.greedyFrom (· ≠ 62) 1 (header.drop (i + 1)) fun s' =>
          Regex.run (.unit (· = 62)) s' fun groups s'' =>
            Regex.run (.sequence [.unit (· = 59), .many true 0 isSpace,
                .text (ascii "rel=\"next\"")]) s'' fun groups' rest =>
              some ([(header.drop (i + 1)).take ((header.drop (i + 1)).length - s'.length)] ++
                (groups ++ groups'), rest)
      else none := by
    rw [Regex.matchHere, nextLink]
    exact run_open header i _ _
  rw [hrun, ← ite_and] at hmatch
  rw [Regex.foundAt, hmatch]
  by_cases h : header[i]? = some 60 ∧ bodyFrom header (i + 1) ≠ [] ∧
      header[i + 1 + (bodyFrom header (i + 1)).length]? = some 62 ∧
      IsNext header (i + 1 + (bodyFrom header (i + 1)).length)
  · exact ⟨_, by rw [if_pos h, if_pos h]; rfl⟩
  · exact ⟨0, by rw [if_neg h, if_neg h]; rfl⟩

theorem nextLinkTargetFrom_eq (fuel at' : Nat) (hfuel : header.length + 1 ≤ fuel + at') :
    nextLinkTargetFrom header fuel at' = (nextLink.exec header at').bind (·.groups.head?) := by
  have hopens : ∀ i, header[i]? ≠ some 60 → nextLink.foundAt header i = none := by
    intro i hi
    obtain ⟨stop, hfound⟩ := foundAt_nextLink header i
    rw [hfound, if_neg fun h => hi h.1]
  induction fuel generalizing at' with
  | zero =>
    have hexec : nextLink.exec header at' = none := if_pos (by omega)
    rw [hexec]
    rfl
  | succ fuel ih =>
    rw [nextLinkTargetFrom]
    cases hopen : indexOf header (ascii "<") at' with
    | none =>
      rw [(exec_of_open hopens).1 hopen]
      rfl
    | some lt =>
      obtain ⟨hat, hlt, -⟩ := indexOf_some hopen
      rw [(exec_of_open hopens).2 lt hopen]
      have hget := singleton_prefix_drop.mp hlt
      dsimp only
      cases hclose : indexOf header (ascii ">") (lt + 1) with
      | none =>
        have hexec : nextLink.exec header lt = none := by
          refine Regex.exec_none _ header fun i hi => ?_
          obtain ⟨stop, hfound⟩ := foundAt_nextLink header i
          rw [hfound, if_neg]
          rintro ⟨-, -, hgt, -⟩
          exact indexOf_none (by decide) hclose (by omega) (singleton_prefix_drop.mpr hgt)
        rw [hexec]
        rfl
      | some gt =>
        obtain ⟨hle, hgt, hbefore⟩ := indexOf_some hclose
        have hgt' : header[gt]? = some 62 := singleton_prefix_drop.mp hgt
        have hlen := (List.getElem?_eq_some_iff.mp hgt').1
        have hnone (k : Nat) (hk : lt + 1 ≤ k) (hk' : k < gt) : header[k]? ≠ some 62 := fun h =>
          hbefore k hk hk' (singleton_prefix_drop.mpr h)
        dsimp only
        by_cases hnext : lt + 1 < gt ∧ IsNext header gt
        · obtain ⟨hbody, hend⟩ := length_bodyFrom hle hgt' hnone
          obtain ⟨stop, hfound⟩ := foundAt_nextLink header lt
          have hne : bodyFrom header (lt + 1) ≠ [] := by
            rw [← length_pos_iff]
            omega
          rw [hend, if_pos ⟨hget, hne, hgt', hnext.2⟩] at hfound
          rw [Regex.exec_here _ header (by omega) hfound, if_pos ⟨hnext.1, hnext.2⟩, hbody]
          rfl
        · -- every `<` up to this `>` fails as the first does
          rw [if_neg fun h => hnext ⟨h.1, h.2⟩, ih (gt + 1) (by omega)]
          congr 1
          refine (Regex.exec_skip _ header (by omega) fun i hi hi' => ?_).symm
          obtain ⟨stop, hfound⟩ := foundAt_nextLink header i
          rw [hfound, if_neg]
          rintro ⟨hstart, hne, -, hfollowed⟩
          rcases Nat.lt_or_ge i gt with hlt' | hge
          · obtain ⟨-, hend⟩ := length_bodyFrom (i := i + 1) hlt' hgt'
              fun k hk hk' => hnone k (by omega) hk'
            rw [← length_pos_iff] at hne
            rw [hend] at hfollowed
            exact hnext ⟨by omega, hfollowed⟩
          · obtain rfl : i = gt := by omega
            rw [hgt'] at hstart
            cases hstart

theorem nextLinkTarget_agrees (header : Text) :
    nextLinkTarget header = (nextLink.exec header 0).bind (·.groups.head?) :=
  nextLinkTargetFrom_eq (header.length + 1) 0 (by omega)

end NextLink

/-! ## Quantified groups, scanned -/

section Groups

variable {pattern : Text}

/-- `{m}`, `{m,}` or `{m,n}`. -/
def IsBound (word : Text) : Prop :=
  ∃ digits more, digits ≠ [] ∧ (∀ c ∈ digits, isDigitUnit c = true) ∧
    (∀ c ∈ more, isDigitUnit c = true) ∧
    (word = 123 :: (digits ++ [125]) ∨ word = 123 :: (digits ++ 44 :: (more ++ [125])))

theorem leaves_bound (s rest : Text) :
    bound.Leaves s rest ↔ ∃ word, s = word ++ rest ∧ IsBound word := by
  constructor
  · rintro ⟨s₁, hopen, s₂, ⟨digits, rfl, hne, hdigits⟩, s₃, hmore, s₄, hclose, rfl⟩
    rw [Regex.leaves_text] at hopen hclose
    subst hopen hclose
    rcases hmore with ⟨s₅, hcomma, s₆, ⟨more, rfl, -, hdigits'⟩, rfl⟩ | rfl
    · rw [Regex.leaves_text] at hcomma
      subst hcomma
      exact ⟨_, by simp [ascii], digits, more, length_pos_iff.mp hne, hdigits, hdigits', .inr rfl⟩
    · exact ⟨_, by simp [ascii], digits, [], length_pos_iff.mp hne, hdigits, by simp, .inl rfl⟩
  · rintro ⟨word, rfl, digits, more, hne, hdigits, hmore, hword⟩
    have hleast := length_pos_iff.mpr hne
    rcases hword with rfl | rfl
    · exact ⟨_, (Regex.leaves_text _ _ _).mpr rfl, 125 :: rest,
        ⟨digits, by simp, hleast, hdigits⟩, _, .inr rfl, rest,
        (Regex.leaves_text _ _ _).mpr rfl, rfl⟩
    · exact ⟨_, (Regex.leaves_text _ _ _).mpr rfl, 44 :: (more ++ 125 :: rest),
        ⟨digits, by simp, hleast, hdigits⟩, 125 :: rest,
        .inl ⟨_, (Regex.leaves_text _ _ _).mpr rfl, _, ⟨more, rfl, Nat.zero_le _, hmore⟩, rfl⟩,
        rest, (Regex.leaves_text _ _ _).mpr rfl, rfl⟩

theorem leaves_bound' (s rest : Text) :
    (Regex.sequence [.text (ascii "\x7b"), .many true 1 isDigitUnit, .optional (.text (ascii ",")),
        .many true 0 isDigitUnit, .text (ascii "\x7d")]).Leaves s rest ↔
      ∃ word, s = word ++ rest ∧ IsBound word := by
  constructor
  · rintro ⟨s₁, hopen, s₂, ⟨digits, rfl, hne, hdigits⟩, s₃, hcomma, s₄, ⟨more, rfl, -, hmore⟩, s₅,
      hclose, rfl⟩
    rw [Regex.leaves_text] at hopen hclose
    subst hopen hclose
    have hne := length_pos_iff.mp hne
    rcases hcomma with hcomma | rfl
    · rw [Regex.leaves_text] at hcomma
      subst hcomma
      exact ⟨_, by simp [ascii], digits, more, hne, hdigits, hmore, .inr rfl⟩
    · -- without a comma the digits are one run
      refine ⟨123 :: ((digits ++ more) ++ [125]), by simp [ascii], digits ++ more, [],
        by simp [hne], ?_, by simp, .inl rfl⟩
      intro c hc
      exact (mem_append.mp hc).elim (hdigits c) (hmore c)
  · rintro ⟨word, rfl, digits, more, hne, hdigits, hmore, hword⟩
    have hleast := length_pos_iff.mpr hne
    rcases hword with rfl | rfl
    · exact ⟨_, (Regex.leaves_text _ _ _).mpr rfl, 125 :: rest,
        ⟨digits, by simp, hleast, hdigits⟩, _, .inr rfl, _, ⟨[], rfl, Nat.zero_le _, by simp⟩, rest,
        (Regex.leaves_text _ _ _).mpr rfl, rfl⟩
    · exact ⟨_, (Regex.leaves_text _ _ _).mpr rfl, 44 :: (more ++ 125 :: rest),
        ⟨digits, by simp, hleast, hdigits⟩, more ++ 125 :: rest,
        .inl ((Regex.leaves_text _ _ _).mpr rfl), 125 :: rest, ⟨more, rfl, Nat.zero_le _, hmore⟩,
        rest, (Regex.leaves_text _ _ _).mpr rfl, rfl⟩

def HasQuantifier (body : Text) : Prop :=
  (∃ c ∈ body, (ascii "+*?").contains c = true) ∨ ∃ a word b, body = a ++ (word ++ b) ∧ IsBound word

theorem hasQuantifier_iff {body : Text} :
    (quantifier.test body || bound.test body) = true ↔ HasQuantifier body := by
  rw [Bool.or_eq_true, Regex.test_iff, Regex.test_iff, HasQuantifier]
  refine or_congr ?_ ?_
  · constructor
    · rintro ⟨a, _, b, rfl, c, rfl, hc⟩
      exact ⟨c, by simp, hc⟩
    · rintro ⟨c, hmem, hc⟩
      obtain ⟨a, b, rfl⟩ := append_of_mem hmem
      exact ⟨a, c :: b, b, rfl, c, rfl, hc⟩
  · constructor
    · rintro ⟨a, _, b, rfl, hleaves⟩
      obtain ⟨word, rfl, hword⟩ := (leaves_bound _ _).mp hleaves
      exact ⟨a, word, b, rfl, hword⟩
    · rintro ⟨a, word, b, rfl, hword⟩
      exact ⟨a, _, b, rfl, (leaves_bound _ _).mpr ⟨word, rfl, hword⟩⟩

def NoParens (body : Text) : Prop := ∀ c ∈ body, notParen c = true

/-- A group without parentheses inside, with a quantifier in it and one after it. -/
def QuantifiedGroup (s : Text) : Prop :=
  ∃ a body q c, s = a ++ 40 :: (body ++ 41 :: q :: c) ∧ NoParens body ∧ HasQuantifier body ∧
    quantifies q = true

theorem notParen_of_digit {c : CodeUnit} (h : isDigitUnit c = true) : notParen c = true := by
  have hlow : 48 ≤ c := by
    rw [isDigitUnit, Bool.and_eq_true] at h
    exact of_decide_eq_true h.1
  have hne (d : CodeUnit) (hd : ¬48 ≤ d) : c ≠ d := fun heq => hd (heq ▸ hlow)
  simp [notParen, hne 40 (by decide), hne 41 (by decide)]

theorem notParen_of_quantifier {c : CodeUnit} (h : (ascii "+*?").contains c = true) :
    notParen c = true :=
  all_eq_true.mp (by decide : (ascii "+*?").all notParen = true) c (contains_iff_mem.mp h)

theorem IsBound.noParens {word : Text} (h : IsBound word) : NoParens word := by
  obtain ⟨digits, more, -, hdigits, hmore, hword⟩ := h
  intro c hc
  have hmark (d : CodeUnit) (hd : [123, 44, 125].contains d = true) : notParen d = true :=
    all_eq_true.mp (by decide : [123, 44, 125].all notParen = true) d
      (contains_iff_mem.mp hd)
  rcases hword with rfl | rfl
  · simp only [mem_cons, mem_append, not_mem_nil, or_false] at hc
    rcases hc with rfl | hc | rfl
    · exact hmark _ (by decide)
    · exact notParen_of_digit (hdigits c hc)
    · exact hmark _ (by decide)
  · simp only [mem_cons, mem_append, not_mem_nil, or_false] at hc
    rcases hc with rfl | hc | rfl | hc | rfl
    · exact hmark _ (by decide)
    · exact notParen_of_digit (hdigits c hc)
    · exact hmark _ (by decide)
    · exact notParen_of_digit (hmore c hc)
    · exact hmark _ (by decide)

theorem leaves_body (s rest : Text) :
    (Regex.alt
      (.sequence [.many true 0 notParen, quantifier, .many true 0 notParen])
      (.sequence [.many true 0 notParen, .text (ascii "\x7b"), .many true 1 isDigitUnit,
        .optional (.text (ascii ",")), .many true 0 isDigitUnit, .text (ascii "\x7d"),
        .many true 0 notParen])).Leaves s rest ↔
      ∃ body, s = body ++ rest ∧ NoParens body ∧ HasQuantifier body := by
  constructor
  · rintro (⟨s₁, ⟨x, rfl, -, hx⟩, s₂, ⟨c, rfl, hc⟩, s₃, ⟨y, rfl, -, hy⟩, rfl⟩ |
      ⟨s₁, ⟨x, rfl, -, hx⟩, hrest⟩)
    · refine ⟨x ++ c :: y, by simp, ?_, .inl ⟨c, by simp, hc⟩⟩
      intro d hd
      rcases mem_append.mp hd with hd | hd
      · exact hx d hd
      · rcases mem_cons.mp hd with rfl | hd
        · exact notParen_of_quantifier hc
        · exact hy d hd
    · obtain ⟨s₂, hbound, s₃, ⟨y, rfl, -, hy⟩, rfl⟩ :=
        (Regex.leaves_sequence_append [.text (ascii "\x7b"), .many true 1 isDigitUnit,
          .optional (.text (ascii ",")), .many true 0 isDigitUnit, .text (ascii "\x7d")]
          [.many true 0 notParen] _ _).mp hrest
      obtain ⟨word, rfl, hword⟩ := (leaves_bound' _ _).mp hbound
      refine ⟨x ++ (word ++ y), by simp, ?_, .inr ⟨x, word, y, rfl, hword⟩⟩
      intro d hd
      rcases mem_append.mp hd with hd | hd
      · exact hx d hd
      · exact (mem_append.mp hd).elim (hword.noParens d) (hy d)
  · rintro ⟨body, rfl, hparens, ⟨c, hmem, hc⟩ | ⟨x, word, y, rfl, hword⟩⟩
    · obtain ⟨x, y, rfl⟩ := append_of_mem hmem
      exact .inl ⟨c :: (y ++ rest),
        ⟨x, by simp, Nat.zero_le _, fun d hd => hparens d (mem_append_left _ hd)⟩, y ++ rest,
        ⟨c, rfl, hc⟩, rest, ⟨y, rfl, Nat.zero_le _, fun d hd => hparens d (by simp [hd])⟩, rfl⟩
    · refine .inr ⟨word ++ (y ++ rest),
        ⟨x, by simp, Nat.zero_le _, fun d hd => hparens d (mem_append_left _ hd)⟩, ?_⟩
      exact (Regex.leaves_sequence_append [.text (ascii "\x7b"), .many true 1 isDigitUnit,
          .optional (.text (ascii ",")), .many true 0 isDigitUnit, .text (ascii "\x7d")]
          [.many true 0 notParen] _ _).mpr
        ⟨y ++ rest, (leaves_bound' _ _).mpr ⟨word, rfl, hword⟩, rest,
          ⟨y, rfl, Nat.zero_le _, fun d hd => hparens d (by simp [hd])⟩, rfl⟩

theorem quantifiedGroup_iff {s : Text} : quantifiedGroup.test s = true ↔ QuantifiedGroup s := by
  rw [Regex.test_iff]
  constructor
  · rintro ⟨a, _, c, rfl, s₁, hopen, s₂, hbody, s₃, hclose, s₄, ⟨q, rfl, hq⟩, rfl⟩
    rw [Regex.leaves_text] at hopen hclose
    subst hopen hclose
    obtain ⟨body, rfl, hparens, hquantifier⟩ := (leaves_body _ _).mp hbody
    exact ⟨a, body, q, _, rfl, hparens, hquantifier, hq⟩
  · rintro ⟨a, body, q, c, rfl, hparens, hquantifier, hq⟩
    exact ⟨a, _, c, rfl, _, (Regex.leaves_text _ _ _).mpr rfl, _,
      (leaves_body _ _).mpr ⟨body, rfl, hparens, hquantifier⟩, _, (Regex.leaves_text _ _ _).mpr rfl,
      c, ⟨q, rfl, hq⟩, rfl⟩

def Continues (body rest : Text) : Prop :=
  ∃ more q c, rest = more ++ 41 :: q :: c ∧ NoParens more ∧ HasQuantifier (body ++ more) ∧
    quantifies q = true

theorem quantifiedGroup_cons (ch : CodeUnit) (rest : Text) :
    QuantifiedGroup (ch :: rest) ↔ ch = 40 ∧ Continues [] rest ∨ QuantifiedGroup rest := by
  constructor
  · rintro ⟨a, body, q, c, heq, hparens, hquantifier, hq⟩
    cases a with
    | nil =>
      obtain ⟨rfl, rfl⟩ := cons_eq_cons.mp heq
      exact .inl ⟨rfl, body, q, c, rfl, hparens, hquantifier, hq⟩
    | cons d a =>
      obtain ⟨rfl, rfl⟩ := cons_eq_cons.mp heq
      exact .inr ⟨a, body, q, c, rfl, hparens, hquantifier, hq⟩
  · rintro (⟨rfl, more, q, c, rfl, hparens, hquantifier, hq⟩ |
      ⟨a, body, q, c, rfl, hparens, hquantifier, hq⟩)
    · exact ⟨[], more, q, c, rfl, hparens, hquantifier, hq⟩
    · exact ⟨ch :: a, body, q, c, rfl, hparens, hquantifier, hq⟩

theorem not_continues_open (body rest : Text) : ¬Continues body (40 :: rest) := by
  rintro ⟨more, q, c, heq, hparens, -, -⟩
  cases more with
  | nil => exact absurd (cons_eq_cons.mp heq).1 (by decide)
  | cons d more =>
    obtain ⟨rfl, -⟩ := cons_eq_cons.mp heq
    exact absurd (hparens 40 mem_cons_self) (by decide)

theorem continues_close (body rest : Text) :
    Continues body (41 :: rest) ↔ rest.head?.any quantifies = true ∧ HasQuantifier body := by
  constructor
  · rintro ⟨more, q, c, heq, hparens, hquantifier, hq⟩
    cases more with
    | nil =>
      obtain ⟨-, rfl⟩ := cons_eq_cons.mp heq
      exact ⟨hq, by simpa using hquantifier⟩
    | cons d more =>
      obtain ⟨rfl, -⟩ := cons_eq_cons.mp heq
      exact absurd (hparens 41 mem_cons_self) (by decide)
  · rintro ⟨hhead, hquantifier⟩
    cases rest with
    | nil => cases hhead
    | cons q c => exact ⟨[], q, c, rfl, by simp [NoParens], by simpa using hquantifier, hhead⟩

theorem continues_cons {ch : CodeUnit} (hch : notParen ch = true) (body rest : Text) :
    Continues body (ch :: rest) ↔ Continues (body ++ [ch]) rest := by
  constructor
  · rintro ⟨more, q, c, heq, hparens, hquantifier, hq⟩
    cases more with
    | nil =>
      obtain ⟨rfl, -⟩ := cons_eq_cons.mp heq
      exact absurd hch (by decide)
    | cons d more =>
      obtain ⟨rfl, rfl⟩ := cons_eq_cons.mp heq
      exact ⟨more, q, c, rfl, fun e he => hparens e (mem_cons_of_mem _ he),
        by simpa using hquantifier, hq⟩
  · rintro ⟨more, q, c, rfl, hparens, hquantifier, hq⟩
    exact ⟨ch :: more, q, c, rfl, forall_mem_cons.mpr ⟨hch, hparens⟩,
      by simpa using hquantifier, hq⟩

theorem quantifiedGroupFrom_iff (before rest : Text) (opened : Option Nat)
    (hopened : ∀ start ∈ opened, start < before.length) :
    quantifiedGroupFrom (before ++ rest) opened before.length rest = true ↔
      (∃ start ∈ opened, Continues (before.drop (start + 1)) rest) ∨ QuantifiedGroup rest := by
  induction rest generalizing before opened with
  | nil =>
    refine iff_of_false (by simp [quantifiedGroupFrom]) ?_
    rintro (⟨start, -, more, q, c, heq, -⟩ | ⟨a, body, q, c, heq, -⟩) <;> simp at heq
  | cons ch rest ih =>
    have hlen : before.length + 1 = (before ++ [ch]).length := by simp
    have hparts : before ++ ch :: rest = (before ++ [ch]) ++ rest := by simp
    rw [quantifiedGroup_cons]
    unfold quantifiedGroupFrom
    by_cases hopen : ch = 40
    · subst hopen
      rw [if_pos rfl, hlen, hparts, ih (before ++ [40]) (some before.length) (by simp)]
      simp [not_continues_open]
    rw [if_neg hopen]
    by_cases hclose : ch = 41
    · subst hclose
      have hlater :
          quantifiedGroupFrom (before ++ 41 :: rest) none (before.length + 1) rest = true ↔
            QuantifiedGroup rest := by
        rw [hlen, hparts, ih (before ++ [41]) none (by simp)]
        simp
      have hno : ¬((41 : CodeUnit) = 40 ∧ Continues [] rest) := fun h => absurd h.1 (by decide)
      rw [if_pos rfl, or_iff_right hno]
      cases opened with
      | none => simpa using hlater
      | some start =>
        have hbody : Regex.slice (before ++ 41 :: rest) (start + 1) before.length =
            before.drop (start + 1) := by
          rw [Regex.slice, take_left]
        have hhere : (rest.head?.any quantifies &&
            (quantifier.test (before.drop (start + 1)) || bound.test (before.drop (start + 1)))) =
              true ↔ Continues (before.drop (start + 1)) (41 :: rest) := by
          rw [Bool.and_eq_true, hasQuantifier_iff, continues_close]
        simp only [hbody, Option.mem_some_iff, exists_eq_left']
        rw [← hlater, ← hhere]
        cases rest.head?.any quantifies && (quantifier.test (before.drop (start + 1)) ||
            bound.test (before.drop (start + 1))) with
        | true | false => simp
    · have hch : notParen ch = true := by simp [notParen, hopen, hclose]
      have hlt : ∀ start ∈ opened, start < (before ++ [ch]).length := by
        intro start hstart
        have hlt := hopened start hstart
        rw [length_append]
        omega
      have hno : ¬(ch = 40 ∧ Continues [] rest) := fun h => hopen h.1
      rw [if_neg hclose, hlen, hparts, ih (before ++ [ch]) opened hlt, or_iff_right hno]
      refine or_congr_left (exists_congr fun start => and_congr_right fun hstart => ?_)
      have hle : start + 1 ≤ before.length := hopened start hstart
      rw [continues_cons hch, drop_append_of_le_length hle]

theorem hasQuantifiedGroupOfQuantifier_agrees (pattern : Text) :
    hasQuantifiedGroupOfQuantifier pattern = quantifiedGroup.test pattern := by
  have hfrom := quantifiedGroupFrom_iff [] pattern none (by simp)
  rw [Bool.eq_iff_iff, quantifiedGroup_iff, hasQuantifiedGroupOfQuantifier]
  simpa using hfrom

end Groups

/-! ## All of them -/

theorem scanners_agree {toLowerCase : Text → Text} (hlower : LowerCases toLowerCase)
    (value : Text) :
    (∀ allowEmpty, stripTags value allowEmpty = (tag allowEmpty).replaceAll value fun _ _ => []) ∧
      hasShellCommand value = shellCommand.testWhere (beforeBoundary value) value ∧
      (∀ opener closer : Text, (∀ c ∈ opener, isLineTerminator c = false) →
        (∀ c ∈ closer, isLineTerminator c = false) →
        hasOnOneLine value opener closer = (onOneLine opener closer).test value) ∧
      hasDoctypeSystem toLowerCase value = doctypeSystem.test value ∧
      hasQuantifiedGroupOfQuantifier value = quantifiedGroup.test value ∧
      nextLinkTarget value = (nextLink.exec value 0).bind (·.groups.head?) :=
  ⟨stripTags_agrees value, hasShellCommand_agrees value,
    fun _ _ hopen hclose => hasOnOneLine_agrees value hopen hclose,
    hasDoctypeSystem_agrees hlower value, hasQuantifiedGroupOfQuantifier_agrees value,
    nextLinkTarget_agrees value⟩

def markup : Text := ascii "<b>\x7b\x7bx\x7d\x7d</b>; RM -rf"

theorem scanners_agree_markup :
    stripTags markup true = (tag true).replaceAll markup (fun _ _ => []) ∧
      hasShellCommand markup = shellCommand.testWhere (beforeBoundary markup) markup ∧
      hasOnOneLine markup (ascii "\x7b\x7b") (ascii "\x7d\x7d") =
        (onOneLine (ascii "\x7b\x7b") (ascii "\x7d\x7d")).test markup ∧
      hasDoctypeSystem (fun s => s.map foldCase) markup = doctypeSystem.test markup ∧
      hasQuantifiedGroupOfQuantifier markup = quantifiedGroup.test markup ∧
      nextLinkTarget markup = (nextLink.exec markup 0).bind (·.groups.head?) := by
  obtain ⟨htags, hshell, hline, hdoctype, hgroup, hlink⟩ := scanners_agree lowerCases_map markup
  exact ⟨htags true, hshell, hline _ _ (Js.forall_mem_of_all (by decide))
    (Js.forall_mem_of_all (by decide)), hdoctype, hgroup, hlink⟩

end Almyty.Security
