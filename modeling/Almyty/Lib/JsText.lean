import Almyty.Lib.Json

/-!
# JavaScript text operations

The `String` methods a program cleans its inputs and writes a URL with: `trim`,
`toLowerCase` of ASCII names, a global `replace` of a fixed text, and
`encodeURIComponent`. They work on lists of characters, so that they evaluate.
-/

namespace Almyty.Lib.Js

open List

theorem forall_mem_of_all {α : Type} {p : α → Prop} [DecidablePred p] {l : List α}
    (h : l.all (fun a => decide (p a)) = true) : ∀ a ∈ l, p a :=
  fun a ha => of_decide_eq_true (all_eq_true.mp h a ha)

theorem nat_repr_injective {m n : Nat} (h : m.repr = n.repr) : m = n := by
  have hlist : Nat.toDigits 10 m = Nat.toDigits 10 n := by
    rw [← Nat.toList_repr, ← Nat.toList_repr, h]
  rw [← Nat.ofDigitChars_ten_toDigits (n := m), hlist, Nat.ofDigitChars_ten_toDigits]

/-- The characters `trim` takes away: white space and line ends. -/
def isSpace (c : Char) : Bool :=
  (9 ≤ c.toNat && c.toNat ≤ 13) || (0x2000 ≤ c.toNat && c.toNat ≤ 0x200a) ||
    [0x20, 0xa0, 0x1680, 0x2028, 0x2029, 0x202f, 0x205f, 0x3000, 0xfeff].contains c.toNat

def trim (text : List Char) : List Char :=
  ((text.dropWhile isSpace).reverse.dropWhile isSpace).reverse

theorem dropWhile_rdropWhile {p : Char → Bool} {s : List Char} (h : s.dropWhile p = s) :
    (s.rdropWhile p).dropWhile p = s.rdropWhile p := by
  cases hs : s.rdropWhile p with
  | nil => rfl
  | cons c cs =>
    obtain ⟨rest, hrest⟩ := rdropWhile_prefix p s
    rw [hs] at hrest
    rw [← hrest, cons_append] at h
    have hc : ¬p c := by
      intro hc
      have hlength := congrArg List.length h
      have hle := (dropWhile_suffix (l := cs ++ rest) p).length_le
      rw [dropWhile_cons_of_pos hc, length_cons] at hlength
      omega
    exact dropWhile_cons_of_neg hc

@[simp] theorem trim_trim (text : List Char) : trim (trim text) = trim text := by
  show ((text.dropWhile isSpace).rdropWhile isSpace |>.dropWhile isSpace).rdropWhile isSpace
    = (text.dropWhile isSpace).rdropWhile isSpace
  rw [dropWhile_rdropWhile (dropWhile_idempotent isSpace text), rdropWhile_idempotent]

theorem trim_of_noSpace {text : List Char} (h : ∀ c ∈ text, isSpace c = false) :
    trim text = text := by
  have hdrop {l : List Char} (hl : ∀ c ∈ l, isSpace c = false) : l.dropWhile isSpace = l := by
    cases l with
    | nil => rfl
    | cons c cs => exact dropWhile_cons_of_neg (by simp [hl c mem_cons_self])
  rw [trim, hdrop h, hdrop fun c hc => h c (mem_reverse.mp hc), reverse_reverse]

def trimmed (text : String) : String := String.ofList (trim text.toList)

@[simp] theorem trimmed_trimmed (text : String) : trimmed (trimmed text) = trimmed text := by
  rw [trimmed, trimmed, String.toList_ofList, trim_trim]

def toLowerCase (name : String) : String := String.ofList (name.toList.map Char.toLower)

theorem toLower_toLower (c : Char) : c.toLower.toLower = c.toLower := by
  unfold Char.toLower
  grind

@[simp] theorem toLowerCase_toLowerCase (name : String) :
    toLowerCase (toLowerCase name) = toLowerCase name := by
  unfold toLowerCase
  rw [String.toList_ofList, map_map]
  congr 2
  funext c
  exact toLower_toLower c

def toUpperCase (name : String) : String := String.ofList (name.toList.map Char.toUpper)

/-! ## Parts of a text -/

theorem prefix_of_separated {α : Type} {p a b : List α} {c : α} (hc : c ∉ p)
    (h : p <+: a ++ c :: b) : p <+: a := by
  rcases prefix_or_prefix_of_prefix h (prefix_append a (c :: b)) with hle | hle
  · exact hle
  · -- a longer one would go over the separator
    obtain ⟨rest, rfl⟩ := hle
    rw [prefix_append_right_inj] at h
    cases rest with
    | nil => exact ⟨[], by simp⟩
    | cons d rest =>
      obtain ⟨rfl, -⟩ := cons_prefix_cons.mp h
      exact absurd (mem_append_right _ mem_cons_self) hc

theorem infix_of_separated {α : Type} {p a b : List α} {c : α} (hc : c ∉ p)
    (h : p <:+: a ++ c :: b) : p <:+: a ∨ p <:+: b := by
  obtain ⟨before, after, heq⟩ := h
  rw [append_assoc] at heq
  rcases append_eq_append_iff.mp heq with ⟨d, rfl, hd⟩ | ⟨d, rfl, hd⟩
  · -- it begins in the first part
    have hp : p <+: d ++ c :: b := ⟨after, hd⟩
    exact .inl ((prefix_of_separated hc hp).isInfix.trans (suffix_append _ _).isInfix)
  · -- it begins behind
    cases d with
    | nil =>
      cases p with
      | nil => exact .inr ⟨[], b, rfl⟩
      | cons x p =>
        obtain rfl : c = x := (List.cons.inj hd).1
        exact absurd mem_cons_self hc
    | cons x d =>
      rw [cons_append] at hd
      exact .inr ⟨d, after, by rw [(List.cons.inj hd).2, append_assoc]⟩

/-- Whether a text stands somewhere in another. -/
def occurs (pattern : List Char) : List Char → Bool
  | [] => pattern.isEmpty
  | c :: cs => pattern.isPrefixOf (c :: cs) || occurs pattern cs

def replaceAll (pattern by' : List Char) : Nat → List Char → List Char
  | _, [] => []
  | skip + 1, _ :: cs => replaceAll pattern by' skip cs
  | 0, c :: cs =>
    if pattern.isPrefixOf (c :: cs) then by' ++ replaceAll pattern by' (pattern.length - 1) cs
    else c :: replaceAll pattern by' 0 cs

theorem replaceAll_skip {pattern by' text : List Char} {skip : Nat} (h : text.length ≤ skip) :
    replaceAll pattern by' skip text = [] := by
  induction text generalizing skip with
  | nil => rw [replaceAll]
  | cons c text ih =>
    cases skip with
    | zero => simp at h
    | succ skip => rw [replaceAll, ih (by simpa using h)]

theorem replaceAll_of_absent {pattern by' text : List Char} (h : ¬ pattern <:+: text) :
    replaceAll pattern by' 0 text = text := by
  induction text with
  | nil => rfl
  | cons c text ih =>
    have hhere : ¬ pattern.isPrefixOf (c :: text) = true :=
      fun hfront => h (List.isPrefixOf_iff_prefix.mp hfront).isInfix
    rw [replaceAll, if_neg hhere, ih fun hwithin => h (hwithin.trans (suffix_cons c text).isInfix)]

theorem replaceAll_self {pattern : List Char} (by' : List Char) (h : pattern ≠ []) :
    replaceAll pattern by' 0 pattern = by' := by
  cases pattern with
  | nil => exact absurd rfl h
  | cons c pattern =>
    have hself : (c :: pattern).isPrefixOf (c :: pattern) = true :=
      isPrefixOf_iff_prefix.mpr prefix_rfl
    rw [replaceAll, if_pos hself, replaceAll_skip (by simp), append_nil]

theorem replaceAll_separated {pattern by' : List Char} {c : Char} (hc : c ∉ pattern)
    (hne : pattern ≠ []) {a : List Char} (b : List Char) {skip : Nat} (hskip : skip ≤ a.length) :
    replaceAll pattern by' skip (a ++ c :: b) =
      replaceAll pattern by' skip a ++ c :: replaceAll pattern by' 0 b := by
  have hlength := length_pos_iff.mpr hne
  induction a generalizing skip with
  | nil =>
    obtain rfl : skip = 0 := Nat.le_zero.mp hskip
    have hnot : ¬ pattern.isPrefixOf (c :: b) = true := by
      intro hfront
      have hle := prefix_of_separated (a := []) hc (List.isPrefixOf_iff_prefix.mp hfront)
      exact hne (prefix_nil.mp hle)
    have hpast : replaceAll pattern by' 0 (c :: b) = c :: replaceAll pattern by' 0 b := by
      rw [replaceAll, if_neg hnot]
    rw [nil_append, hpast]
    rfl
  | cons d a ih =>
    rw [cons_append]
    cases skip with
    | succ skip => rw [replaceAll, replaceAll, ih (by simpa using hskip)]
    | zero =>
      by_cases hhere : pattern <+: d :: a
      · have hfront : pattern <+: d :: (a ++ c :: b) := by
          rw [← cons_append]
          exact hhere.trans (prefix_append _ _)
        have hle := hhere.length_le
        rw [length_cons] at hle
        rw [replaceAll, replaceAll, if_pos (List.isPrefixOf_iff_prefix.mpr hfront),
          if_pos (List.isPrefixOf_iff_prefix.mpr hhere), ih (by omega), append_assoc]
      · have hnot : ¬ pattern <+: d :: (a ++ c :: b) := by
          intro hfront
          rw [← cons_append] at hfront
          exact hhere (prefix_of_separated hc hfront)
        rw [replaceAll, replaceAll, if_neg fun h => hnot (List.isPrefixOf_iff_prefix.mp h),
          if_neg fun h => hhere (List.isPrefixOf_iff_prefix.mp h), ih (Nat.zero_le _),
          cons_append]

def encodeURIComponent (text : String) : List Char :=
  text.toList.flatMap fun c =>
    if c.isAlphanum || "-_.!~*'()".toList.contains c then [c]
    else (String.utf8EncodeChar c).flatMap fun byte =>
      '%' :: [(byte.toNat / 16).digitChar.toUpper, (byte.toNat % 16).digitChar.toUpper]

/-- The bodies of the spans `/\{([^}]+)\}/g` matches, left to right; the first
argument is the body read so far of a span that has begun. -/
def delimited (open' close : Char) : Option (List Char) → List Char → List String
  | _, [] => []
  | none, c :: cs => delimited open' close (if c = open' then some [] else none) cs
  | some body, c :: cs =>
    if c ≠ close then delimited open' close (some (body ++ [c])) cs
    else if body = [] then delimited open' close none cs
    else String.ofList body :: delimited open' close none cs

example :
    delimited '{' '}' none "/a/\x7borg\x7d/\x7b\x7d/b/\x7b\x7brepo\x7d-x/\x7b".toList
      = ["org", "\x7brepo"] := by
  decide

end Almyty.Lib.Js
