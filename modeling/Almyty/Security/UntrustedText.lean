import Almyty.Lib.ShellWord
import Almyty.Lib.YamlScalar
import Almyty.Security.InputSanitizer

/-!
# Text from an imported schema: `common/security/untrusted-text.ts`

Text on its way into a generated file is quoted for the place it goes to. A bash word has the text
as its value, a code block is not closed by what is in it, and a comment not ended; a YAML scalar is
left plain where it is made of letters, digits and a few marks, and no word for a truth value. That
leaves out what YAML has for numbers, dates, `y` and `n`: `quoting_holds_iff` says that nothing else
goes wrong, but for two units that no text of YAML 1.1 has.

Mirroring notes:
- A value is a string; others are made strings first.
-/

namespace Almyty.Security.UntrustedText

open Almyty.Lib List
open Almyty.Common (Text CodeUnit ascii isSpace trim)

/-! ## Cleaning -/

def MAX_SAFE_INTEGER : Nat := 2 ^ 53 - 1

/-- `CONTROL_CHARS`. -/
def isControl (c : CodeUnit) : Bool :=
  c ≤ 8 || (0x0b ≤ c && c ≤ 0x1f) || (0x7f ≤ c && c ≤ 0x9f)

/-- `INVISIBLE_CHARS`. -/
def isInvisible (c : CodeUnit) : Bool :=
  (0x200b ≤ c && c ≤ 0x200f) || (0x202a ≤ c && c ≤ 0x202e) || (0x2060 ≤ c && c ≤ 0x2064) ||
    (0x2066 ≤ c && c ≤ 0x2069) || c = 0xfeff

def isBreak (c : CodeUnit) : Bool :=
  [0x0d, 0x0a, 0x0b, 0x0c, 0x85, 0x2028, 0x2029].contains c

/-- `text.replace(LINE_BREAKS, '\n')`. -/
def unifyBreaks : Text → Text
  | [] => []
  | [c] => [if isBreak c then 10 else c]
  | c :: d :: rest =>
    if c = 13 && d = 10 then 10 :: unifyBreaks rest
    else (if isBreak c then 10 else c) :: unifyBreaks (d :: rest)

def truncate (text : Text) (maxLength : Nat) : Text :=
  if text.length ≤ maxLength then text
  else (text.take (maxLength - 3)).rdropWhile isSpace ++ ascii "..."

def sanitizeSchemaText (text : Text) (maxLength : Nat) : Text :=
  truncate (((unifyBreaks text).filter (!isControl ·)).filter (!isInvisible ·)) maxLength

def collapse : Bool → Text → Text
  | _, [] => []
  | after, c :: rest =>
    if isSpace c then if after then collapse true rest else 32 :: collapse true rest
    else c :: collapse false rest

def singleLine (text : Text) (maxLength : Nat) : Text :=
  truncate (trim (collapse false (sanitizeSchemaText text MAX_SAFE_INTEGER))) maxLength

/-! ## Quoting -/

def bashSingleQuote (value : Text) : Text :=
  39 :: ((sanitizeSchemaText value MAX_SAFE_INTEGER).flatMap fun c =>
    if c = 39 then ascii "'\\''" else [c]) ++ [39]

/-- `[A-Za-z0-9_.,:\/=@%+-]`. -/
def isBareUnit (c : CodeUnit) : Bool := isWordUnit c || (ascii ".,:/=@%+-").contains c

def bashWord (value : Text) : Text :=
  let text := sanitizeSchemaText value MAX_SAFE_INTEGER
  if text ≠ [] ∧ text.all isBareUnit then text else bashSingleQuote text

def defuse : Text → Text
  | [] => []
  | [c] => [c]
  | c :: d :: rest =>
    if c = 42 && d = 47 then 42 :: 92 :: 47 :: defuse rest else c :: defuse (d :: rest)

def jsDocText (value : Text) (maxLength : Nat) : Text := defuse (singleLine value maxLength)

def backtickRuns (body : Text) : List Text := (body.splitOnP (· ≠ 96)).filter (· ≠ [])

def longestRun (body : Text) : Nat := ((backtickRuns body).map List.length).foldl max 0

def fenceBody (content : Text) : Text := sanitizeSchemaText content MAX_SAFE_INTEGER

def fenceLength (content : Text) : Nat := max 3 (longestRun (fenceBody content) + 1)

def markdownFence (content lang : Text) : Text :=
  let fence := List.replicate (fenceLength content) (96 : CodeUnit)
  fence ++ lang.filter (fun c => isWordUnit c || c = 43 || c = 45) ++ 10 :: fenceBody content ++
    10 :: fence

/-- `[A-Za-z0-9]`. -/
def isAlnum (c : CodeUnit) : Bool := isWordUnit c && c ≠ 95

/-- `^[A-Za-z0-9][A-Za-z0-9 _.,()\/+-]*$`. -/
def isPlainText : Text → Bool
  | [] => false
  | c :: rest => isAlnum c && rest.all fun d => isWordUnit d || (ascii " .,()/+-").contains d

/-- `^(true|false|yes|no|on|off|null)$`, under `/i`. -/
def isReserved (text : Text) : Bool :=
  (["true", "false", "yes", "no", "on", "off", "null"].map ascii).contains (text.map foldCase)

def yamlScalar (value : Text) (maxLength : Nat) : Text :=
  let text := singleLine value maxLength
  if isPlainText text && !isReserved text then text else Yaml.stringify text

def RESERVED_WORDS : List Text :=
  (["break", "case", "catch", "class", "const", "continue", "debugger", "default", "delete", "do",
    "else", "enum", "export", "extends", "false", "finally", "for", "function", "if", "import", "in",
    "instanceof", "new", "null", "return", "super", "switch", "this", "throw", "true", "try",
    "typeof", "var", "void", "while", "with", "yield", "let", "static", "implements", "interface",
    "package", "private", "protected", "public", "await", "arguments", "eval", "undefined", "NaN",
    "Infinity", "any", "boolean", "number", "string", "symbol", "never", "unknown", "object", "type",
    "declare", "namespace", "module"]).map ascii

/-- `[A-Za-z0-9_$]`. -/
def isIdUnit (c : CodeUnit) : Bool := isWordUnit c || c = 36

def jsIdentifier (value fallback : Text) : Text :=
  let kept := (singleLine value 128).filter isIdUnit
  let id := if kept = [] then fallback else kept
  let id := if id.head?.any (fun c => 48 ≤ c && c ≤ 57) then 95 :: id else id
  if RESERVED_WORDS.contains id then id ++ [95] else id

/-! ## What is read -/

/-- The fence of a code block is closed by as many backticks, a little indented, and no more than
blanks behind them. -/
def closesFence (length : Nat) (line : Text) : Bool :=
  let indent := (line.takeWhile (· = 32)).length
  let rest := line.dropWhile (· = 32)
  indent ≤ 3 && length ≤ (rest.takeWhile (· = 96)).length &&
    (rest.dropWhile (· = 96)).all fun c => c = 32 || c = 9

def markdownLines (text : Text) : List Text := text.splitOnP fun c => c = 10 || c = 13

structure KeepsType (text : Text) : Prop where
  /-- Two units are no characters of YAML 1.1, and JSON does not escape them. -/
  characters : ∀ c ∈ text, c ≠ 0xfffe ∧ c ≠ 0xffff
  plain : (isPlainText text && !isReserved text) = true → text ∉ ["y", "Y", "n", "N"].map ascii ∧
    ∀ version, Yaml.isNumber version text = false ∧ Yaml.isTime version text = false

structure StaysQuoted (value : Text) (maxLength : Nat) : Prop where
  single : Shell.oneWord (bashSingleQuote value) = some (sanitizeSchemaText value MAX_SAFE_INTEGER)
  word : Shell.oneWord (bashWord value) = some (sanitizeSchemaText value MAX_SAFE_INTEGER)
  fence : ∀ line ∈ markdownLines (fenceBody value), closesFence (fenceLength value) line = false
  comment : ¬ ascii "*/" <:+: jsDocText value maxLength
  scalar : ∀ version, Yaml.readScalar version (yamlScalar value maxLength) =
    some (.str (singleLine value maxLength))

/-! ## What cleaning leaves -/

section Cleaning

def isClean (c : CodeUnit) : Bool := !isControl c && !isInvisible c && (!isBreak c || c = 10)

theorem unifyBreaks_breaks (text : Text) : ∀ c ∈ unifyBreaks text, isBreak c = true → c = 10 := by
  have hunit : ∀ c : CodeUnit, isBreak (if isBreak c then 10 else c) = true →
      (if isBreak c then 10 else c) = 10 := by
    intro c h
    split at h
    · next hc => rw [if_pos hc]
    · next hc => exact absurd h hc
  fun_induction unifyBreaks text with
  | case1 => exact fun c hc => absurd hc not_mem_nil
  | case2 c =>
    intro d hd
    rw [mem_singleton.mp hd]
    exact hunit c
  | case3 c d rest _ ih => exact forall_mem_cons.mpr ⟨fun _ => rfl, ih⟩
  | case4 c d rest _ ih => exact forall_mem_cons.mpr ⟨hunit c, ih⟩

variable {text : Text}

theorem unifyBreaks_clean (h : ∀ c ∈ text, isBreak c = true → c = 10) :
    unifyBreaks text = text := by
  have hunit : ∀ c : CodeUnit, (isBreak c = true → c = 10) → (if isBreak c then 10 else c) = c := by
    intro c hc
    split
    · next hbreak => exact (hc hbreak).symm
    · rfl
  fun_induction unifyBreaks text with
  | case1 => rfl
  | case2 c => rw [hunit c (h c mem_cons_self)]
  | case3 c d rest hpair ih =>
    rw [Bool.and_eq_true] at hpair
    have hc : c = 13 := of_decide_eq_true hpair.1
    subst hc
    exact absurd (h 13 mem_cons_self (by decide)) (by decide)
  | case4 c d rest _ ih =>
    rw [hunit c (h c mem_cons_self), ih fun e he => h e (mem_cons_of_mem c he)]

variable {maxLength : Nat}

theorem mem_truncate {c : CodeUnit} (h : c ∈ truncate text maxLength) : c ∈ text ∨ c = 46 := by
  unfold truncate at h
  split at h
  · exact .inl h
  · rcases mem_append.mp h with h | h
    · exact .inl (mem_of_mem_take ((List.rdropWhile_prefix _ _).subset h))
    · refine .inr ?_
      have hdots : ascii "..." = [46, 46, 46] := by decide
      rw [hdots] at h
      simpa using h

theorem sanitize_clean (text : Text) (maxLength : Nat) :
    ∀ c ∈ sanitizeSchemaText text maxLength, isClean c = true := by
  intro c hc
  rcases mem_truncate hc with hc | rfl
  · rw [mem_filter, mem_filter] at hc
    obtain ⟨⟨hmem, hcontrol⟩, hinvisible⟩ := hc
    have hbreak := unifyBreaks_breaks text c hmem
    rw [isClean, hcontrol, hinvisible, Bool.true_and, Bool.true_and]
    cases hb : isBreak c with
    | false => rfl
    | true => rw [hbreak hb]; rfl
  · decide

theorem truncate_of_le (h : text.length ≤ maxLength) :
    truncate text maxLength = text := if_pos h

theorem length_truncate_le (h : 3 ≤ maxLength) : (truncate text maxLength).length ≤ maxLength := by
  unfold truncate
  split
  · assumption
  · have hkept := (List.rdropWhile_prefix isSpace (text.take (maxLength - 3))).length_le
    have htake := length_take_le (maxLength - 3) text
    have hdots : (ascii "...").length = 3 := by decide
    rw [length_append, hdots]
    omega

theorem sanitize_of_clean (h : ∀ c ∈ text, isClean c = true) (hlength : text.length ≤ maxLength) :
    sanitizeSchemaText text maxLength = text := by
  have hclean : ∀ c ∈ text, (!isControl c) = true ∧ (!isInvisible c) = true ∧
      (isBreak c = true → c = 10) := by
    intro c hc
    have hc := h c hc
    rw [isClean, Bool.and_eq_true, Bool.and_eq_true] at hc
    refine ⟨hc.1.1, hc.1.2, fun hbreak => ?_⟩
    simpa [hbreak] using hc.2
  rw [sanitizeSchemaText, unifyBreaks_clean fun c hc => (hclean c hc).2.2,
    filter_eq_self.mpr fun c hc => (hclean c hc).1,
    filter_eq_self.mpr fun c hc => (hclean c hc).2.1, truncate_of_le hlength]

theorem sanitize_sanitize (text : Text) :
    sanitizeSchemaText (sanitizeSchemaText text MAX_SAFE_INTEGER) MAX_SAFE_INTEGER =
      sanitizeSchemaText text MAX_SAFE_INTEGER :=
  sanitize_of_clean (sanitize_clean text _) (length_truncate_le (by decide))

end Cleaning

/-! ## Shells -/

section Shells

theorem bashSingleQuote_eq (value : Text) : bashSingleQuote value =
    Shell.singleQuoted (sanitizeSchemaText value MAX_SAFE_INTEGER) := by
  have hquote : ascii "'\\''" = [39, 92, 39, 39] := by decide
  rw [bashSingleQuote, Shell.singleQuoted, hquote]

theorem oneWord_bashSingleQuote (value : Text) :
    Shell.oneWord (bashSingleQuote value) = some (sanitizeSchemaText value MAX_SAFE_INTEGER) := by
  rw [bashSingleQuote_eq, Shell.oneWord_singleQuoted]

theorem isLiteral_of_bare {c : CodeUnit} (h : isBareUnit c = true) : Shell.isLiteral c = true := by
  have hall : ∀ d ∈ Shell.special, isBareUnit d = false := Js.forall_mem_of_all (by decide)
  rw [Shell.isLiteral, Bool.not_eq_true']
  by_contra hspecial
  rw [Bool.not_eq_false, contains_iff_mem] at hspecial
  rw [hall c hspecial] at h
  cases h

theorem oneWord_bashWord (value : Text) :
    Shell.oneWord (bashWord value) = some (sanitizeSchemaText value MAX_SAFE_INTEGER) := by
  unfold bashWord
  dsimp only
  split
  · next h =>
    exact Shell.oneWord_literal h.1 fun c hc => isLiteral_of_bare (all_eq_true.mp h.2 c hc)
  · rw [oneWord_bashSingleQuote, sanitize_sanitize]

end Shells

/-! ## Code blocks and comments -/

section Blocks

theorem le_foldl_max {l : List Nat} {n m : Nat} (h : n ∈ l ∨ n ≤ m) : n ≤ l.foldl max m := by
  induction l generalizing m with
  | nil => exact h.resolve_left not_mem_nil
  | cons a l ih =>
    rw [foldl_cons]
    rcases h with h | h
    · rcases mem_cons.mp h with rfl | h
      · exact ih (.inr (Nat.le_max_right m n))
      · exact ih (.inl h)
    · exact ih (.inr (Nat.le_trans h (Nat.le_max_left m a)))

theorem length_le_longestRun {body run : Text} (h : run <:+: body)
    (hrun : ∀ c ∈ run, c = 96) : run.length ≤ longestRun body := by
  cases hempty : run with
  | nil => exact Nat.zero_le _
  | cons c rest =>
    rw [← hempty]
    obtain ⟨a, b, rfl⟩ := h
    obtain ⟨front, -, hmem⟩ := exists_line_of_stretch (p := fun c : CodeUnit => decide (c ≠ 96)) a b
      (m := run) fun c hc => by rw [hrun c hc]; rfl
    have hle : run.length ≤ (front ++ run ++ b.takeWhile fun c => !decide (c ≠ 96)).length := by
      rw [length_append, length_append]
      omega
    refine Nat.le_trans hle (le_foldl_max (.inl (mem_map_of_mem ?_)))
    refine mem_filter.mpr ⟨hmem, ?_⟩
    rw [hempty]
    simp

theorem fence_not_closed (content : Text) :
    ∀ line ∈ markdownLines (fenceBody content), closesFence (fenceLength content) line = false := by
  intro line hline
  obtain ⟨before, after, hbody, -, -, -⟩ := mem_lines_iff.mp hline
  have hticks : ((line.dropWhile (· = 32)).takeWhile (· = 96)).length ≤
      longestRun (fenceBody content) := by
    refine length_le_longestRun ?_ fun c hc => by simpa using mem_takeWhile_imp hc
    have hfront := (List.takeWhile_prefix (p := fun c : CodeUnit => decide (c = 96))
      (l := line.dropWhile (· = 32))).isInfix
    have hsuffix :=
      (dropWhile_suffix (fun c : CodeUnit => decide (c = 32)) (l := line)).isInfix
    exact (hfront.trans hsuffix).trans ⟨before, after, hbody.symm⟩
  have hlong : ¬ fenceLength content ≤
      ((line.dropWhile (· = 32)).takeWhile (· = 96)).length := by
    have hfence : longestRun (fenceBody content) + 1 ≤ fenceLength content := Nat.le_max_right _ _
    omega
  unfold closesFence
  dsimp only
  rw [decide_eq_false hlong, Bool.and_false, Bool.false_and]

theorem defuse_head (c : CodeUnit) (rest : Text) : ∃ tail, defuse (c :: rest) = c :: tail := by
  cases rest with
  | nil => exact ⟨[], rfl⟩
  | cons d rest =>
    unfold defuse
    split
    · next h =>
      rw [Bool.and_eq_true] at h
      have hc : c = 42 := of_decide_eq_true h.1
      exact ⟨92 :: 47 :: defuse rest, by rw [hc]⟩
    · exact ⟨defuse (d :: rest), rfl⟩

theorem defuse_not_ended (text : Text) : ¬ [42, 47] <:+: defuse text := by
  fun_induction defuse text with
  | case1 => exact fun h => nomatch infix_nil.mp h
  | case2 c =>
    intro h
    have := h.length_le
    simp at this
  | case3 c d rest _ ih =>
    intro h
    rcases infix_cons_iff.mp h with h | h
    · obtain ⟨-, h⟩ := cons_prefix_cons.mp h
      exact absurd (cons_prefix_cons.mp h).1 (by decide)
    rcases infix_cons_iff.mp h with h | h
    · exact absurd (cons_prefix_cons.mp h).1 (by decide)
    rcases infix_cons_iff.mp h with h | h
    · exact absurd (cons_prefix_cons.mp h).1 (by decide)
    exact ih h
  | case4 c d rest hpair ih =>
    intro h
    rcases infix_cons_iff.mp h with h | h
    · obtain ⟨hc, h⟩ := cons_prefix_cons.mp h
      obtain ⟨tail, htail⟩ := defuse_head d rest
      rw [htail] at h
      have hd := (cons_prefix_cons.mp h).1
      refine hpair ?_
      rw [← hc, ← hd]
      rfl
    · exact ih h

end Blocks

/-! ## Identifiers -/

section Identifiers

def IsId (text : Text) : Prop := ∀ c ∈ text, isIdUnit c = true

instance (text : Text) : Decidable (IsId text) := inferInstanceAs (Decidable (∀ c ∈ text, _))

theorem IsId.append {a b : Text} (ha : IsId a) (hb : IsId b) : IsId (a ++ b) := fun c hc =>
  (mem_append.mp hc).elim (ha c) (hb c)

theorem isId_of_all {text : Text} (h : text.all isIdUnit = true) : IsId text :=
  all_eq_true.mp h

theorem isId_jsIdentifier (value : Text) {fallback : Text} (h : IsId fallback) :
    IsId (jsIdentifier value fallback) := by
  have hunderscore : IsId [95] := isId_of_all (by decide)
  have hkept : IsId ((singleLine value 128).filter isIdUnit) := fun c hc => (mem_filter.mp hc).2
  have hnamed : IsId (if (singleLine value 128).filter isIdUnit = [] then fallback
      else (singleLine value 128).filter isIdUnit) := by
    split
    · exact h
    · exact hkept
  rw [jsIdentifier]
  generalize (if (singleLine value 128).filter isIdUnit = [] then fallback
    else (singleLine value 128).filter isIdUnit) = id at hnamed ⊢
  have hlead : IsId (if id.head?.any (fun c => 48 ≤ c && c ≤ 57) = true then 95 :: id else id) := by
    split
    · exact hunderscore.append hnamed
    · exact hnamed
  have hreserved {text : Text} (htext : IsId text) :
      IsId (if RESERVED_WORDS.contains text then text ++ [95] else text) := by
    split
    · exact htext.append hunderscore
    · exact htext
  exact hreserved hlead

/-- An underscore before a digit, one behind a reserved word. -/
theorem jsIdentifier_cases (value fallback : Text) : ∃ id lead : Text,
    (id = if (singleLine value 128).filter isIdUnit = [] then fallback
      else (singleLine value 128).filter isIdUnit) ∧
    (lead = id ∨ (lead = 95 :: id ∧ id.head?.any (fun c => 48 ≤ c && c ≤ 57) = true)) ∧
    (jsIdentifier value fallback = lead ∨
      (jsIdentifier value fallback = lead ++ [95] ∧ lead ∈ RESERVED_WORDS)) := by
  obtain ⟨id, hid⟩ : ∃ id, id = if (singleLine value 128).filter isIdUnit = [] then fallback
      else (singleLine value 128).filter isIdUnit := ⟨_, rfl⟩
  have hreserved (lead : Text) :
      (if RESERVED_WORDS.contains lead then lead ++ [95] else lead) = lead ∨
        ((if RESERVED_WORDS.contains lead then lead ++ [95] else lead) = lead ++ [95] ∧
          lead ∈ RESERVED_WORDS) := by
    by_cases hword : RESERVED_WORDS.contains lead = true
    · exact .inr ⟨if_pos hword, contains_iff_mem.mp hword⟩
    · exact .inl (if_neg hword)
  rw [jsIdentifier, ← hid]
  by_cases hdigit : id.head?.any (fun c => 48 ≤ c && c ≤ 57) = true
  · refine ⟨id, 95 :: id, rfl, .inr ⟨rfl, hdigit⟩, ?_⟩
    rw [if_pos hdigit]
    exact hreserved (95 :: id)
  · refine ⟨id, id, rfl, .inl rfl, ?_⟩
    rw [if_neg hdigit]
    exact hreserved id

end Identifiers

/-! ## Scalars -/

section Scalars

variable {text : Text} {c : CodeUnit}

theorem mem_collapse {after : Bool} (h : c ∈ collapse after text) :
    c = 32 ∨ (c ∈ text ∧ isSpace c = false) := by
  induction text generalizing after with
  | nil => exact absurd h not_mem_nil
  | cons d text ih =>
    have hrest : ∀ {b}, c ∈ collapse b text → c = 32 ∨ (c ∈ d :: text ∧ isSpace c = false) :=
      fun hmem => (ih hmem).imp_right fun h => ⟨mem_cons_of_mem d h.1, h.2⟩
    unfold collapse at h
    split at h
    · split at h
      · exact hrest h
      · rcases mem_cons.mp h with rfl | h
        · exact .inl rfl
        · exact hrest h
    · next hspace =>
      rcases mem_cons.mp h with rfl | h
      · exact .inr ⟨mem_cons_self, by simpa using hspace⟩
      · exact hrest h

def isShown (c : CodeUnit) : Bool := 32 ≤ c && !(0x7f ≤ c && c ≤ 0x9f)

theorem shown_of_clean (h : isClean c = true) (hspace : isSpace c = false) : isShown c = true := by
  have hne : ∀ d : CodeUnit, isSpace d = true → c ≠ d := by
    rintro d hd rfl
    rw [hd] at hspace
    cases hspace
  have htab := hne 9 (by decide)
  have hline := hne 10 (by decide)
  rw [isClean, Bool.and_eq_true, Bool.and_eq_true] at h
  have hcontrol : isControl c = false := by simpa using h.1.1
  simp only [isControl, Bool.or_eq_false_iff, Bool.and_eq_false_iff, decide_eq_false_iff_not,
    UInt16.le_iff_toNat_le, ne_eq, ← UInt16.toNat_inj] at hcontrol htab hline
  change (¬ c.toNat ≤ 8 ∧ (¬ 0x0b ≤ c.toNat ∨ ¬ c.toNat ≤ 0x1f)) ∧
    (¬ 0x7f ≤ c.toNat ∨ ¬ c.toNat ≤ 0x9f) at hcontrol
  change ¬ c.toNat = 9 at htab
  change ¬ c.toNat = 10 at hline
  have hlow : (32 : CodeUnit) ≤ c := UInt16.le_iff_toNat_le.mpr (show 32 ≤ c.toNat by omega)
  have hrange : (decide (0x7f ≤ c) && decide (c ≤ 0x9f)) = false := by
    rw [Bool.and_eq_false_iff, decide_eq_false_iff_not, decide_eq_false_iff_not,
      UInt16.le_iff_toNat_le, UInt16.le_iff_toNat_le]
    exact hcontrol.2
  rw [isShown, decide_eq_true hlow, hrange]
  rfl

theorem trim_subset (text : Text) : trim text ⊆ text := fun _ hc =>
  (dropWhile_suffix _).subset ((List.rdropWhile_prefix _ _).subset hc)

theorem singleLine_shown (value : Text) (maxLength : Nat) :
    ∀ c ∈ singleLine value maxLength, isShown c = true := by
  intro c hc
  rcases mem_truncate hc with hc | rfl
  · rcases mem_collapse (trim_subset _ hc) with rfl | ⟨hc, hspace⟩
    · decide
    · exact shown_of_clean (sanitize_clean value _ c hc) hspace
  · decide

theorem singleLine_last (value : Text) (maxLength : Nat) :
    ∀ c ∈ (singleLine value maxLength).getLast?, isSpace c = false := by
  intro c hc
  unfold singleLine truncate at hc
  split at hc
  · by_cases hne : trim (collapse false (sanitizeSchemaText value MAX_SAFE_INTEGER)) = []
    · rw [hne] at hc
      cases hc
    · rw [List.getLast?_eq_some_getLast hne] at hc
      rw [← Option.some.inj hc]
      exact (Bool.not_eq_true _).mp (rdropWhile_last_not isSpace _ hne)
  · have hdots : ascii "..." = [46, 46] ++ [46] := by decide
    rw [hdots, ← append_assoc, List.getLast?_append] at hc
    rw [← Option.some.inj hc]
    decide

theorem readable_iff (h : isShown c = true) :
    (∀ version, Yaml.isReadable version c = true) ↔ c ≠ 0xfffe ∧ c ≠ 0xffff := by
  have hshown : 32 ≤ c.toNat ∧ (c.toNat < 0x7f ∨ 0x9f < c.toNat) := by
    simp only [isShown, Bool.and_eq_true, Bool.not_eq_true', Bool.and_eq_false_iff,
      decide_eq_true_eq, decide_eq_false_iff_not, UInt16.le_iff_toNat_le] at h
    change 32 ≤ c.toNat ∧ (¬ 0x7f ≤ c.toNat ∨ ¬ c.toNat ≤ 0x9f) at h
    omega
  have hlt : c.toNat < 65536 := c.toNat_lt
  have h32 : (32 : CodeUnit) ≤ c := UInt16.le_iff_toNat_le.mpr hshown.1
  have hv11 : Yaml.isReadable .v11 c = true ↔ c.toNat ≤ 0xfffd := by
    simp only [Yaml.isReadable, Yaml.isPrintable, Bool.or_eq_true, Bool.and_eq_true,
      decide_eq_true_eq, UInt16.le_iff_toNat_le, UInt16.lt_iff_toNat_lt, ← UInt16.toNat_inj]
    change (c.toNat < 32 ∨ ((c.toNat = 9 ∨ 0x20 ≤ c.toNat ∧ c.toNat ≤ 0x7e) ∨ c.toNat = 0x85) ∨
      0xa0 ≤ c.toNat ∧ c.toNat ≤ 0xfffd) ↔ _
    omega
  have hv12 : Yaml.isReadable .v12 c = true := by
    simp [Yaml.isReadable, Yaml.isPrintable, h32]
  have hne : (c ≠ 0xfffe ∧ c ≠ 0xffff) ↔ c.toNat ≤ 0xfffd := by
    rw [ne_eq, ne_eq, ← UInt16.toNat_inj, ← UInt16.toNat_inj]
    change (¬ c.toNat = 0xfffe ∧ ¬ c.toNat = 0xffff) ↔ _
    omega
  rw [hne, ← hv11]
  constructor
  · exact fun h => h .v11
  · intro h version
    cases version
    · exact h
    · exact hv12

def isPlainUnit (c : CodeUnit) : Bool := isWordUnit c || (ascii " .,()/+-").contains c

theorem plainUnit_ascii (h : isPlainUnit c = true) : c.toNat < 128 := by
  rw [isPlainUnit, Bool.or_eq_true] at h
  rcases h with h | h
  · simp only [isWordUnit, Bool.or_eq_true, Bool.and_eq_true, decide_eq_true_eq,
      UInt16.le_iff_toNat_le, ← UInt16.toNat_inj] at h
    change ((97 ≤ c.toNat ∧ c.toNat ≤ 122 ∨ 65 ≤ c.toNat ∧ c.toNat ≤ 90) ∨ c.toNat = 95) ∨
      48 ≤ c.toNat ∧ c.toNat ≤ 57 at h
    omega
  · have hall : ∀ d ∈ ascii " .,()/+-", d.toNat < 128 := Js.forall_mem_of_all (by decide)
    exact hall c (contains_iff_mem.mp h)

theorem of_plainUnit {p : CodeUnit → Bool}
    (hall : (List.range 128).all fun n => !isPlainUnit (UInt16.ofNat n) || p (UInt16.ofNat n))
    (h : isPlainUnit c = true) : p c = true := by
  have hc := all_eq_true.mp hall c.toNat (mem_range.mpr (plainUnit_ascii h))
  rw [UInt16.ofNat_toNat, h] at hc
  simpa using hc

theorem plainUnit_facts (h : isPlainUnit c = true) :
    Yaml.isPrintable .v11 c = true ∧ c ≠ 58 ∧ c ≠ 35 ∧ c ≠ 0xfffe ∧ c ≠ 0xffff := by
  have hc := of_plainUnit (p := fun c => Yaml.isPrintable .v11 c && c != 58 && c != 35 &&
    c != 0xfffe && c != 0xffff) (by decide) h
  simpa [and_assoc] using hc

theorem alnum_facts (hc : isPlainUnit c = true) (h : isAlnum c = true) :
    c ≠ 34 ∧ Yaml.isIndicator c = false ∧ c ≠ 32 ∧ c ≠ 9 := by
  have hfacts := of_plainUnit (p := fun c => !isAlnum c || (c != 34 && !Yaml.isIndicator c &&
    c != 32 && c != 9)) (by decide) hc
  simpa [h, and_assoc] using hfacts

theorem plainUnit_of_mem (h : isPlainText text = true) : ∀ c ∈ text, isPlainUnit c = true := by
  cases text with
  | nil => exact fun c hc => absurd hc not_mem_nil
  | cons c rest =>
    rw [isPlainText, Bool.and_eq_true] at h
    refine forall_mem_cons.mpr ⟨?_, all_eq_true.mp h.2⟩
    have hword := h.1
    rw [isAlnum, Bool.and_eq_true] at hword
    rw [isPlainUnit, hword.1, Bool.true_or]

theorem plainUnit_of_alnum (h : isAlnum c = true) : isPlainUnit c = true := by
  rw [isAlnum, Bool.and_eq_true] at h
  rw [isPlainUnit, h.1, Bool.true_or]

theorem alnum_clean (h : isAlnum c = true) :
    isClean c = true ∧ isSpace c = false ∧ isIdUnit c = true := by
  have hfacts := of_plainUnit (p := fun c => !isAlnum c || (isClean c && !isSpace c && isIdUnit c))
    (by decide) (plainUnit_of_alnum h)
  simpa [h, and_assoc] using hfacts

theorem collapse_of_no_space (h : ∀ c ∈ text, isSpace c = false) (after : Bool) :
    collapse after text = text := by
  induction text generalizing after with
  | nil => rfl
  | cons c text ih =>
    rw [collapse, h c mem_cons_self, if_neg (by decide), ih fun d hd => h d (mem_cons_of_mem c hd)]

theorem rdropWhile_of_no_space (h : ∀ c ∈ text, isSpace c = false) :
    text.rdropWhile isSpace = text := by
  rw [rdropWhile_eq_self_iff]
  intro hne hlast
  rw [h _ (getLast_mem hne)] at hlast
  cases hlast

theorem trim_of_no_space (h : ∀ c ∈ text, isSpace c = false) : trim text = text := by
  have hdrop : text.dropWhile isSpace = text := by
    cases text with
    | nil => rfl
    | cons c text => exact dropWhile_cons_of_neg (by simp [h c mem_cons_self])
  rw [trim, hdrop, rdropWhile_of_no_space h]

theorem truncate_of_no_space (h : ∀ c ∈ text, isSpace c = false) {maxLength : Nat}
    (hlong : maxLength < text.length) :
    truncate text maxLength = text.take (maxLength - 3) ++ ascii "..." := by
  rw [truncate, if_neg (Nat.not_le.mpr hlong),
    rdropWhile_of_no_space fun c hc => h c (mem_of_mem_take hc)]

theorem singleLine_alnum (h : ∀ c ∈ text, isAlnum c = true) :
    (text.length ≤ 128 → singleLine text 128 = text) ∧
      (128 < text.length → singleLine text 128 = text.take 125 ++ ascii "...") := by
  have hspace : ∀ c ∈ text, isSpace c = false := fun c hc => (alnum_clean (h c hc)).2.1
  have hshort (hlen : text.length ≤ MAX_SAFE_INTEGER) :
      trim (collapse false (sanitizeSchemaText text MAX_SAFE_INTEGER)) = text := by
    rw [sanitize_of_clean (fun c hc => (alnum_clean (h c hc)).1) hlen, collapse_of_no_space hspace,
      trim_of_no_space hspace]
  refine ⟨fun hlen => ?_, fun hlong => ?_⟩
  · have hmax : text.length ≤ MAX_SAFE_INTEGER := Nat.le_trans hlen (by decide)
    rw [singleLine, hshort hmax, truncate_of_le hlen]
  · by_cases hmax : text.length ≤ MAX_SAFE_INTEGER
    · rw [singleLine, hshort hmax, truncate_of_no_space hspace hlong]
    · -- no string is so long; what is cut first begins as the text does
      have hcut : sanitizeSchemaText text MAX_SAFE_INTEGER =
          text.take (MAX_SAFE_INTEGER - 3) ++ ascii "..." := by
        have hclean : ∀ c ∈ text, (!isControl c) = true ∧ (!isInvisible c) = true ∧
            (isBreak c = true → c = 10) := by
          intro c hc
          have hc := (alnum_clean (h c hc)).1
          rw [isClean, Bool.and_eq_true, Bool.and_eq_true] at hc
          exact ⟨hc.1.1, hc.1.2, fun hbreak => by simpa [hbreak] using hc.2⟩
        rw [sanitizeSchemaText, unifyBreaks_clean fun c hc => (hclean c hc).2.2,
          filter_eq_self.mpr fun c hc => (hclean c hc).1,
          filter_eq_self.mpr fun c hc => (hclean c hc).2.1,
          truncate_of_no_space hspace (Nat.lt_of_not_le hmax)]
      have hcutSpace : ∀ c ∈ text.take (MAX_SAFE_INTEGER - 3) ++ ascii "...", isSpace c = false := by
        intro c hc
        rcases mem_append.mp hc with hc | hc
        · exact hspace c (mem_of_mem_take hc)
        · have hdots : ascii "..." = [46, 46, 46] := by decide
          rw [hdots] at hc
          have hdot : c = 46 := by simpa using hc
          rw [hdot]
          decide
      have hbound : 125 ≤ MAX_SAFE_INTEGER - 3 := by decide
      have hlength : 128 < (text.take (MAX_SAFE_INTEGER - 3) ++ ascii "...").length := by
        rw [length_append, length_take_of_le (by omega)]
        have hbig : 128 ≤ MAX_SAFE_INTEGER - 3 := by decide
        have hdots : (ascii "...").length = 3 := by decide
        omega
      rw [singleLine, hcut, collapse_of_no_space hcutSpace, trim_of_no_space hcutSpace,
        truncate_of_no_space hcutSpace hlength]
      have htake : (text.take (MAX_SAFE_INTEGER - 3)).length = MAX_SAFE_INTEGER - 3 :=
        length_take_of_le (by omega)
      rw [take_append_of_le_length (by omega), take_take, Nat.min_eq_left (by omega)]

theorem readScalar_plain (h : isPlainText text = true)
    (hlast : ∀ c ∈ text.getLast?, isSpace c = false) (version : Yaml.Version) :
    Yaml.readScalar version text = some (Yaml.resolve version text) := by
  have hunits := plainUnit_of_mem h
  have hnot : ∀ d : CodeUnit, isPlainUnit d = false → d ∉ text := by
    intro d hd hmem
    rw [hunits d hmem] at hd
    cases hd
  have hline : Yaml.isPlainLine text = true := by
    have hall : text.all (Yaml.isPrintable .v11) = true :=
      all_eq_true.mpr fun c hc => (plainUnit_facts (hunits c hc)).1
    have hend : text.getLast?.any (fun c => c = 32 || c = 9 || c = 58) = false := by
      cases hlast' : text.getLast? with
      | none => rfl
      | some c =>
        have hspace := hlast c hlast'
        have hne : ∀ d : CodeUnit, isSpace d = true → c ≠ d := by
          rintro d hd rfl
          rw [hd] at hspace
          cases hspace
        have hcolon := (plainUnit_facts (hunits c (List.mem_of_getLast? hlast'))).2.1
        simp [hne 32 (by decide), hne 9 (by decide), hcolon]
    have hkey : ¬ [58, 32] <:+: text := fun hin =>
      hnot 58 (by decide) (hin.subset mem_cons_self)
    have hcomment : ¬ [32, 35] <:+: text := fun hin =>
      hnot 35 (by decide) (hin.subset (mem_cons_of_mem _ mem_cons_self))
    simp [Yaml.isPlainLine, hall, hend, hkey, hcomment]
  cases text with
  | nil => cases h
  | cons c rest =>
    have halnum := h
    rw [isPlainText, Bool.and_eq_true] at halnum
    obtain ⟨hquote, hindicator, hspace, htab⟩ :=
      alnum_facts (hunits c mem_cons_self) halnum.1
    unfold Yaml.readScalar
    dsimp only
    rw [if_neg hquote, hindicator, decide_eq_false hspace, decide_eq_false htab, if_pos hline]
    rfl

theorem words_plain_iff (h : (isPlainText text && !isReserved text) = true) :
    (∀ version, (Yaml.words version).contains text = false) ↔
      text ∉ ["y", "Y", "n", "N"].map ascii := by
  have hall (version : Yaml.Version) : ∀ w ∈ Yaml.words version,
      (isPlainText w && !isReserved w) = true → w ∈ ["y", "Y", "n", "N"].map ascii := by
    cases version <;> exact Js.forall_mem_of_all (by decide)
  have hsub : ∀ w ∈ ["y", "Y", "n", "N"].map ascii, w ∈ Yaml.words .v11 :=
    Js.forall_mem_of_all (by decide)
  constructor
  · intro hwords hmem
    have hcontains := hwords .v11
    rw [contains_iff_mem.mpr (hsub text hmem)] at hcontains
    cases hcontains
  · intro hnot version
    by_contra hcontains
    rw [Bool.not_eq_false, contains_iff_mem] at hcontains
    exact hnot (hall version text hcontains h)

theorem scalar_read_iff (value : Text) (maxLength : Nat) :
    (∀ version, Yaml.readScalar version (yamlScalar value maxLength) =
      some (.str (singleLine value maxLength))) ↔ KeepsType (singleLine value maxLength) := by
  have hshown := singleLine_shown value maxLength
  have hlast := singleLine_last value maxLength
  unfold yamlScalar
  dsimp only
  generalize singleLine value maxLength = text at hshown hlast
  by_cases hplain : (isPlainText text && !isReserved text) = true
  · rw [if_pos hplain]
    have hread := readScalar_plain (Bool.and_eq_true_iff.mp hplain).1 hlast
    have hresolve (version : Yaml.Version) : Yaml.readScalar version text = some (.str text) ↔
        (Yaml.words version).contains text = false ∧ Yaml.isNumber version text = false ∧
          Yaml.isTime version text = false := by
      rw [hread, Option.some.injEq, Yaml.resolve]
      cases (Yaml.words version).contains text <;> cases Yaml.isNumber version text <;>
        cases Yaml.isTime version text <;> simp
    constructor
    · intro h
      refine ⟨fun c hc => ?_, fun _ => ⟨?_, fun version => ((hresolve version).mp (h version)).2⟩⟩
      · have hfacts := plainUnit_facts (plainUnit_of_mem (Bool.and_eq_true_iff.mp hplain).1 c hc)
        exact hfacts.2.2.2
      · exact (words_plain_iff hplain).mp fun version => ((hresolve version).mp (h version)).1
    · intro h version
      obtain ⟨hwords, htypes⟩ := h.plain hplain
      exact (hresolve version).mpr ⟨(words_plain_iff hplain).mpr hwords version, htypes version⟩
  · rw [if_neg hplain]
    have hread (version : Yaml.Version) :
        Yaml.readScalar version (Yaml.stringify text) = some (.str text) ↔
          ∀ c ∈ text, Yaml.isReadable version c = true := by
      rw [Yaml.readScalar_stringify, ← all_eq_true]
      cases text.all (Yaml.isReadable version) <;> simp
    have hall : (∀ version, ∀ c ∈ text, Yaml.isReadable version c = true) ↔
        ∀ c ∈ text, c ≠ 0xfffe ∧ c ≠ 0xffff := by
      constructor
      · exact fun h c hc => (readable_iff (hshown c hc)).mp fun version => h version c hc
      · exact fun h version c hc => (readable_iff (hshown c hc)).mpr (h c hc) version
    constructor
    · intro h
      exact ⟨hall.mp fun version => (hread version).mp (h version), fun hp => absurd hp hplain⟩
    · intro h version
      exact (hread version).mpr (hall.mpr h.characters version)

end Scalars

end Almyty.Security.UntrustedText
