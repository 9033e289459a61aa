import Almyty.Lib.Lines
import Almyty.Security.LinearText

/-!
# What a tool argument is checked for: `common/security/input-sanitizer.ts`

A pattern that asks for one thing and, later on the line, for another is tried again from every
place the one stands at. The checks look only from the first: what stands after a later one stands
after the first too. `hasShellCommand_agrees`, `hasOnOneLine_agrees` and `hasDoctypeSystem_agrees`
say that they answer as the patterns they are documented by.

Mirroring notes:
- `toLowerCase` is the runtime's. What is used of it is `LowerCases`: an ASCII unit becomes its
  small letter, any other becomes units of which none is ASCII but an `i` (of `İ`) or a `k` (of the
  Kelvin sign).
-/

namespace Almyty.Security

open Almyty.Lib List
open Almyty.Common (Text CodeUnit ascii isLineTerminator isDot)

def foldCase (c : CodeUnit) : CodeUnit := if 65 ≤ c ∧ c ≤ 90 then c + 32 else c

/-- `\w`. -/
def isWordUnit (c : CodeUnit) : Bool :=
  (97 ≤ c && c ≤ 122) || (65 ≤ c && c ≤ 90) || c = 95 || (48 ≤ c && c ≤ 57)

def letters (text : String) : Regex CodeUnit :=
  .sequence ((ascii text).map fun x => .unit fun c => foldCase c = foldCase x)

def includes (text pattern : Text) : Bool := (indexOf text pattern 0).isSome

/-- `value.split(LINE_BREAK)`. -/
def linesOf (value : Text) : List Text := value.splitOnP isLineTerminator

/-! ## Shell commands -/

/-- `[;&|`$]`. -/
def isShellMeta (c : CodeUnit) : Bool := (ascii ";&|`$").contains c

def SHELL_COMMANDS : List String :=
  ["rm", "curl", "wget", "nc", "ncat", "bash", "sh", "python", "perl", "ruby", "php"]

/-- `(?:rm|curl|…|php)`, under `/i`. -/
def SHELL_COMMAND : Regex CodeUnit := .anyOf (SHELL_COMMANDS.map letters)

/-- The match ends at `\b`. -/
def beforeBoundary (value : Text) (_ : Nat) (rest : Text) : Bool :=
  Regex.atBoundary isWordUnit value rest

def hasCommandOnLine (line : Text) : Bool :=
  match line.findIdx? isShellMeta with
  | none => false
  | some at' =>
    let after := line.drop (at' + 1)
    SHELL_COMMAND.testWhere (beforeBoundary after) after

def hasShellCommand (value : Text) : Bool := (linesOf value).any hasCommandOnLine

/-- `[;&|`$].*(?:rm|curl|…|php)`, under `/i`. -/
def shellCommand : Regex CodeUnit :=
  .sequence [.unit isShellMeta, .many true 0 isDot, SHELL_COMMAND]

/-! ## Openers and closers -/

def hasOnLine (opener closer line : Text) : Bool :=
  match indexOf line opener 0 with
  | none => false
  | some start => (indexOf line closer (start + opener.length)).isSome

def hasOnOneLine (value opener closer : Text) : Bool :=
  (linesOf value).any (hasOnLine opener closer)

/-- `/<open>.*<close>/`. -/
def onOneLine (opener closer : Text) : Regex CodeUnit :=
  .sequence [.text opener, .many true 0 isDot, .text closer]

/-! ## Document types -/

def doctypeSystemFrom (lower : Text) : Nat → Nat → Bool
  | 0, _ => false
  | fuel + 1, at' =>
    match indexOf lower (ascii "<!doctype") at' with
    | none => false
    | some start =>
      match indexOf lower (ascii ">") (start + 9) with
      | none => includes (lower.drop (start + 9)) (ascii "system")
      | some gt =>
        if includes (Regex.slice lower (start + 9) gt) (ascii "system") then true
        else doctypeSystemFrom lower fuel (gt + 1)

def hasDoctypeSystem (toLowerCase : Text → Text) (value : Text) : Bool :=
  let lower := toLowerCase value
  doctypeSystemFrom lower (lower.length + 1) 0

/-- `/<!DOCTYPE[^>]*SYSTEM/i`. -/
def doctypeSystem : Regex CodeUnit :=
  .sequence [letters "<!DOCTYPE", .many true 0 (· ≠ 62), letters "SYSTEM"]

inductive Lowers : Text → Text → Prop
  | nil : Lowers [] []
  | ascii {c : CodeUnit} {s t : Text} : c < 128 → Lowers s t → Lowers (c :: s) (foldCase c :: t)
  | other {c : CodeUnit} {piece s t : Text} : 128 ≤ c → piece ≠ [] →
      (∀ d ∈ piece, 128 ≤ d ∨ d = 105 ∨ d = 107) → Lowers s t → Lowers (c :: s) (piece ++ t)

def LowerCases (toLowerCase : Text → Text) : Prop := ∀ s, Lowers s (toLowerCase s)

/-! ## Units and letters -/

variable {c : CodeUnit}

theorem foldCase_of_letter (h : 65 ≤ c ∧ c ≤ 90) :
    foldCase c = c + 32 ∧ 97 ≤ c + 32 ∧ c + 32 ≤ 122 := by
  obtain ⟨hlow, hhigh⟩ := h
  refine ⟨if_pos ⟨hlow, hhigh⟩, ?_, ?_⟩ <;> rw [UInt16.le_iff_toNat_le] at * <;> simp at * <;> omega

theorem isWordUnit_foldCase (c : CodeUnit) : isWordUnit (foldCase c) = isWordUnit c := by
  by_cases h : 65 ≤ c ∧ c ≤ 90
  · obtain ⟨hfold, hlow, hhigh⟩ := foldCase_of_letter h
    simp [isWordUnit, hfold, hlow, hhigh, h.1, h.2]
  · rw [foldCase, if_neg h]

theorem not_isLineTerminator (hlow : 14 ≤ c) (hhigh : c < 128) : isLineTerminator c = false := by
  rw [isLineTerminator, contains_eq_mem, decide_eq_false_iff_not]
  intro h
  simp only [mem_cons, not_mem_nil, or_false] at h
  rcases h with rfl | rfl | rfl | rfl
  · exact absurd hlow (by decide)
  · exact absurd hlow (by decide)
  · exact absurd hhigh (by decide)
  · exact absurd hhigh (by decide)

theorem isLineTerminator_foldCase (c : CodeUnit) :
    isLineTerminator (foldCase c) = isLineTerminator c := by
  by_cases h : 65 ≤ c ∧ c ≤ 90
  · obtain ⟨hfold, hlow, hhigh⟩ := foldCase_of_letter h
    rw [hfold, not_isLineTerminator, not_isLineTerminator]
    all_goals
      rw [UInt16.le_iff_toNat_le] at *
      simp only [UInt16.lt_iff_toNat_lt, UInt16.le_iff_toNat_le] at *
      simp at *
      omega
  · rw [foldCase, if_neg h]

theorem leaves_letters (text : String) (s rest : Text) :
    (letters text).Leaves s rest ↔
      ∃ word, s = word ++ rest ∧ word.map foldCase = (ascii text).map foldCase := by
  rw [letters]
  induction ascii text generalizing s with
  | nil => simp
  | cons x xs ih =>
    rw [map_cons, Regex.leaves_sequence_cons]
    constructor
    · intro h
      obtain ⟨s', ⟨c, rfl, hc⟩, hrest⟩ := h
      obtain ⟨word, rfl, hword⟩ := (ih s').mp hrest
      exact ⟨c :: word, rfl, by simpa [hword] using hc⟩
    · intro h
      obtain ⟨word, rfl, hword⟩ := h
      cases word with
      | nil => simp at hword
      | cons c word =>
        obtain ⟨hc, hword⟩ := cons_eq_cons.mp hword
        exact ⟨word ++ rest, ⟨c, rfl, by simpa using hc⟩, (ih _).mpr ⟨word, rfl, hword⟩⟩

theorem indexOf_isSome_iff {value pattern : Text} {at' : Nat} :
    (indexOf value pattern at').isSome = true ↔
      ∃ i, at' ≤ i ∧ i ≤ value.length ∧ pattern <+: value.drop i := by
  rw [indexOf, List.find?_isSome]
  constructor
  · intro h
    obtain ⟨i, hi, hbegins⟩ := h
    rw [mem_range'_1] at hi
    exact ⟨i, hi.1, by omega, startsWith_iff.mp hbegins⟩
  · intro h
    obtain ⟨i, hat, hle, hbegins⟩ := h
    exact ⟨i, by rw [mem_range'_1]; omega, startsWith_iff.mpr hbegins⟩

theorem includes_iff {text pattern : Text} : includes text pattern = true ↔ pattern <:+: text := by
  rw [includes, indexOf_isSome_iff]
  constructor
  · intro h
    obtain ⟨i, -, -, hbegins⟩ := h
    exact hbegins.isInfix.trans (drop_suffix i text).isInfix
  · intro h
    obtain ⟨a, b, rfl⟩ := h
    refine ⟨a.length, Nat.zero_le _, by simp, ?_⟩
    rw [append_assoc, drop_left]
    exact prefix_append pattern b

/-! ## A command on a line -/

/-- A text that `SHELL_COMMAND` matches. -/
def IsCommand (word : Text) : Prop :=
  ∃ name ∈ SHELL_COMMANDS, word.map foldCase = (ascii name).map foldCase

theorem leaves_SHELL_COMMAND (s rest : Text) :
    SHELL_COMMAND.Leaves s rest ↔ ∃ word, s = word ++ rest ∧ IsCommand word := by
  rw [SHELL_COMMAND, Regex.leaves_anyOf]
  constructor
  · intro h
    obtain ⟨r, hr, hleaves⟩ := h
    obtain ⟨name, hname, rfl⟩ := mem_map.mp hr
    obtain ⟨word, hs, hword⟩ := (leaves_letters name s rest).mp hleaves
    exact ⟨word, hs, name, hname, hword⟩
  · intro h
    obtain ⟨word, hs, name, hname, hword⟩ := h
    exact ⟨_, mem_map_of_mem hname, (leaves_letters name s rest).mpr ⟨word, hs, hword⟩⟩

theorem IsCommand.ends {word : Text} (h : IsCommand word) :
    ∃ front c, word = front ++ [c] ∧ isWordUnit c = true := by
  obtain ⟨name, hname, hword⟩ := h
  have hlast : ∀ name ∈ SHELL_COMMANDS,
      ((ascii name).map foldCase).getLast?.any isWordUnit = true := by decide
  have hends := hlast name hname
  rw [← hword, List.getLast?_map, Option.any_map] at hends
  rcases eq_nil_or_concat' word with rfl | ⟨front, c, rfl⟩
  · cases hends
  · refine ⟨front, c, rfl, ?_⟩
    rwa [List.getLast?_concat, Option.any_some, isWordUnit_foldCase] at hends

theorem IsCommand.clean {word : Text} (h : IsCommand word) :
    ∀ c ∈ word, isLineTerminator c = false := by
  obtain ⟨name, hname, hword⟩ := h
  have hclean : ∀ name ∈ SHELL_COMMANDS,
      ((ascii name).map foldCase).all (!isLineTerminator ·) = true := by decide
  have hall := all_eq_true.mp (hclean name hname)
  intro c hc
  have hfold := hall (foldCase c) (hword ▸ mem_map_of_mem hc)
  simpa [isLineTerminator_foldCase] using hfold

theorem beforeBoundary_iff (before : Text) {word rest : Text} (i : Nat) (h : IsCommand word) :
    beforeBoundary (before ++ word ++ rest) i rest = true ↔ rest.head?.any isWordUnit = false := by
  obtain ⟨front, c, rfl, hc⟩ := h.ends
  rw [beforeBoundary, ← append_assoc, Regex.atBoundary_after _ _ hc, Bool.not_eq_true']

theorem command_iff {after : Text} :
    SHELL_COMMAND.testWhere (beforeBoundary after) after = true ↔
      ∃ before word rest, after = before ++ word ++ rest ∧ IsCommand word ∧
        rest.head?.any isWordUnit = false := by
  rw [Regex.testWhere_iff]
  constructor
  · intro h
    obtain ⟨before, _, rest, rfl, hleaves, hgood⟩ := h
    obtain ⟨word, rfl, hword⟩ := (leaves_SHELL_COMMAND _ rest).mp hleaves
    rw [← append_assoc] at hgood ⊢
    exact ⟨before, word, rest, rfl, hword, (beforeBoundary_iff _ _ hword).mp hgood⟩
  · intro h
    obtain ⟨before, word, rest, rfl, hword, hrest⟩ := h
    exact ⟨before, word ++ rest, rest, append_assoc _ _ _,
      (leaves_SHELL_COMMAND _ rest).mpr ⟨word, rfl, hword⟩,
      (beforeBoundary_iff _ _ hword).mpr hrest⟩

theorem shellCommand_iff {value : Text} :
    shellCommand.testWhere (beforeBoundary value) value = true ↔
      ∃ before at' body word rest, value = before ++ (at' :: body ++ word) ++ rest ∧
        isShellMeta at' = true ∧ (∀ c ∈ body, isDot c = true) ∧ IsCommand word ∧
        rest.head?.any isWordUnit = false := by
  rw [Regex.testWhere_iff]
  constructor
  · intro h
    obtain ⟨before, _, _, rfl, ⟨_, ⟨at', rfl, hmeta⟩, _, ⟨body, rfl, -, hbody⟩, rest, hleaves, rfl⟩,
      hgood⟩ := h
    obtain ⟨word, rfl, hword⟩ := (leaves_SHELL_COMMAND _ _).mp hleaves
    refine ⟨before, at', body, word, rest, by simp, hmeta, hbody, hword, ?_⟩
    refine (beforeBoundary_iff (before ++ at' :: body) before.length hword).mp ?_
    simpa using hgood
  · intro h
    obtain ⟨before, at', body, word, rest, rfl, hmeta, hbody, hword, hrest⟩ := h
    refine ⟨before, at' :: body ++ word ++ rest, rest, by simp, ?_, ?_⟩
    · exact ⟨_, ⟨at', rfl, hmeta⟩, _, ⟨body, append_assoc _ _ _, Nat.zero_le _, hbody⟩, rest,
        (leaves_SHELL_COMMAND _ _).mpr ⟨word, rfl, hword⟩, rfl⟩
    · have hgood := (beforeBoundary_iff (before ++ at' :: body) before.length hword).mpr hrest
      simpa using hgood

theorem isDot_iff : isDot c = true ↔ isLineTerminator c = false := by
  rw [isDot, Bool.not_eq_true']

theorem isShellMeta_clean (h : isShellMeta c = true) : isLineTerminator c = false := by
  have hclean : (ascii ";&|`$").all (!isLineTerminator ·) = true := by decide
  simpa using all_eq_true.mp hclean c (contains_iff_mem.mp h)

theorem not_isWordUnit (h : isLineTerminator c = true) : isWordUnit c = false := by
  have hnone : [0x0a, 0x0d, 0x2028, 0x2029].all (!isWordUnit ·) = true := by decide
  simpa using all_eq_true.mp hnone c (contains_iff_mem.mp h)

theorem hasShellCommand_agrees (value : Text) :
    hasShellCommand value = shellCommand.testWhere (beforeBoundary value) value := by
  rw [Bool.eq_iff_iff, shellCommand_iff, hasShellCommand, any_eq_true]
  constructor
  · intro h
    obtain ⟨piece, hline, hfound⟩ := h
    obtain ⟨a, b, rfl, hclean, -, hb⟩ := mem_lines_iff.mp hline
    rw [hasCommandOnLine] at hfound
    cases hat : piece.findIdx? isShellMeta with
    | none =>
      rw [hat] at hfound
      cases hfound
    | some i =>
      rw [hat] at hfound
      obtain ⟨before, word, rest, hafter, hword, hrest⟩ := command_iff.mp hfound
      obtain ⟨hi, hmeta, -⟩ := List.findIdx?_eq_some_iff_getElem.mp hat
      have hparts : piece = piece.take i ++ (piece[i] :: before ++ word) ++ rest := by
        conv_lhs => rw [← take_append_drop i piece, drop_eq_getElem_cons hi, hafter]
        simp
      have hbody : ∀ c ∈ before, isDot c = true := by
        intro c hc
        refine isDot_iff.mpr (hclean c (mem_of_mem_drop (i := i + 1) ?_))
        rw [hafter]
        simp [hc]
      refine ⟨a ++ piece.take i, piece[i], before, word, rest ++ b, ?_, hmeta, hbody, hword, ?_⟩
      · conv_lhs => rw [hparts]
        simp
      · -- after the line comes nothing, or a piece break
        cases rest with
        | cons c rest => simpa using hrest
        | nil =>
          cases b with
          | nil => rfl
          | cons c b => exact not_isWordUnit (by simpa using hb)
  · intro h
    obtain ⟨a, at', body, word, b, rfl, hmeta, hbody, hword, hb⟩ := h
    have hclean : ∀ c ∈ at' :: body ++ word, isLineTerminator c = false := by
      intro c hc
      rcases mem_append.mp hc with hc | hc
      · rcases mem_cons.mp hc with rfl | hc
        · exact isShellMeta_clean hmeta
        · exact isDot_iff.mp (hbody c hc)
      · exact hword.clean c hc
    obtain ⟨front, -, hline⟩ := exists_line_of_stretch a b hclean
    refine ⟨_, hline, ?_⟩
    rw [hasCommandOnLine]
    -- the first of `[;&|`$]` is not after this one
    cases hat : (front ++ (at' :: body ++ word) ++
        b.takeWhile (!isLineTerminator ·)).findIdx? isShellMeta with
    | none =>
      have hnot := List.findIdx?_eq_none_iff.mp hat at' (by simp)
      rw [hmeta] at hnot
      cases hnot
    | some i =>
      obtain ⟨hi, -, hfirst⟩ := List.findIdx?_eq_some_iff_getElem.mp hat
      have hle : i ≤ front.length := by
        by_contra hgt
        refine hfirst front.length (by omega) ?_
        simpa using hmeta
      refine command_iff.mpr ⟨(front ++ at' :: body).drop (i + 1), word,
        b.takeWhile (!isLineTerminator ·), ?_, hword, ?_⟩
      · have hsplit : front ++ (at' :: body ++ word) ++ b.takeWhile (!isLineTerminator ·) =
            (front ++ at' :: body) ++ (word ++ b.takeWhile (!isLineTerminator ·)) := by simp
        rw [hsplit, drop_append_of_le_length (by simp; omega), append_assoc]
      · cases b with
        | nil => rfl
        | cons c b =>
          by_cases hc : isLineTerminator c = true
          · simp [hc]
          · rw [takeWhile_cons_of_pos (by simpa using hc)]
            simpa using hb

/-! ## An opener and a closer on a piece -/

theorem onOneLine_iff {value opener closer : Text} :
    (onOneLine opener closer).test value = true ↔
      ∃ body, (∀ c ∈ body, isDot c = true) ∧ opener ++ body ++ closer <:+: value := by
  rw [Regex.test_iff]
  constructor
  · intro h
    obtain ⟨before, _, _, rfl, s₁, hopen, s₂, ⟨body, rfl, -, hbody⟩, rest, hclose, rfl⟩ := h
    rw [Regex.leaves_text] at hopen hclose
    subst hopen hclose
    exact ⟨body, hbody, before, rest, by simp⟩
  · intro h
    obtain ⟨body, hbody, before, rest, rfl⟩ := h
    refine ⟨before, opener ++ (body ++ (closer ++ rest)), rest, by simp, _,
      (Regex.leaves_text _ _ _).mpr rfl, _, ⟨body, rfl, Nat.zero_le _, hbody⟩, rest,
      (Regex.leaves_text _ _ _).mpr rfl, rfl⟩

theorem hasOnLine_iff {opener closer line : Text} :
    hasOnLine opener closer line = true ↔ ∃ body, opener ++ body ++ closer <:+: line := by
  rw [hasOnLine]
  constructor
  · intro h
    cases hopen : indexOf line opener 0 with
    | none =>
      rw [hopen] at h
      cases h
    | some start =>
      rw [hopen] at h
      obtain ⟨-, hstart, -⟩ := indexOf_some hopen
      obtain ⟨i, hi, -, b, hb⟩ := indexOf_isSome_iff.mp h
      obtain ⟨after, hafter⟩ := hstart
      have hrest : after.drop (i - (start + opener.length)) = line.drop i := by
        have hdrop : line.drop (start + opener.length) = after := by
          rw [← drop_drop, ← hafter, drop_left]
        rw [← hdrop, drop_drop]
        congr 1
        omega
      refine ⟨after.take (i - (start + opener.length)), ?_⟩
      refine List.IsInfix.trans ?_ (drop_suffix start line).isInfix
      refine List.IsPrefix.isInfix ⟨b, ?_⟩
      rw [append_assoc, append_assoc, hb, ← hrest, take_append_drop, hafter]
  · intro h
    obtain ⟨body, a, b, rfl⟩ := h
    have hhere : opener <+: (a ++ (opener ++ body ++ closer) ++ b).drop a.length := by
      rw [append_assoc, drop_left, append_assoc, append_assoc]
      exact prefix_append _ _
    cases hopen : indexOf (a ++ (opener ++ body ++ closer) ++ b) opener 0 with
    | none =>
      have hsome := indexOf_isSome_iff.mpr ⟨a.length, Nat.zero_le _, by simp, hhere⟩
      rw [hopen] at hsome
      cases hsome
    | some start =>
      obtain ⟨-, -, hfirst⟩ := indexOf_some hopen
      have hle : start ≤ a.length := by
        by_contra hgt
        exact hfirst a.length (Nat.zero_le _) (by omega) hhere
      refine indexOf_isSome_iff.mpr ⟨(a ++ opener ++ body).length, ?_, ?_, ?_⟩
      · simp only [length_append]
        omega
      · simp only [length_append]
        omega
      · have hparts : a ++ (opener ++ body ++ closer) ++ b =
            (a ++ opener ++ body) ++ (closer ++ b) := by simp
        rw [hparts, drop_left]
        exact prefix_append _ _

theorem hasOnOneLine_agrees (value : Text) {opener closer : Text}
    (hopen : ∀ c ∈ opener, isLineTerminator c = false)
    (hclose : ∀ c ∈ closer, isLineTerminator c = false) :
    hasOnOneLine value opener closer = (onOneLine opener closer).test value := by
  rw [Bool.eq_iff_iff, onOneLine_iff, hasOnOneLine, any_eq_true]
  constructor
  · intro h
    obtain ⟨line, hline, hfound⟩ := h
    obtain ⟨body, hbody⟩ := hasOnLine_iff.mp hfound
    obtain ⟨hinner, hclean⟩ := exists_line_infix_iff.mp ⟨line, hline, hbody⟩
    exact ⟨body, fun c hc => isDot_iff.mpr (hclean c (by simp [hc])), hinner⟩
  · intro h
    obtain ⟨body, hbody, hinner⟩ := h
    have hclean : ∀ c ∈ opener ++ body ++ closer, isLineTerminator c = false := by
      intro c hc
      simp only [mem_append] at hc
      rcases hc with (hc | hc) | hc
      · exact hopen c hc
      · exact isDot_iff.mp (hbody c hc)
      · exact hclose c hc
    obtain ⟨line, hline, hfound⟩ := exists_line_infix_iff.mpr ⟨hinner, hclean⟩
    exact ⟨line, hline, hasOnLine_iff.mpr ⟨body, hfound⟩⟩

/-! ## A declaration with a system identifier -/

/-- A declaration begins at an index, and `system` is in it before the next `>`. -/
def DeclaredAt (lower : Text) (i : Nat) : Prop :=
  ascii "<!doctype" <+: lower.drop i ∧ ascii "system" <:+: (lower.drop (i + 9)).takeWhile (· ≠ 62)

theorem takeWhile_drop_suffix {text : Text} {stop : CodeUnit} {i j : Nat} (hij : i ≤ j)
    (hnone : ∀ k, i ≤ k → k < j → text[k]? ≠ some stop) :
    (text.drop j).takeWhile (· ≠ stop) <:+ (text.drop i).takeWhile (· ≠ stop) := by
  obtain ⟨n, rfl⟩ := Nat.exists_eq_add_of_le hij
  induction n generalizing i with
  | zero => exact suffix_refl _
  | succ n ih =>
    rcases Nat.lt_or_ge i text.length with hlt | hge
    · have hne : text[i] ≠ stop := by
        have hnot := hnone i (Nat.le_refl i) (by omega)
        rwa [List.getElem?_eq_getElem hlt, Ne, Option.some.injEq] at hnot
      have hshift : i + (n + 1) = i + 1 + n := by omega
      rw [hshift, drop_eq_getElem_cons hlt, takeWhile_cons_of_pos (by simpa using hne)]
      refine (ih (by omega) fun k hk hlt' => ?_).trans (suffix_cons _ _)
      exact hnone k (by omega) (by omega)
    · rw [drop_eq_nil_of_le (by omega : text.length ≤ i + (n + 1))]
      exact nil_suffix

variable {lower : Text}

theorem declaredAt_later {start i : Nat} (hi : start ≤ i)
    (hnone : ∀ k, start + 9 ≤ k → k < i + 9 → lower[k]? ≠ some 62) (h : DeclaredAt lower i) :
    ascii "system" <:+: (lower.drop (start + 9)).takeWhile (· ≠ 62) :=
  h.2.trans (takeWhile_drop_suffix (by omega) hnone).isInfix

theorem not_declaredAt_over {i gt : Nat} (hgt : lower[gt]? = some 62) (hle : i ≤ gt)
    (hlt : gt < i + 9) : ¬DeclaredAt lower i := by
  intro h
  obtain ⟨rest, hrest⟩ := h.1
  have hlen : (ascii "<!doctype").length = 9 := rfl
  have hget : (lower.drop i)[gt - i]? = some 62 := by
    rw [List.getElem?_drop, Nat.add_sub_cancel' hle, hgt]
  rw [← hrest, List.getElem?_append_left (by omega)] at hget
  have hnone : (ascii "<!doctype").contains 62 = false := by decide
  rw [contains_iff_mem.mpr (List.mem_of_getElem? hget)] at hnone
  cases hnone

theorem doctypeSystemFrom_iff {fuel at' : Nat} (hfuel : lower.length + 1 ≤ fuel + at') :
    doctypeSystemFrom lower fuel at' = true ↔ ∃ i, at' ≤ i ∧ DeclaredAt lower i := by
  induction fuel generalizing at' with
  | zero =>
    refine iff_of_false (by simp [doctypeSystemFrom]) ?_
    rintro ⟨i, hi, hbegins, -⟩
    rw [drop_eq_nil_of_le (by omega)] at hbegins
    simp [ascii] at hbegins
  | succ fuel ih =>
    rw [doctypeSystemFrom]
    cases hopen : indexOf lower (ascii "<!doctype") at' with
    | none =>
      refine iff_of_false Bool.false_ne_true ?_
      rintro ⟨i, hi, hbegins, -⟩
      exact indexOf_none (by decide) hopen hi hbegins
    | some start =>
      obtain ⟨hat, hstart, hearlier⟩ := indexOf_some hopen
      have hfrom {i : Nat} (hi : at' ≤ i) (h : DeclaredAt lower i) : start ≤ i := by
        by_contra hlt
        exact hearlier i hi (by omega) h.1
      dsimp only
      cases hclose : indexOf lower (ascii ">") (start + 9) with
      | none =>
        have hnone (k : Nat) (hk : start + 9 ≤ k) : lower[k]? ≠ some 62 := fun h =>
          indexOf_none (by decide) hclose hk (singleton_prefix_drop.mpr h)
        have hall : (lower.drop (start + 9)).takeWhile (· ≠ 62) = lower.drop (start + 9) := by
          rw [takeWhile_eq_self_iff]
          intro c hc
          obtain ⟨n, hn⟩ := List.getElem?_of_mem hc
          rw [List.getElem?_drop] at hn
          have hne := hnone (start + 9 + n) (by omega)
          rw [hn] at hne
          simpa using hne
        rw [includes_iff, ← hall]
        constructor
        · intro h
          exact ⟨start, hat, hstart, h⟩
        · rintro ⟨i, hi, h⟩
          exact declaredAt_later (hfrom hi h) (fun k hk _ => hnone k hk) h
      | some gt =>
        obtain ⟨hle, hgt, hbefore⟩ := indexOf_some hclose
        have hgt' : lower[gt]? = some 62 := singleton_prefix_drop.mp hgt
        have hnone (k : Nat) (hk : start + 9 ≤ k) (hlt : k < gt) : lower[k]? ≠ some 62 := fun h =>
          hbefore k hk hlt (singleton_prefix_drop.mpr h)
        have hbody := takeWhile_stop hle hgt' hnone
        dsimp only
        by_cases hin : includes (Regex.slice lower (start + 9) gt) (ascii "system") = true
        · rw [if_pos hin]
          refine iff_of_true rfl ⟨start, hat, hstart, ?_⟩
          rw [hbody]
          exact includes_iff.mp hin
        · rw [if_neg hin, ih (by omega)]
          constructor
          · rintro ⟨i, hi, h⟩
            exact ⟨i, by omega, h⟩
          · rintro ⟨i, hi, h⟩
            refine ⟨i, ?_, h⟩
            by_contra hlt
            rcases Nat.lt_or_ge gt (i + 9) with hover | hwithin
            · exact not_declaredAt_over hgt' (by omega) hover h
            · refine hin (includes_iff.mpr ?_)
              rw [← hbody]
              exact declaredAt_later (hfrom hi h) (fun k hk hk' => hnone k hk (by omega)) h

theorem exists_declaredAt_iff :
    (∃ i, 0 ≤ i ∧ DeclaredAt lower i) ↔
      ∃ before body rest,
        lower = before ++ (ascii "<!doctype" ++ (body ++ (ascii "system" ++ rest))) ∧
          62 ∉ body := by
  constructor
  · rintro ⟨i, -, ⟨after, hafter⟩, x, y, hxy⟩
    have hdrop : lower.drop (i + 9) = after := by
      rw [← drop_drop, ← hafter]
      exact @List.drop_left _ (ascii "<!doctype") _
    rw [hdrop] at hxy
    refine ⟨lower.take i, x, y ++ after.dropWhile (· ≠ 62), ?_, ?_⟩
    · have hparts : after = x ++ (ascii "system" ++ (y ++ after.dropWhile (· ≠ 62))) := by
        conv_lhs => rw [← takeWhile_append_dropWhile (p := (· ≠ 62)) (l := after), ← hxy]
        simp
      rw [← hparts, hafter, take_append_drop]
    · intro hmem
      have hin : (62 : CodeUnit) ∈ after.takeWhile (· ≠ 62) := hxy ▸ by simp [hmem]
      simpa using mem_takeWhile_imp hin
  · rintro ⟨before, body, rest, rfl, hbody⟩
    refine ⟨before.length, Nat.zero_le _, ?_, ?_⟩
    · rw [drop_left]
      exact prefix_append _ _
    · have hdrop : (before ++ (ascii "<!doctype" ++ (body ++ (ascii "system" ++ rest)))).drop
          (before.length + 9) = body ++ (ascii "system" ++ rest) := by
        rw [← drop_drop, drop_left]
        exact @List.drop_left _ (ascii "<!doctype") _
      have hclean : ∀ c ∈ body ++ ascii "system", decide (c ≠ 62) = true := by
        intro c hc
        rcases mem_append.mp hc with hc | hc
        · exact decide_eq_true fun h => hbody (h ▸ hc)
        · exact all_eq_true.mp (by decide : (ascii "system").all (· ≠ 62) = true) c hc
      rw [hdrop, ← append_assoc, takeWhile_append_of_pos hclean, append_assoc]
      exact ⟨body, rest.takeWhile (· ≠ 62), by simp⟩

theorem doctypeSystem_iff {value : Text} :
    doctypeSystem.test value = true ↔
      ∃ before opener body word rest, value = before ++ (opener ++ (body ++ (word ++ rest))) ∧
        opener.map foldCase = ascii "<!doctype" ∧ 62 ∉ body ∧
        word.map foldCase = ascii "system" := by
  rw [Regex.test_iff]
  constructor
  · rintro ⟨before, _, _, rfl, s₁, hfirst, s₂, ⟨body, rfl, -, hbody⟩, rest, hlast, rfl⟩
    obtain ⟨opener, rfl, hopen⟩ := (leaves_letters _ _ _).mp hfirst
    obtain ⟨word, rfl, hword⟩ := (leaves_letters _ _ _).mp hlast
    clear hfirst hlast
    refine ⟨before, opener, body, word, rest, rfl, hopen.trans (by decide), ?_,
      hword.trans (by decide)⟩
    intro hmem
    simpa using hbody 62 hmem
  · rintro ⟨before, opener, body, word, rest, rfl, hopen, hbody, hword⟩
    refine ⟨before, _, rest, rfl, _, (leaves_letters _ _ _).mpr ⟨opener, rfl, ?_⟩, _,
      ⟨body, rfl, Nat.zero_le _, ?_⟩, rest, (leaves_letters _ _ _).mpr ⟨word, rfl, ?_⟩, rfl⟩
    · exact hopen.trans (by decide)
    · exact fun c hc => decide_eq_true fun h => hbody (h ▸ hc)
    · exact hword.trans (by decide)

/-! ## In lower case -/

/-- A unit that only its own cases become. -/
def IsPlain (x : CodeUnit) : Prop := x < 128 ∧ x ≠ 105 ∧ x ≠ 107

instance (x : CodeUnit) : Decidable (IsPlain x) := inferInstanceAs (Decidable (_ ∧ _))

theorem not_plain_of_other {d x : CodeUnit} (h : 128 ≤ d ∨ d = 105 ∨ d = 107) (hx : IsPlain x) :
    d ≠ x := by
  rintro rfl
  rcases h with h | rfl | rfl
  · exact absurd hx.1 (UInt16.not_lt.mpr h)
  · exact hx.2.1 rfl
  · exact hx.2.2 rfl

theorem Lowers.of_append {s s' t : Text} (h : Lowers (s ++ s') t) :
    ∃ u u', t = u ++ u' ∧ Lowers s u ∧ Lowers s' u' := by
  induction s generalizing t with
  | nil => exact ⟨[], t, rfl, .nil, h⟩
  | cons c s ih =>
    cases h with
    | ascii hc hrest =>
      obtain ⟨u, u', rfl, hu, hu'⟩ := ih hrest
      exact ⟨_, u', rfl, .ascii hc hu, hu'⟩
    | other hc hne hpiece hrest =>
      obtain ⟨u, u', rfl, hu, hu'⟩ := ih hrest
      exact ⟨_, u', (append_assoc _ _ _).symm, .other hc hne hpiece hu, hu'⟩

theorem Lowers.of_nil {s : Text} (h : Lowers s []) : s = [] := by
  generalize ht : ([] : Text) = t at h
  cases h with
  | nil => rfl
  | ascii _ _ => cases ht
  | other _ hne _ _ => exact absurd (append_eq_nil_iff.mp ht.symm).1 hne

theorem Lowers.split {s a t : Text} {x : CodeUnit} (h : Lowers s (a ++ x :: t)) (hx : IsPlain x) :
    ∃ s₁ c s₂, s = s₁ ++ c :: s₂ ∧ Lowers s₁ a ∧ foldCase c = x ∧ Lowers s₂ t := by
  generalize hu : a ++ x :: t = u at h
  induction h generalizing a with
  | nil => simp at hu
  | @ascii c s u hc hrest ih =>
    cases a with
    | nil =>
      obtain ⟨rfl, rfl⟩ := cons_eq_cons.mp hu
      exact ⟨[], c, s, rfl, .nil, rfl, hrest⟩
    | cons d a =>
      obtain ⟨rfl, htail⟩ := cons_eq_cons.mp hu
      obtain ⟨s₁, c', s₂, rfl, h₁, hfold, h₂⟩ := ih htail
      exact ⟨c :: s₁, c', s₂, rfl, .ascii hc h₁, hfold, h₂⟩
  | @other c piece s u hc hne hpiece hrest ih =>
    rcases append_eq_append_iff.mp hu with ⟨more, rfl, hmore⟩ | ⟨more, rfl, hmore⟩
    · -- the piece reaches further than what is before the unit
      cases more with
      | nil =>
        obtain ⟨s₁, c', s₂, rfl, h₁, hfold, h₂⟩ := ih (a := []) hmore
        obtain rfl := h₁.of_nil
        refine ⟨[c], c', s₂, rfl, ?_, hfold, h₂⟩
        simpa using Lowers.other hc hne hpiece .nil
      | cons d more =>
        obtain ⟨rfl, -⟩ := cons_eq_cons.mp hmore
        exact absurd rfl (not_plain_of_other (hpiece x (by simp)) hx)
    · obtain ⟨s₁, c', s₂, rfl, h₁, hfold, h₂⟩ := ih hmore.symm
      exact ⟨c :: s₁, c', s₂, rfl, .other hc hne hpiece h₁, hfold, h₂⟩

theorem Lowers.split_text {pattern : Text} (hpattern : ∀ x ∈ pattern, IsPlain x)
    (hne : pattern ≠ []) {s a t : Text} (h : Lowers s (a ++ (pattern ++ t))) :
    ∃ s₁ word s₂, s = s₁ ++ (word ++ s₂) ∧ Lowers s₁ a ∧ word.map foldCase = pattern ∧
      Lowers s₂ t := by
  induction pattern generalizing s a with
  | nil => exact absurd rfl hne
  | cons x pattern ih =>
    obtain ⟨hx, hpattern⟩ := forall_mem_cons.mp hpattern
    obtain ⟨s₁, c, s₂, rfl, h₁, hfold, h₂⟩ := h.split hx
    cases pattern with
    | nil => exact ⟨s₁, [c], s₂, rfl, h₁, by rw [map_singleton, hfold], h₂⟩
    | cons y pattern =>
      obtain ⟨s₃, word, s₄, rfl, h₃, hword, h₄⟩ := ih hpattern (cons_ne_nil _ _) (a := []) h₂
      obtain rfl := h₃.of_nil
      exact ⟨s₁, c :: word, s₄, rfl, h₁, by rw [map_cons, hfold, hword], h₄⟩

theorem Lowers.of_word {word pattern u : Text} (hpattern : ∀ x ∈ pattern, x < 128)
    (hword : word.map foldCase = pattern) (h : Lowers word u) : u = pattern := by
  induction h generalizing pattern with
  | nil => exact hword
  | ascii hc _ ih =>
    subst hword
    rw [map_cons, ih (fun x hx => hpattern x (mem_cons_of_mem _ hx)) rfl]
  | other hc _ _ _ _ =>
    subst hword
    have hlt := hpattern _ mem_cons_self
    have hnot : ¬_ := fun h => absurd (UInt16.le_trans hc h) (by decide : ¬(128 : CodeUnit) ≤ 90)
    rw [foldCase, if_neg fun h => hnot h.2] at hlt
    exact absurd hlt (UInt16.not_lt.mpr hc)

theorem Lowers.mem_close {s t : Text} (h : Lowers s t) : 62 ∈ t ↔ 62 ∈ s := by
  have hplain : IsPlain 62 := by decide
  constructor
  · intro hmem
    obtain ⟨a, b, rfl⟩ := append_of_mem hmem
    obtain ⟨s₁, c, s₂, rfl, -, hfold, -⟩ := h.split hplain
    by_cases hc : 65 ≤ c ∧ c ≤ 90
    · obtain ⟨hcase, hlow, -⟩ := foldCase_of_letter hc
      rw [← hcase, hfold] at hlow
      exact absurd hlow (by decide)
    · rw [foldCase, if_neg hc] at hfold
      simp [hfold]
  · intro hmem
    obtain ⟨a, b, rfl⟩ := append_of_mem hmem
    obtain ⟨u, u', rfl, -, hu'⟩ := h.of_append
    cases hu' with
    | ascii _ _ => exact mem_append_right _ mem_cons_self
    | other hc _ _ _ => exact absurd hc (by decide)

theorem hasDoctypeSystem_agrees {toLowerCase : Text → Text} (hlower : LowerCases toLowerCase)
    (value : Text) : hasDoctypeSystem toLowerCase value = doctypeSystem.test value := by
  have hplain : ∀ x ∈ ascii "<!doctype", IsPlain x := Js.forall_mem_of_all (by decide)
  have hplain' : ∀ x ∈ ascii "system", IsPlain x := Js.forall_mem_of_all (by decide)
  have hvalue := hlower value
  rw [Bool.eq_iff_iff, hasDoctypeSystem, doctypeSystemFrom_iff (by omega), exists_declaredAt_iff,
    doctypeSystem_iff]
  constructor
  · rintro ⟨before, body, rest, heq, hbody⟩
    rw [heq] at hvalue
    obtain ⟨s₁, opener, s₂, rfl, -, hopen, h₂⟩ := hvalue.split_text hplain (by decide)
    obtain ⟨s₃, word, s₄, rfl, h₃, hword, -⟩ := h₂.split_text hplain' (by decide)
    exact ⟨s₁, opener, s₃, word, s₄, rfl, hopen, fun h => hbody (h₃.mem_close.mpr h), hword⟩
  · rintro ⟨before, opener, body, word, rest, heq, hopen, hbody, hword⟩
    rw [heq] at hvalue
    obtain ⟨u₁, _, heq₁, -, hvalue⟩ := hvalue.of_append
    obtain ⟨u₂, _, rfl, h₂, hvalue⟩ := hvalue.of_append
    obtain ⟨u₃, _, rfl, h₃, hvalue⟩ := hvalue.of_append
    obtain ⟨u₄, u₅, rfl, h₄, -⟩ := hvalue.of_append
    obtain rfl := h₂.of_word (fun x hx => (hplain x hx).1) hopen
    obtain rfl := h₄.of_word (fun x hx => (hplain' x hx).1) hword
    rw [← heq] at heq₁
    exact ⟨u₁, u₃, u₅, heq₁, fun h => hbody (h₃.mem_close.mp h)⟩

theorem lowerCases_map : LowerCases fun s => s.map foldCase := by
  intro s
  induction s with
  | nil => exact .nil
  | cons c s ih =>
    by_cases hc : c < 128
    · exact .ascii hc ih
    · have hle : 128 ≤ c := UInt16.not_lt.mp hc
      have hfold : foldCase c = c := by
        rw [foldCase, if_neg]
        rintro ⟨-, hhigh⟩
        exact hc (UInt16.lt_of_le_of_lt hhigh (by decide))
      show Lowers (c :: s) ([foldCase c] ++ s.map foldCase)
      rw [hfold]
      exact .other hle (by simp) (by simpa using .inl hle) ih

end Almyty.Security
