import Mathlib

/-!
# One word of a shell

`oneWord` reads a text as bash does: between single quotes everything stands for itself, and
outside of them so does what follows a backslash, and a unit the shell has no meaning for. It is
the word's value, or nothing where the text is no word, ends inside quotes, or asks for more than
its own letters.
-/

namespace Almyty.Lib.Shell

/-- Blanks, metacharacters, quotes, and what expansions, patterns, comments and the history begin
with. -/
def special : List UInt16 :=
  "\t\n |&;()<>\"'\\`$*?[]#~\x7b\x7d!^".toList.map fun c => c.toNat.toUInt16

def isLiteral (c : UInt16) : Bool := !special.contains c

/-- What is left of a word, inside or outside single quotes. -/
def readFrom : Bool → List UInt16 → Option (List UInt16)
  | true, [] => none
  | false, [] => some []
  | true, c :: rest => if c = 39 then readFrom false rest else (readFrom true rest).map (c :: ·)
  | false, c :: rest =>
    if c = 39 then readFrom true rest
    else if c = 92 then
      match rest with
      | [] => none
      | d :: rest => if d = 10 then none else (readFrom false rest).map (d :: ·)
    else if isLiteral c then (readFrom false rest).map (c :: ·)
    else none

def oneWord (text : List UInt16) : Option (List UInt16) :=
  if text = [] then none else readFrom false text

def singleQuoted (text : List UInt16) : List UInt16 :=
  39 :: (text.flatMap fun c => if c = 39 then [39, 92, 39, 39] else [c]) ++ [39]

theorem read_close (rest : List UInt16) : readFrom true (39 :: rest) = readFrom false rest := by
  conv_lhs => unfold readFrom
  rw [if_pos rfl]

theorem read_open (rest : List UInt16) : readFrom false (39 :: rest) = readFrom true rest := by
  conv_lhs => unfold readFrom
  rw [if_pos rfl]

theorem read_inside {c : UInt16} (hc : c ≠ 39) (rest : List UInt16) :
    readFrom true (c :: rest) = (readFrom true rest).map (c :: ·) := by
  conv_lhs => unfold readFrom
  rw [if_neg hc]

theorem read_escaped {c : UInt16} (hc : c ≠ 10) (rest : List UInt16) :
    readFrom false (92 :: c :: rest) = (readFrom false rest).map (c :: ·) := by
  conv_lhs => unfold readFrom
  rw [if_neg (by decide), if_pos rfl]
  dsimp only
  rw [if_neg hc]

theorem oneWord_singleQuoted (text : List UInt16) : oneWord (singleQuoted text) = some text := by
  have hinside : readFrom true
      ((text.flatMap fun c => if c = 39 then [39, 92, 39, 39] else [c]) ++ [39]) = some text := by
    induction text with
    | nil =>
      rw [List.flatMap_nil, List.nil_append, read_close]
      rfl
    | cons c text ih =>
      rw [List.flatMap_cons, List.append_assoc]
      by_cases hc : c = 39
      · subst hc
        rw [if_pos rfl]
        rw [List.cons_append, List.cons_append, List.cons_append, List.cons_append,
          List.nil_append, read_close, read_escaped (by decide), read_open, ih]
        rfl
      · rw [if_neg hc, List.singleton_append, read_inside hc, ih]
        rfl
  show readFrom false (39 :: _) = _
  rw [read_open]
  exact hinside

theorem oneWord_literal {text : List UInt16} (hne : text ≠ [])
    (h : ∀ c ∈ text, isLiteral c = true) : oneWord text = some text := by
  rw [oneWord, if_neg hne]
  clear hne
  induction text with
  | nil => rfl
  | cons c text ih =>
    have hc := h c List.mem_cons_self
    have hne : ∀ d, isLiteral d = false → c ≠ d := by
      rintro d hd rfl
      rw [hd] at hc
      cases hc
    have hquote := hne 39 (by decide)
    have hslash := hne 92 (by decide)
    conv_lhs => unfold readFrom
    rw [if_neg hquote, if_neg hslash, if_pos hc, ih fun d hd => h d (List.mem_cons_of_mem c hd)]
    rfl

end Almyty.Lib.Shell
