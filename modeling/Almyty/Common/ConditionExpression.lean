import Almyty.Lib.JsText
import Almyty.Lib.Regex

/-!
# Reading a condition: `common/utils/condition-expression.ts`

The conditions of a workflow were read with four patterns and a fifth for a single reference. A
pattern whose quantifiers overlap shares a run of spaces out in every way before it gives up, so
each was replaced by one scan of the text. `readers_agree` says that every scan returns what the
pattern captured, on every text.

Mirroring notes:
- A text is its UTF-16 code units, and an index is a number of them.
-/

namespace Almyty.Common

open Almyty.Lib List

abbrev CodeUnit := UInt16

instance : LawfulBEq (List CodeUnit) := inferInstance

abbrev Text := List CodeUnit

/-- A text of ASCII characters. -/
def ascii (text : String) : Text := text.toList.map (·.toNat.toUInt16)

/-- `\s`. -/
def isSpace (ch : CodeUnit) : Bool := Js.isSpace (Char.ofNat ch.toNat)

def isLineTerminator (ch : CodeUnit) : Bool := [0x0a, 0x0d, 0x2028, 0x2029].contains ch

/-- `.` without the `s` flag. -/
def isDot (ch : CodeUnit) : Bool := !isLineTerminator ch

def trim (text : Text) : Text := (text.dropWhile isSpace).rdropWhile isSpace

def endsWith (text suffix : Text) : Bool := suffix.isSuffixOf text

def startsWith (text pattern : Text) (at' : Nat) : Bool := pattern.isPrefixOf (text.drop at')

def lastIndexOf (pattern : Text) : Text → Int
  | [] => if pattern.isEmpty then 0 else -1
  | ch :: text =>
    let at' := lastIndexOf pattern text
    if 0 ≤ at' then at' + 1 else if pattern.isPrefixOf (ch :: text) then 0 else -1

/-! ## Comparisons -/

/-- For each index, the first one at or after it that is not a space, or the length. -/
def nextNonSpace (s : Text) : List Nat :=
  go 0 s
where
  go (i : Nat) : Text → List Nat
    | [] => [i]
    | ch :: rest =>
      let out := go (i + 1) rest
      (if isSpace ch then out.headD 0 else i) :: out

def COMPARISON_OPERATORS : List Text := ["===", "==", "!==", "!=", ">=", ">", "<=", "<"].map ascii

def EQUALITY_OPERATORS : List Text := ["===", "==", "!==", "!="].map ascii

def lastBreakOf (s : Text) : Int :=
  s.zipIdx.foldl (fun lastBreak (ch, i) => if isLineTerminator ch then (i : Int) else lastBreak) (-1)

/-- Where the right side begins that is read from an index on. -/
def rightStart (s : Text) (skip : List Nat) (lastBreak : Int) (start : Nat) : Option Nat :=
  let n : Int := s.length
  let w := skip.getD start 0
  if (w : Int) < n then
    if (w : Int) > lastBreak then some w else none
  else if n - 1 ≥ start ∧ n - 1 > lastBreak then some (n - 1).toNat
  else none

/-- The loop over the ends of the left side. -/
def comparisonFrom (s : Text) (operators : List Text) (start : Nat) (skip : List Nat)
    (lastBreak : Int) : Nat → Nat → Option (Text × Text × Text)
  | 0, _ => none
  | left + 1, stop =>
    if (s[stop - 1]?).any isLineTerminator then none
    else
      let at' := skip.getD stop 0
      let found := operators.findSome? fun op =>
        if startsWith s op at' then
          (rightStart s skip lastBreak (at' + op.length)).map fun right =>
            (Regex.slice s start stop, op, s.drop right)
        else none
      match found with
      | some result => some result
      | none => comparisonFrom s operators start skip lastBreak left (stop + 1)

def matchComparison (s : Text) (operators : List Text) (start : Text) :
    Option (Text × Text × Text) :=
  if startsWith s start 0 then
    comparisonFrom s operators start.length (nextNonSpace s) (lastBreakOf s)
      (s.length - start.length) (start.length + 1)
  else none

/-! ## Method calls -/

def METHOD_CALLS : List Text := ["includes", "startsWith", "endsWith"].map ascii

def callText (name : Text) : Text := ascii "." ++ name ++ ascii "("

/-- The body of the loop over the methods. -/
def laterCall (s : Text) (last : Int × Text) (name : Text) : Int × Text :=
  let at' := lastIndexOf (callText name) s
  if at' > last.1 then (at', name) else last

def lastCallOf (s : Text) : Int × Text := METHOD_CALLS.foldl (laterCall s) (-1, [])

def receiverFrom (s : Text) (call : Int) (start : Nat) : Option Text :=
  let spaces := start + ((s.drop start).takeWhile isSpace).length
  let receiverStart : Int := min (spaces : Int) (call - 1)
  if receiverStart ≥ start then some (Regex.slice s receiverStart.toNat call.toNat) else none

def matchMethodCondition (s : Text) : Option (Text × Text × Text × Text) :=
  let n := s.length
  if endsWith s (ascii ")") then
    let (call, method) := lastCallOf s
    if call = -1 then none
    else
      let argument := trim (Regex.slice s (call.toNat + method.length + 2) (n - 1))
      let starts := if s.head? = some 33 then [1, 0] else [0]
      starts.findSome? fun start =>
        (receiverFrom s call start).map fun receiver =>
          (if start = 1 then ascii "!" else [], receiver, method, argument)
  else none

def isWordStart (ch : CodeUnit) : Bool :=
  (97 ≤ ch && ch ≤ 122) || (65 ≤ ch && ch ≤ 90) || ch = 95 || ch = 36

/-- `[\w$]`. -/
def isWord (ch : CodeUnit) : Bool := isWordStart ch || (48 ≤ ch && ch ≤ 57)

def spaces : Regex CodeUnit := .many true 0 isSpace

def CALL_AFTER_DOT : Regex CodeUnit :=
  .sequence [.text (ascii "."), spaces, .unit isWordStart, .many true 0 isWord, spaces,
    .text (ascii "(")]

def looksLikeMethodCall (s : Text) : Bool :=
  endsWith s (ascii ")") && CALL_AFTER_DOT.test (s.drop 1)

/-! ## References -/

def singleReference (expression : Text) : Option Text :=
  let t := trim expression
  if t.length < 5 || !startsWith t (ascii "\x7b\x7b") 0 || !endsWith t (ascii "\x7d\x7d") then none
  else
    let inner := Regex.slice t 2 (t.length - 2)
    if inner.contains 125 then none
    else
      let path := trim inner
      some (if path.isEmpty then inner.drop (inner.length - 1) else path)

/-! ## The patterns -/

/-- `a=?`. -/
def orEqual (op : String) : Regex CodeUnit := .seq (.text (ascii op)) (.optional (.text (ascii "=")))

def comparisonAfter (operators : Regex CodeUnit) : List (Regex CodeUnit) :=
  [.group (.many false 1 isDot), spaces, .group operators, spaces, .group (.many true 1 isDot),
    .atEnd]

def COMPARISON : Regex CodeUnit :=
  .sequence (comparisonAfter (.anyOf [orEqual "==", orEqual "!=", orEqual ">", orEqual "<"]))

def DATA_COMPARISON : Regex CodeUnit :=
  .sequence (.text (ascii "data.") :: comparisonAfter (.anyOf [orEqual "==", orEqual "!="]))

/-- `/^(!?)\s*(.+)\.(includes|startsWith|endsWith)\(\s*(.*?)\s*\)$/s`. -/
def METHOD : Regex CodeUnit :=
  .sequence [.group (.optional (.text (ascii "!"))), spaces, .group (.many true 1 fun _ => true),
    .text (ascii "."), .group (.anyOf (METHOD_CALLS.map .text)), .text (ascii "("), spaces,
    .group (.many false 0 fun _ => true), spaces, .text (ascii ")"), .atEnd]

/-- `/^!?\s*.+\.\s*[A-Za-z_$][\w$]*\s*\(.*\)$/s`. -/
def METHOD_CALL : Regex CodeUnit :=
  .sequence [.optional (.text (ascii "!")), spaces, .many true 1 fun _ => true, .text (ascii "."),
    spaces, .unit isWordStart, .many true 0 isWord, spaces, .text (ascii "("),
    .many true 0 fun _ => true, .text (ascii ")"), .atEnd]

def SINGLE_REFERENCE : Regex CodeUnit :=
  .sequence [spaces, .text (ascii "\x7b\x7b"), spaces, .group (.many false 1 (· ≠ 125)), spaces,
    .text (ascii "\x7d\x7d"), spaces, .atEnd]

/-! ## Indices and rests -/

theorem dropWhile_eq_drop (p : CodeUnit → Bool) (s : Text) :
    s.dropWhile p = s.drop (s.takeWhile p).length := by
  conv_rhs => rw [← takeWhile_append_dropWhile (p := p) (l := s), drop_append]
  simp

theorem not_space_of_dropWhile {s u : Text} {c : CodeUnit} (h : s.dropWhile isSpace = c :: u) :
    isSpace c = false := by
  have hne : s.dropWhile isSpace ≠ [] := by simp [h]
  have hnot := head_dropWhile_not isSpace hne
  simpa [h] using hnot

theorem take_sub_drop (s : Text) {k : Nat} (hk : k ≤ s.length) :
    s.take (s.length - (s.drop k).length) = s.take k := by
  rw [length_drop]
  congr 1
  omega

theorem append_prefix_iff (a b s : Text) : a ++ b <+: s ↔ a <+: s ∧ b <+: s.drop a.length := by
  constructor
  · intro h
    obtain ⟨t, rfl⟩ := h
    rw [append_assoc, drop_left]
    exact ⟨prefix_append _ _, prefix_append _ _⟩
  · intro h
    obtain ⟨⟨t, rfl⟩, hb⟩ := h
    rw [drop_left] at hb
    exact (prefix_append_right_inj a).mpr hb

theorem nextNonSpace_go (s : Text) (i j : Nat) (hj : j ≤ s.length) :
    (nextNonSpace.go i s).getD j 0 = i + j + ((s.drop j).takeWhile isSpace).length := by
  induction s generalizing i j with
  | nil =>
    obtain rfl : j = 0 := Nat.le_zero.mp hj
    simp [nextNonSpace.go]
  | cons ch rest ih =>
    cases j with
    | zero =>
      have hhead := ih (i + 1) 0 (Nat.zero_le _)
      rw [drop_zero] at hhead
      rw [nextNonSpace.go, getD_cons_zero, drop_zero]
      by_cases hch : isSpace ch = true
      · rw [if_pos hch, takeWhile_cons_of_pos hch, length_cons]
        rw [List.getD_eq_getElem?_getD, ← List.head?_eq_getElem?, ← List.headD_eq_head?_getD] at hhead
        omega
      · rw [if_neg hch, takeWhile_cons_of_neg hch, length_nil]
        omega
    | succ j =>
      rw [length_cons] at hj
      rw [nextNonSpace.go, getD_cons_succ, ih (i + 1) j (by omega), drop_succ_cons]
      omega

theorem nextNonSpace_getD (s : Text) {j : Nat} (hj : j ≤ s.length) :
    (nextNonSpace s).getD j 0 = j + ((s.drop j).takeWhile isSpace).length := by
  rw [nextNonSpace, nextNonSpace_go s 0 j hj, Nat.zero_add]

theorem drop_nextNonSpace (s : Text) {j : Nat} (hj : j ≤ s.length) :
    s.drop ((nextNonSpace s).getD j 0) = (s.drop j).dropWhile isSpace := by
  rw [nextNonSpace_getD s hj, dropWhile_eq_drop, drop_drop]

theorem lastBreakOf_lt_iff (s : Text) (i : Nat) :
    lastBreakOf s < i ↔ (s.drop i).all isDot = true := by
  induction s using List.reverseRecOn with
  | nil =>
    simp only [lastBreakOf, zipIdx_nil, foldl_nil, drop_nil, all_nil, iff_true]
    omega
  | append_singleton s ch ih =>
    have hlast : lastBreakOf (s ++ [ch]) =
        if isLineTerminator ch then (s.length : Int) else lastBreakOf s := by
      simp [lastBreakOf, zipIdx_append]
    rw [hlast]
    by_cases hch : isLineTerminator ch = true
    · rw [if_pos hch]
      by_cases hi : s.length < i
      · have hdrop : (s ++ [ch]).drop i = [] := drop_eq_nil_iff.mpr (by simp; omega)
        simp [hdrop, hi]
      · have hdrop : (s ++ [ch]).drop i = s.drop i ++ [ch] :=
          drop_append_of_le_length (by omega)
        simp [hdrop, isDot, hch, hi]
    · rw [if_neg hch, ih]
      by_cases hi : s.length < i
      · have hdrop : (s ++ [ch]).drop i = [] := drop_eq_nil_iff.mpr (by simp; omega)
        have hdrop' : s.drop i = [] := drop_eq_nil_iff.mpr (by omega)
        simp [hdrop, hdrop']
      · have hdrop : (s ++ [ch]).drop i = s.drop i ++ [ch] :=
          drop_append_of_le_length (by omega)
        simp [hdrop, isDot, hch]

end Almyty.Common
