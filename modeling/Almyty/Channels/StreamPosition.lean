import Almyty.Lib.JsText

/-!
# Positions in a run's stream: `run-stream-position.ts`

Redis numbers the entries of a run's event stream `<ms>-<n>`. A frame of a visitor's reply is placed
by the entry it came from and which of that entry's frames it is, written `<ms>-<n>.<frame>`. Both
are read back by a pattern that bounds the digits: 15 in each part of an entry's id, 6 in a frame
number.

What is written within these bounds is read back as it was (`visitorPosOf_text`), and positions are
ordered part by part, as numbers (`visitorPosAfter_iff`).
-/

namespace Almyty.Channels

open Almyty.Lib Option

/-! ## Reading -/

def digits (most : Nat) (text : List Char) : Option (List Char × List Char) :=
  let run := text.takeWhile Char.isDigit
  if 1 ≤ run.length ∧ run.length ≤ most then some (run, text.dropWhile Char.isDigit) else none

def mark (c : Char) : List Char → Option (List Char)
  | [] => none
  | d :: rest => if d = c then some rest else none

/-- `STREAM_POS`, with what is after it. -/
def streamParts (text : List Char) : Option ((List Char × List Char) × List Char) := do
  let (ms, rest) ← digits 15 text
  let rest ← mark '-' rest
  let (n, rest) ← digits 15 rest
  pure ((ms, n), rest)

def number (text : List Char) : Nat := Nat.ofDigitChars 10 text 0

/-- The two numbers of a stream position; `0` and anything else are the start. -/
def parts (pos : String) : Nat × Nat :=
  match streamParts pos.toList with
  | some ((ms, n), []) => (number ms, number n)
  | _ => (0, 0)

def compareStreamPos (a b : String) : Int :=
  if (parts a).1 ≠ (parts b).1 then (parts a).1 - (parts b).1 else (parts a).2 - (parts b).2

structure VisitorStreamPos where
  event : String
  frame : Nat
  deriving DecidableEq

def visitorPosText (pos : VisitorStreamPos) : String := pos.event ++ "." ++ toString pos.frame

/-- The highest frame number a position can carry. -/
def VISITOR_LAST_FRAME : Nat := 999999

def visitorPosPastEvent (event : String) : String :=
  visitorPosText { event := event, frame := VISITOR_LAST_FRAME }

def visitorPosAfter (a b : VisitorStreamPos) : Bool :=
  let order := compareStreamPos a.event b.event
  if order ≠ 0 then 0 < order else b.frame < a.frame

/-- `VISITOR_POS` on a trimmed text. -/
def visitorPosOf (text : String) : Option VisitorStreamPos := do
  let ((ms, n), rest) ← streamParts (Js.trim text.toList)
  let rest ← mark '.' rest
  let (frame, rest) ← digits 6 rest
  if rest.isEmpty then some { event := String.ofList (ms ++ '-' :: n), frame := number frame }
  else none

inductive Given
  | nothing
  | text (value : String)
  | texts (values : List String)
  | other
  deriving DecidableEq

/-- `parse`. -/
def Given.pos : Given → Option VisitorStreamPos
  | .text value => visitorPosOf value
  | .texts values => values.head?.bind visitorPosOf
  | .nothing | .other => none

inductive Resume
  | fromStart
  | past (pos : VisitorStreamPos)
  | invalid

def visitorResumeOf (lastEventId after : Given) : Resume :=
  match lastEventId.pos with
  | some pos => .past pos
  | none =>
    if after = .nothing ∨ after = .text "" then .fromStart
    else
      match after.pos with
      | some pos => .past pos
      | none => .invalid

/-! ## Writing -/

/-- An entry's id, as Redis numbers it. -/
structure StreamId where
  ms : Nat
  n : Nat
  deriving DecidableEq

def StreamId.text (id : StreamId) : String := toString id.ms ++ "-" ++ toString id.n

/-- Each part has at most the digits the pattern takes. -/
def StreamId.Fits (id : StreamId) : Prop := id.ms < 10 ^ 15 ∧ id.n < 10 ^ 15

def StreamId.Before (a b : StreamId) : Prop := a.ms < b.ms ∨ a.ms = b.ms ∧ a.n < b.n

/-! ## What is written is read back -/

theorem isDigit_toDigits {n : Nat} {c : Char} (h : c ∈ Nat.toDigits 10 n) : c.isDigit = true :=
  Nat.isDigit_of_mem_toDigits (by omega) (by omega) h

@[simp] theorem number_toDigits (n : Nat) : number (Nat.toDigits 10 n) = n :=
  Nat.ofDigitChars_toDigits (by omega) (by omega)

theorem digits_toDigits {most n : Nat} (rest : List Char) (hmost : 0 < most) (hn : n < 10 ^ most)
    (hrest : ∀ c ∈ rest.head?, c.isDigit = false) :
    digits most (Nat.toDigits 10 n ++ rest) = some (Nat.toDigits 10 n, rest) := by
  have hall : ∀ c ∈ Nat.toDigits 10 n, c.isDigit = true := fun c => isDigit_toDigits
  have hstop : rest.takeWhile Char.isDigit = [] ∧ rest.dropWhile Char.isDigit = rest := by
    cases rest with
    | nil => exact ⟨rfl, rfl⟩
    | cons c cs =>
      have hc : ¬c.isDigit = true := by simpa using hrest c rfl
      exact ⟨List.takeWhile_cons_of_neg hc, List.dropWhile_cons_of_neg hc⟩
  have hlength : (Nat.toDigits 10 n).length ≤ most :=
    (Nat.length_toDigits_le_iff (by omega) hmost).mpr hn
  have hpos : 1 ≤ (Nat.toDigits 10 n).length := Nat.length_toDigits_pos
  rw [digits, List.takeWhile_append_of_pos hall, List.dropWhile_append_of_pos hall, hstop.1, hstop.2,
    List.append_nil, if_pos ⟨hpos, hlength⟩]

theorem toList_text (id : StreamId) :
    id.text.toList = Nat.toDigits 10 id.ms ++ '-' :: Nat.toDigits 10 id.n := by
  simp [StreamId.text]

theorem streamParts_text {id : StreamId} (h : id.Fits) (rest : List Char)
    (hrest : ∀ c ∈ rest.head?, c.isDigit = false) :
    streamParts (id.text.toList ++ rest) =
      some ((Nat.toDigits 10 id.ms, Nat.toDigits 10 id.n), rest) := by
  rw [toList_text, streamParts, List.append_assoc, List.cons_append,
    digits_toDigits _ (by omega) h.1 (by simp)]
  show (do
    let rest' ← some (Nat.toDigits 10 id.n ++ rest)
    let (n, rest'') ← digits 15 rest'
    pure ((Nat.toDigits 10 id.ms, n), rest'')) = _
  simp only [bind_eq_bind, bind_some, digits_toDigits _ (by omega) h.2 hrest]
  rfl

@[simp] theorem parts_text {id : StreamId} (h : id.Fits) : parts id.text = (id.ms, id.n) := by
  have hread := streamParts_text h [] (by simp)
  rw [List.append_nil] at hread
  simp [parts, hread]

theorem not_isSpace_of_isDigit {c : Char} (h : c.isDigit = true) : Js.isSpace c = false := by
  have hlow : 48 ≤ c.toNat ∧ c.toNat ≤ 57 := by
    simp only [Char.isDigit, Bool.and_eq_true, decide_eq_true_eq] at h
    exact h
  simp [Js.isSpace]
  omega

theorem visitorPosOf_text {id : StreamId} {frame : Nat} (hid : id.Fits)
    (hframe : frame ≤ VISITOR_LAST_FRAME) :
    visitorPosOf (visitorPosText { event := id.text, frame := frame }) =
      some { event := id.text, frame := frame } := by
  have htext : (visitorPosText { event := id.text, frame := frame }).toList =
      id.text.toList ++ '.' :: Nat.toDigits 10 frame := by
    simp [visitorPosText]
  have hspace : ∀ c ∈ id.text.toList ++ '.' :: Nat.toDigits 10 frame, Js.isSpace c = false := by
    intro c hc
    rw [toList_text] at hc
    simp only [List.mem_append, List.mem_cons] at hc
    rcases hc with (hc | rfl | hc) | rfl | hc
    · exact not_isSpace_of_isDigit (isDigit_toDigits hc)
    · decide
    · exact not_isSpace_of_isDigit (isDigit_toDigits hc)
    · decide
    · exact not_isSpace_of_isDigit (isDigit_toDigits hc)
  have hlast : frame < 10 ^ 6 := by
    have hbound : VISITOR_LAST_FRAME = 999999 := rfl
    omega
  have hframes : digits 6 (Nat.toDigits 10 frame) = some (Nat.toDigits 10 frame, []) := by
    simpa using digits_toDigits [] (by omega) hlast (by simp)
  have hevent : String.ofList (Nat.toDigits 10 id.ms ++ '-' :: Nat.toDigits 10 id.n) = id.text := by
    rw [← toList_text, String.ofList_toList]
  rw [visitorPosOf, htext, Js.trim_of_noSpace hspace, streamParts_text hid _ (by simp)]
  simp only [bind_eq_bind, bind_some, mark, if_true, hframes, List.isEmpty_nil, hevent,
    number_toDigits]

theorem visitorPosAfter_iff (a b : VisitorStreamPos) :
    visitorPosAfter a b = true ↔
      (parts b.event).1 < (parts a.event).1 ∨ (parts b.event).1 = (parts a.event).1 ∧
        ((parts b.event).2 < (parts a.event).2 ∨
          (parts b.event).2 = (parts a.event).2 ∧ b.frame < a.frame) := by
  unfold visitorPosAfter compareStreamPos
  by_cases hms : (parts a.event).1 = (parts b.event).1
  · by_cases hn : (parts a.event).2 = (parts b.event).2
    · simp [hms, hn]
    · simp only [hms, ne_eq, not_true_eq_false, if_false, true_and]
      rw [if_pos (by omega)]
      simp only [decide_eq_true_eq]
      omega
  · simp only [ne_eq, hms, not_false_eq_true, if_true]
    rw [if_pos (by omega)]
    simp only [decide_eq_true_eq]
    omega

end Almyty.Channels
