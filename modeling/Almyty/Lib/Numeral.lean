import Mathlib

/-!
# Decimal numerals and the doubles they are read as

A decimal numeral is what JavaScript's grammar calls one, but for `Infinity`: a sign, digits with a
point among them or none, and an exponent. `readNumeral` reads the one a text begins with and leaves
the rest; a numeral by itself is read whole (`readNumeral_eq_iff`), so a text is one numeral at most
(`Numeral.text_injective`).
-/

namespace Almyty.Lib.Js

open List Option

def isDigit (c : UInt16) : Bool := 48 ≤ c && c ≤ 57

abbrev Digits := { ds : List UInt16 // ds.all isDigit = true }

inductive Sign
  | none
  | plus
  | minus
  deriving DecidableEq

def Sign.text : Sign → List UInt16
  | .none => []
  | .plus => [43]
  | .minus => [45]

def Sign.apply (sign : Sign) (n : Int) : Int := if sign = .minus then -n else n

structure Exponent where
  mark : UInt16
  sign : Sign
  digits : Digits
  marks : mark = 101 ∨ mark = 69
  some_digit : digits.1 ≠ []

def Exponent.text (e : Exponent) : List UInt16 := e.mark :: (e.sign.text ++ e.digits.1)

/-- `-12.5e3`, `.5`, `5.`. -/
structure Numeral where
  sign : Sign
  whole : Digits
  /-- The digits behind the point, where there is one. -/
  fraction : Option Digits
  exponent : Option Exponent
  some_digit : whole.1 ≠ [] ∨ ∃ f ∈ fraction, f.1 ≠ []

def fractionText (fraction : Option Digits) : List UInt16 :=
  fraction.elim [] fun f => 46 :: f.1

def exponentText (exponent : Option Exponent) : List UInt16 := exponent.elim [] Exponent.text

def Numeral.text (n : Numeral) : List UInt16 :=
  n.sign.text ++ (n.whole.1 ++ (fractionText n.fraction ++ exponentText n.exponent))

def digitsNat (ds : List UInt16) : Nat := ds.foldl (fun n d => n * 10 + (d.toNat - 48)) 0

def power (base : Nat) (k : Int) : Rat :=
  if 0 ≤ k then ((base ^ k.toNat : Nat) : Rat) else 1 / ((base ^ (-k).toNat : Nat) : Rat)

def Numeral.value (n : Numeral) : Rat :=
  let fraction := n.fraction.elim [] Subtype.val
  let exponent := n.exponent.elim 0 fun e => e.sign.apply (digitsNat e.digits.1)
  (n.sign.apply (digitsNat (n.whole.1 ++ fraction)) : Rat) *
    power 10 (exponent - fraction.length)

/-! ## Reading -/

def readSign : List UInt16 → Sign × List UInt16
  | [] => (.none, [])
  | c :: t => if c = 43 then (.plus, t) else if c = 45 then (.minus, t) else (.none, c :: t)

def readDigits (t : List UInt16) : Digits × List UInt16 :=
  (⟨t.takeWhile isDigit, all_takeWhile⟩, t.dropWhile isDigit)

def readFraction (whole : Digits) : List UInt16 → Option Digits × List UInt16
  | [] => (none, [])
  | c :: t =>
    let ds := (readDigits t).1
    -- a point alone is no numeral
    if c = 46 ∧ (whole.1 ≠ [] ∨ ds.1 ≠ []) then (some ds, (readDigits t).2) else (none, c :: t)

def readExponent : List UInt16 → Option Exponent × List UInt16
  | [] => (none, [])
  | c :: t =>
    let u := (readSign t).2
    let ds := (readDigits u).1
    if h : (c = 101 ∨ c = 69) ∧ ds.1 ≠ [] then
      (some ⟨c, (readSign t).1, ds, h.1, h.2⟩, (readDigits u).2)
    else (none, c :: t)

def readNumeral (t : List UInt16) : Option (Numeral × List UInt16) :=
  let signed := readSign t
  let whole := readDigits signed.2
  let fraction := readFraction whole.1 whole.2
  let exponent := readExponent fraction.2
  if h : whole.1.1 ≠ [] ∨ ∃ f ∈ fraction.1, f.1 ≠ [] then
    some (⟨signed.1, whole.1, fraction.1, exponent.1, h⟩, exponent.2)
  else none

theorem readSign_text (t : List UInt16) : (readSign t).1.text ++ (readSign t).2 = t := by
  cases t with
  | nil => rfl
  | cons c t =>
    rw [readSign]
    split
    · next h => rw [h]; rfl
    · split
      · next h => rw [h]; rfl
      · rfl

theorem readDigits_text (t : List UInt16) : (readDigits t).1.1 ++ (readDigits t).2 = t :=
  takeWhile_append_dropWhile

theorem readFraction_text (whole : Digits) (t : List UInt16) :
    fractionText (readFraction whole t).1 ++ (readFraction whole t).2 = t := by
  cases t with
  | nil => rfl
  | cons c t =>
    rw [readFraction]
    split
    · next h =>
      rw [h.1]
      exact congrArg (46 :: ·) (readDigits_text t)
    · rfl

theorem readExponent_text (t : List UInt16) :
    exponentText (readExponent t).1 ++ (readExponent t).2 = t := by
  cases t with
  | nil => rfl
  | cons c t =>
    rw [readExponent]
    split
    · show c :: ((readSign t).1.text ++ (readDigits (readSign t).2).1.1) ++ _ = _
      rw [cons_append, append_assoc, readDigits_text, readSign_text]
    · rfl

theorem readNumeral_text {t rest : List UInt16} {n : Numeral}
    (h : readNumeral t = some (n, rest)) : t = n.text ++ rest := by
  unfold readNumeral at h
  dsimp only at h
  split at h
  · obtain ⟨rfl, rfl⟩ := Prod.mk.inj (some.inj h)
    unfold Numeral.text
    dsimp only
    rw [append_assoc, append_assoc, append_assoc, readExponent_text,
      readFraction_text, readDigits_text, readSign_text]
  · cases h

/-! ## Numerals by themselves -/

theorem readSign_append (sign : Sign) {u : List UInt16} (hu : ∀ c ∈ u.head?, c ≠ 43 ∧ c ≠ 45) :
    readSign (sign.text ++ u) = (sign, u) := by
  cases sign with
  | plus | minus => rfl
  | none =>
    cases u with
    | nil => rfl
    | cons c u =>
      obtain ⟨hplus, hminus⟩ := hu c rfl
      rw [Sign.text, nil_append, readSign, if_neg hplus, if_neg hminus]

theorem readDigits_append (ds : Digits) {t : List UInt16}
    (ht : ∀ c ∈ t.head?, isDigit c = false) : readDigits (ds.1 ++ t) = (ds, t) := by
  have hall : ∀ c ∈ ds.1, isDigit c = true := all_eq_true.mp ds.2
  have htake : (ds.1 ++ t).takeWhile isDigit = ds.1 := by
    rw [takeWhile_append_of_pos hall]
    cases t with
    | nil => simp
    | cons c t => simp [ht c rfl]
  have hdrop : (ds.1 ++ t).dropWhile isDigit = t := by
    rw [dropWhile_append_of_pos hall]
    cases t with
    | nil => rfl
    | cons c t => simp [ht c rfl]
  unfold readDigits
  rw [hdrop]
  exact congrArg (·, t) (Subtype.ext htake)

theorem head_exponentText (exponent : Option Exponent) :
    ∀ c ∈ (exponentText exponent).head?, isDigit c = false ∧ c ≠ 46 ∧ c ≠ 43 ∧ c ≠ 45 := by
  intro c hc
  cases exponent with
  | none => cases hc
  | some e =>
    obtain rfl : e.mark = c := some.inj hc
    rcases e.marks with hmark | hmark <;> rw [hmark] <;> decide

theorem readExponent_exponentText (exponent : Option Exponent) :
    readExponent (exponentText exponent) = (exponent, []) := by
  cases exponent with
  | none => rfl
  | some e =>
    have hdigits : ∀ c ∈ e.digits.1.head?, c ≠ 43 ∧ c ≠ 45 := by
      intro c hc
      have hdigit := all_eq_true.mp e.digits.2 c (List.mem_of_mem_head? hc)
      constructor <;> rintro rfl <;> exact absurd hdigit (by decide)
    have hsign := readSign_append e.sign hdigits
    have hread := readDigits_append e.digits (t := []) fun c hc => by cases hc
    rw [append_nil] at hread
    show readExponent (e.mark :: (e.sign.text ++ e.digits.1)) = _
    simp only [readExponent, hsign, hread]
    exact dif_pos ⟨e.marks, e.some_digit⟩

theorem head_fractionText (fraction : Option Digits) (exponent : Option Exponent) :
    ∀ c ∈ (fractionText fraction ++ exponentText exponent).head?,
      isDigit c = false ∧ c ≠ 43 ∧ c ≠ 45 := by
  intro c hc
  cases fraction with
  | none =>
    obtain ⟨hdigit, -, hplus, hminus⟩ := head_exponentText exponent c hc
    exact ⟨hdigit, hplus, hminus⟩
  | some f =>
    obtain rfl : 46 = c := some.inj hc
    decide

theorem readFraction_append (whole : Digits) (fraction : Option Digits)
    (exponent : Option Exponent) (hsome : whole.1 ≠ [] ∨ ∃ f ∈ fraction, f.1 ≠ []) :
    readFraction whole (fractionText fraction ++ exponentText exponent)
      = (fraction, exponentText exponent) := by
  have hhead := head_exponentText exponent
  cases fraction with
  | none =>
    show readFraction whole (exponentText exponent) = _
    cases htext : exponentText exponent with
    | nil => rfl
    | cons c t =>
      rw [htext] at hhead
      rw [readFraction, if_neg fun h => (hhead c rfl).2.1 h.1]
  | some f =>
    have hread := readDigits_append f fun c hc => (hhead c hc).1
    have hsome' : whole.1 ≠ [] ∨ f.1 ≠ [] :=
      hsome.imp_right fun ⟨g, hg, hne⟩ => (some.inj hg) ▸ hne
    show readFraction whole (46 :: (f.1 ++ exponentText exponent)) = _
    rw [readFraction, hread]
    exact if_pos ⟨rfl, hsome'⟩

theorem readNumeral_of_text (n : Numeral) : readNumeral n.text = some (n, []) := by
  have hfraction := head_fractionText n.fraction n.exponent
  have hsign : ∀ c ∈ (n.whole.1 ++ (fractionText n.fraction ++ exponentText n.exponent)).head?,
      c ≠ 43 ∧ c ≠ 45 := by
    intro c hc
    cases hwhole : n.whole.1 with
    | nil =>
      rw [hwhole] at hc
      exact (hfraction c hc).2
    | cons d ds =>
      rw [hwhole] at hc
      obtain rfl : d = c := some.inj hc
      have hdigit := all_eq_true.mp n.whole.2 d (by rw [hwhole]; exact mem_cons_self)
      constructor <;> rintro rfl <;> exact absurd hdigit (by decide)
  have hdigits := readDigits_append n.whole fun c hc => (hfraction c hc).1
  simp only [readNumeral, Numeral.text, readSign_append n.sign hsign, hdigits,
    readFraction_append n.whole n.fraction n.exponent n.some_digit, readExponent_exponentText]
  exact dif_pos n.some_digit

theorem readNumeral_eq_iff {t : List UInt16} {n : Numeral} :
    readNumeral t = some (n, []) ↔ t = n.text := by
  constructor
  · intro h
    rw [readNumeral_text h, append_nil]
  · rintro rfl
    exact readNumeral_of_text n

theorem Numeral.text_injective {m n : Numeral} (h : m.text = n.text) : m = n := by
  have hm := readNumeral_of_text m
  rw [h, readNumeral_of_text] at hm
  exact (Prod.mk.inj (some.inj hm)).1.symm

/-! ## Doubles -/

inductive Double
  | finite (n : Rat)
  | infinity
  | negInfinity
  deriving DecidableEq

def roundEven (x : Rat) : Int :=
  let part := x - x.floor
  if part < 1 / 2 then x.floor
  else if 1 / 2 < part then x.floor + 1
  else if x.floor % 2 = 0 then x.floor
  else x.floor + 1

/-- The exponent of a number's first binary digit. -/
def binade (x : Rat) : Int :=
  let e : Int := (Nat.log2 x.num.natAbs : Int) - Nat.log2 x.den
  if x < power 2 e ∧ -power 2 e < x then e - 1 else e

def toDouble (x : Rat) : Double :=
  let lastPlace := power 2 (max (binade x - 52) (-1074))
  let near := (roundEven (x / lastPlace) : Rat) * lastPlace
  if power 2 1024 ≤ near then .infinity
  else if near ≤ -power 2 1024 then .negInfinity
  else .finite near

def Double.lt : Double → Double → Bool
  | .finite m, .finite n => m < n
  | .finite _, .infinity | .negInfinity, .finite _ | .negInfinity, .infinity => true
  | _, _ => false

def Double.le (a b : Double) : Bool := a = b || a.lt b

end Almyty.Lib.Js
