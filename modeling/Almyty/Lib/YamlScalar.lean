import Almyty.Lib.Regex

/-!
# A YAML scalar on one line

`readScalar` reads a line that is one scalar, as YAML 1.1 or 1.2 does: in double quotes it is a
string, and without quotes it is one unless its text is that of another type.

What `JSON.stringify` writes of a text is read as the text, in either version, but for units that
are no YAML characters (`readScalar_stringify`).
-/

namespace Almyty.Lib.Yaml

inductive Version
  | v11
  | v12

inductive Scalar
  | str (text : List UInt16)
  | typed
  deriving DecidableEq

def units (text : String) : List UInt16 := text.toList.map fun c => c.toNat.toUInt16

/-! ## Types -/

section Types

def digit (c : UInt16) : Bool := 48 ≤ c && c ≤ 57

def digitOr (others : String) (c : UInt16) : Bool := digit c || (units others).contains c

def oneOf (chars : String) : Regex UInt16 := .unit fun c => (units chars).contains c

def digits (least : Nat) (others : String) : Regex UInt16 := .many true least (digitOr others)

def literal (text : String) : Regex UInt16 := .text (units text)

def matchesAll (r : Regex UInt16) (text : List UInt16) : Bool :=
  (Regex.captures (.seq r .atEnd) text).isSome

def sign : Regex UInt16 := .optional (oneOf "-+")

def exponent (least : Regex UInt16) : Regex UInt16 :=
  .optional (.sequence [oneOf "eE", least, digits 1 ""])

def dotWord : Regex UInt16 :=
  .sequence [literal ".", .anyOf (["inf", "Inf", "INF"].map literal)]

def notANumber : Regex UInt16 :=
  .sequence [literal ".", .anyOf (["nan", "NaN", "NAN"].map literal)]

/-- The integers and floats of YAML 1.1, but for those of base 60. -/
def numbers11 : List (Regex UInt16) :=
  [.sequence [sign, literal "0b", .many true 1 fun c => (units "01_").contains c],
    .sequence [sign, literal "0", .many true 1 fun c => (units "01234567_").contains c],
    .sequence [sign, literal "0"],
    .sequence [sign, oneOf "123456789", digits 0 "_"],
    .sequence [sign, literal "0x", digits 1 "abcdefABCDEF_"],
    .sequence [sign, .optional (.seq (.unit digit) (digits 0 "_")), literal ".", digits 0 ".",
      exponent (oneOf "-+")],
    .sequence [sign, dotWord], notANumber]

def isBase60 (text : List UInt16) : Bool :=
  match text.splitOn 58 with
  | first :: second :: rest =>
    matchesAll (.sequence [sign, .unit digit, digits 0 "_"]) first &&
      (second :: rest).dropLast.all isSixtieth &&
      ((second :: rest).getLast?.any fun last =>
        isSixtieth (last.takeWhile (· ≠ 46)) &&
          ((last.dropWhile (· ≠ 46)).drop 1).all (digitOr "_"))
  | _ => false
where
  isSixtieth (part : List UInt16) : Bool :=
    matchesAll (.seq (.optional (oneOf "012345")) (.unit digit)) part

def numbers12 : List (Regex UInt16) :=
  [.sequence [sign, digits 1 ""],
    .sequence [literal "0o", .many true 1 fun c => (units "01234567").contains c],
    .sequence [literal "0x", digits 1 "abcdefABCDEF"],
    .sequence [sign, .alt (.seq (literal ".") (digits 1 ""))
      (.seq (digits 1 "") (.optional (.seq (literal ".") (digits 0 "")))), exponent sign],
    .sequence [sign, dotWord], notANumber]

def isNumber : Version → List UInt16 → Bool
  | .v11, text => numbers11.any (matchesAll · text) || isBase60 text
  | .v12, text => numbers12.any (matchesAll · text)

def oneOrTwoDigits : Regex UInt16 := .seq (.unit digit) (.optional (.unit digit))

def twoDigits : Regex UInt16 := .seq (.unit digit) (.unit digit)

def blanks (least : Nat) : Regex UInt16 := .many true least fun c => c = 32 || c = 9

/-- A date of YAML 1.1, or a date and a time. -/
def isTime : Version → List UInt16 → Bool
  | .v11, text =>
    matchesAll (.sequence [twoDigits, twoDigits, literal "-", twoDigits, literal "-", twoDigits])
        text ||
      matchesAll (.sequence [twoDigits, twoDigits, literal "-", oneOrTwoDigits, literal "-",
        oneOrTwoDigits, .alt (oneOf "Tt") (blanks 1), oneOrTwoDigits, literal ":", twoDigits,
        literal ":", twoDigits, .optional (.seq (literal ".") (digits 0 "")),
        .optional (.seq (blanks 0) (.alt (literal "Z") (.sequence [oneOf "-+", oneOrTwoDigits,
          .optional (.seq (literal ":") twoDigits)])))]) text
  | .v12, _ => false

def words : Version → List (List UInt16)
  | .v11 => ["~", "null", "Null", "NULL", "true", "True", "TRUE", "false", "False", "FALSE", "yes",
      "Yes", "YES", "no", "No", "NO", "on", "On", "ON", "off", "Off", "OFF", "y", "Y", "n",
      "N"].map units
  | .v12 => ["~", "null", "Null", "NULL", "true", "True", "TRUE", "false", "False",
      "FALSE"].map units

def resolve (version : Version) (text : List UInt16) : Scalar :=
  if (words version).contains text || isNumber version text || isTime version text then .typed
  else .str text

end Types

/-! ## Scalars -/

/-- The characters of YAML 1.1; between quotes, YAML 1.2 takes what JSON takes. -/
def isPrintable : Version → UInt16 → Bool
  | .v11, c => c = 9 || (0x20 ≤ c && c ≤ 0x7e) || c = 0x85 || (0xa0 ≤ c && c ≤ 0xfffd)
  | .v12, c => c = 9 || 0x20 ≤ c

def hexValue (c : UInt16) : Option UInt16 :=
  if 48 ≤ c && c ≤ 57 then some (c - 48)
  else if 97 ≤ c && c ≤ 102 then some (c - 87)
  else if 65 ≤ c && c ≤ 70 then some (c - 55)
  else none

def shortEscape (c : UInt16) : Option UInt16 :=
  if c = 34 || c = 92 || c = 47 then some c
  else if c = 98 then some 8
  else if c = 102 then some 12
  else if c = 110 then some 10
  else if c = 114 then some 13
  else if c = 116 then some 9
  else none

def hex4 (a b c d : UInt16) : Option UInt16 := do
  return (((← hexValue a) * 16 + (← hexValue b)) * 16 + (← hexValue c)) * 16 + (← hexValue d)

def readQuoted (version : Version) : List UInt16 → Option (List UInt16)
  | [] => none
  | c :: rest =>
    if c = 34 then if rest = [] then some [] else none
    else if c = 92 then
      match rest with
      | [] => none
      | e :: rest =>
        if e = 117 then
          match rest with
          | a :: b :: g :: h :: rest =>
            (hex4 a b g h).bind fun u => (readQuoted version rest).map (u :: ·)
          | _ => none
        else (shortEscape e).bind fun u => (readQuoted version rest).map (u :: ·)
    else if isPrintable version c then (readQuoted version rest).map (c :: ·)
    else none

/-- What no plain text begins with. -/
def isIndicator (c : UInt16) : Bool := (units "-?:,[]\x7b\x7d#&*!|>'\"%@`").contains c

/-- A plain text ends at a comment, and before the value of a key. -/
def isPlainLine (line : List UInt16) : Bool :=
  line.all (isPrintable .v11) && !line.getLast?.any (fun c => c = 32 || c = 9 || c = 58) &&
    !decide ([58, 32] <:+: line) && !decide ([32, 35] <:+: line)

def readScalar (version : Version) (line : List UInt16) : Option Scalar :=
  match line with
  | [] => some .typed
  | c :: rest =>
    if c = 34 then (readQuoted version rest).map .str
    else if isIndicator c || c = 32 || c = 9 then none
    else if isPlainLine line then some (resolve version line)
    else none

/-! ## What JSON writes -/

def isHigh (c : UInt16) : Bool := 0xd800 ≤ c && c ≤ 0xdbff

def isLow (c : UInt16) : Bool := 0xdc00 ≤ c && c ≤ 0xdfff

def hexDigit (n : Nat) : UInt16 := if n < 10 then 48 + n.toUInt16 else 87 + n.toUInt16

def unitEscape (c : UInt16) : List UInt16 :=
  [92, 117, hexDigit (c.toNat / 4096), hexDigit (c.toNat / 256 % 16), hexDigit (c.toNat / 16 % 16),
    hexDigit (c.toNat % 16)]

/-- A unit that is not one of a pair. -/
def escaped (c : UInt16) : List UInt16 :=
  if c = 34 || c = 92 then [92, c]
  else if c = 8 then [92, 98]
  else if c = 12 then [92, 102]
  else if c = 10 then [92, 110]
  else if c = 13 then [92, 114]
  else if c = 9 then [92, 116]
  else if c < 32 || isHigh c || isLow c then unitEscape c
  else [c]

def escapes : List UInt16 → List UInt16
  | [] => []
  | [c] => escaped c
  | c :: d :: rest =>
    if isHigh c && isLow d then c :: d :: escapes rest else escaped c ++ escapes (d :: rest)

/-- `JSON.stringify` of a string. -/
def stringify (text : List UInt16) : List UInt16 := 34 :: (escapes text ++ [34])

def isReadable (version : Version) (c : UInt16) : Bool := c < 32 || isPrintable version c

section Stringify

variable (version : Version)

theorem hexValue_hexDigit {n : Nat} (h : n < 16) : hexValue (hexDigit n) = some n.toUInt16 := by
  have hall : ∀ n < 16, hexValue (hexDigit n) = some n.toUInt16 := by decide
  exact hall n h

theorem hex4_unit (c : UInt16) :
    hex4 (hexDigit (c.toNat / 4096)) (hexDigit (c.toNat / 256 % 16)) (hexDigit (c.toNat / 16 % 16))
      (hexDigit (c.toNat % 16)) = some c := by
  have hlt : c.toNat < 65536 := c.toNat_lt
  unfold hex4
  rw [hexValue_hexDigit (by omega), hexValue_hexDigit (by omega), hexValue_hexDigit (by omega),
    hexValue_hexDigit (by omega)]
  refine congrArg some (UInt16.toNat_inj.mp ?_)
  have hdigits : ((c.toNat / 4096 * 16 + c.toNat / 256 % 16) * 16 + c.toNat / 16 % 16) * 16 +
      c.toNat % 16 = c.toNat := by
    omega
  have hsum : ∀ a b d e : Nat, ((a.toUInt16 * 16 + b.toUInt16) * 16 + d.toUInt16) * 16 +
      e.toUInt16 = (((a * 16 + b) * 16 + d) * 16 + e).toUInt16 := by
    intro a b d e
    simp [Nat.toUInt16]
  rw [hsum, hdigits]
  exact Nat.mod_eq_of_lt hlt

theorem not_quote_of_surrogate {c : UInt16} (h : isHigh c = true ∨ isLow c = true) :
    c ≠ 34 ∧ c ≠ 92 ∧ ¬ c < 32 ∧ isPrintable version c = true := by
  have hrange : 0xd800 ≤ c.toNat ∧ c.toNat ≤ 0xdfff := by
    simp only [isHigh, isLow, Bool.and_eq_true, decide_eq_true_eq, UInt16.le_iff_toNat_le] at h
    change (0xd800 ≤ c.toNat ∧ c.toNat ≤ 0xdbff) ∨ 0xdc00 ≤ c.toNat ∧ c.toNat ≤ 0xdfff at h
    omega
  have hne : ∀ d : UInt16, d.toNat < 0xd800 → c ≠ d := by
    rintro d hd rfl
    omega
  refine ⟨hne 34 (by decide), hne 92 (by decide), ?_, ?_⟩
  · rw [UInt16.lt_iff_toNat_lt]
    exact fun hlt => absurd (show c.toNat < 32 from hlt) (by omega)
  · have h20 : (0x20 : UInt16) ≤ c := UInt16.le_iff_toNat_le.mpr (show 0x20 ≤ c.toNat by omega)
    have ha0 : (0xa0 : UInt16) ≤ c := UInt16.le_iff_toNat_le.mpr (show 0xa0 ≤ c.toNat by omega)
    have hfd : c ≤ 0xfffd := UInt16.le_iff_toNat_le.mpr (show c.toNat ≤ 0xfffd by omega)
    cases version <;> simp [isPrintable, h20, ha0, hfd]

theorem readable_surrogate {c : UInt16} (h : isHigh c = true ∨ isLow c = true) :
    isReadable version c = true := by
  rw [isReadable, (not_quote_of_surrogate version h).2.2.2, Bool.or_true]

theorem readQuoted_escape {e u : UInt16} (he : e ≠ 117) (h : shortEscape e = some u)
    (rest : List UInt16) :
    readQuoted version (92 :: e :: rest) = (readQuoted version rest).map (u :: ·) := by
  conv_lhs => unfold readQuoted
  rw [if_neg (by decide), if_pos rfl]
  dsimp only
  rw [if_neg he, h]
  rfl

theorem readQuoted_unit {c : UInt16} (hquote : c ≠ 34) (hslash : c ≠ 92) (rest : List UInt16) :
    readQuoted version (c :: rest) =
      if isPrintable version c then (readQuoted version rest).map (c :: ·) else none := by
  conv_lhs => unfold readQuoted
  rw [if_neg hquote, if_neg hslash]

theorem readQuoted_unitEscape (c : UInt16) (rest : List UInt16) :
    readQuoted version (unitEscape c ++ rest) = (readQuoted version rest).map (c :: ·) := by
  show readQuoted version (92 :: 117 :: _ :: _ :: _ :: _ :: rest) = _
  conv_lhs => unfold readQuoted
  rw [if_neg (by decide), if_pos rfl]
  dsimp only
  rw [if_pos rfl, hex4_unit]
  rfl

theorem readQuoted_escaped (c : UInt16) (rest : List UInt16) :
    readQuoted version (escaped c ++ rest) =
      if isReadable version c then (readQuoted version rest).map (c :: ·) else none := by
  have hread : ∀ d : UInt16, d < 32 ∨ d = 34 ∨ d = 92 → isReadable version d = true := by
    intro d hd
    unfold isReadable
    rcases hd with hd | rfl | rfl
    · rw [decide_eq_true hd, Bool.true_or]
    · cases version <;> decide
    · cases version <;> decide
  unfold escaped
  split
  · next h =>
    have hc : c = 34 ∨ c = 92 := by simpa using h
    rw [if_pos (hread c (.inr hc))]
    refine readQuoted_escape version ?_ ?_ rest
    · rcases hc with rfl | rfl <;> decide
    · rcases hc with rfl | rfl <;> rfl
  · next h =>
    have hquote : c ≠ 34 ∧ c ≠ 92 := by simpa using h
    split
    · next h8 =>
      subst h8
      rw [if_pos (hread 8 (.inl (by decide)))]
      exact readQuoted_escape version (by decide) rfl rest
    split
    · next h12 =>
      subst h12
      rw [if_pos (hread 12 (.inl (by decide)))]
      exact readQuoted_escape version (by decide) rfl rest
    split
    · next h10 =>
      subst h10
      rw [if_pos (hread 10 (.inl (by decide)))]
      exact readQuoted_escape version (by decide) rfl rest
    split
    · next h13 =>
      subst h13
      rw [if_pos (hread 13 (.inl (by decide)))]
      exact readQuoted_escape version (by decide) rfl rest
    split
    · next h9 =>
      subst h9
      rw [if_pos (hread 9 (.inl (by decide)))]
      exact readQuoted_escape version (by decide) rfl rest
    split
    · next hunit =>
      have hc : isReadable version c = true := by
        rw [Bool.or_eq_true, Bool.or_eq_true] at hunit
        rcases hunit with (hlow | hhigh) | hlow
        · exact hread c (.inl (of_decide_eq_true hlow))
        · exact readable_surrogate version (.inl hhigh)
        · exact readable_surrogate version (.inr hlow)
      rw [if_pos hc]
      exact readQuoted_unitEscape version c rest
    · next hunit =>
      have hlow : ¬ c < 32 := by
        intro hlt
        exact hunit (by rw [decide_eq_true hlt, Bool.true_or, Bool.true_or])
      rw [List.singleton_append, readQuoted_unit version hquote.1 hquote.2, isReadable,
        decide_eq_false hlow, Bool.false_or]

/-- **What JSON writes of a text is read as the text**, if the version has what is not escaped. -/
theorem readQuoted_escapes (text : List UInt16) :
    readQuoted version (escapes text ++ [34]) =
      if text.all (isReadable version) then some text else none := by
  fun_induction escapes text with
  | case1 => rfl
  | case2 c =>
    rw [readQuoted_escaped, List.all_cons, List.all_nil, Bool.and_true]
    rfl
  | case3 c d rest hpair ih =>
    rw [Bool.and_eq_true] at hpair
    obtain ⟨hquote, hslash, -, hprint⟩ := not_quote_of_surrogate version (.inl hpair.1)
    obtain ⟨hquote', hslash', -, hprint'⟩ := not_quote_of_surrogate version (.inr hpair.2)
    have hall : (c :: d :: rest).all (isReadable version) = rest.all (isReadable version) := by
      rw [List.all_cons, List.all_cons, readable_surrogate version (.inl hpair.1),
        readable_surrogate version (.inr hpair.2), Bool.true_and, Bool.true_and]
    rw [List.cons_append, List.cons_append, readQuoted_unit version hquote hslash, if_pos hprint,
      readQuoted_unit version hquote' hslash', if_pos hprint', ih, hall]
    cases rest.all (isReadable version) <;> rfl
  | case4 c d rest hpair ih =>
    have hall : (c :: d :: rest).all (isReadable version) =
        (isReadable version c && (d :: rest).all (isReadable version)) := rfl
    rw [List.append_assoc, readQuoted_escaped, ih, hall]
    cases isReadable version c <;> cases (d :: rest).all (isReadable version) <;> rfl

theorem readScalar_stringify (text : List UInt16) :
    readScalar version (stringify text) =
      if text.all (isReadable version) then some (.str text) else none := by
  have hread : readScalar version (stringify text) =
      (readQuoted version (escapes text ++ [34])).map .str := by
    unfold readScalar stringify
    exact if_pos rfl
  rw [hread, readQuoted_escapes]
  split <;> rfl

end Stringify

end Almyty.Lib.Yaml
