import Almyty.Common.Comparison
import Almyty.Lib.Numeral

/-!
# Success conditions: `evaluateHttpSuccessCondition` in `modules/tools/tool-execution-utils.ts`

A tool can say which answers count as a success: by the status, or by comparing what stands at a
path of the data with a literal. The literal is read off the text behind the operator, which is
looked for from the front.

Only digits are read as a number, so any other numeral is compared as a text; and a condition with a
line break in its string is not a comparison, so the status decides, or one that begins inside the
string. `success_condition_iff` says that every other literal is compared as itself.

Mirroring notes:
- What is read off anything but a plain object's own entries is the engine's.
- The numbers are doubles without the sign of zero, which no comparison here sees.
-/

namespace Almyty.Tools

open Almyty.Lib Almyty.Common List Option

/-- What can stand on the right of a comparison. -/
inductive Scalar
  | undefined
  | null
  | bool (b : Bool)
  | num (n : Js.Double)
  | str (s : Text)
  deriving DecidableEq

/-- What a response holds. -/
inductive Datum (σ : Type)
  | scalar (s : Scalar)
  | nan
  /-- A plain object, by its own entries. -/
  | obj (own : List (Text × Datum σ))
  /-- An array, a function, an instance of a class. -/
  | other (value : σ)

def Datum.strictEquals {σ : Type} : Datum σ → Scalar → Bool
  | .scalar a, b => a = b
  | .nan, _ | .obj _, _ | .other _, _ => false

/-- What the JavaScript engine decides. -/
structure Runtime (σ : Type) where
  property : Datum σ → Text → Datum σ
  /-- A comparison by order of what is not two numbers. -/
  orders : Text → Datum σ → Scalar → Bool

section Evaluation

variable {σ : Type} (runtime : Runtime σ)

def Datum.readKey (curr : Datum σ) (key : Text) : Datum σ :=
  match curr with
  | .scalar .undefined | .scalar .null => .scalar .undefined
  | .obj own =>
    match own.lookup key with
    | some value => value
    | none =>
      if key ∈ Js.objectPrototype.map ascii then runtime.property curr key else .scalar .undefined
  | .scalar _ | .nan | .other _ => runtime.property curr key

def Datum.getByDotPath (obj : Datum σ) (path : Text) : Datum σ :=
  match obj with
  | .scalar .undefined | .scalar .null => .scalar .undefined
  | _ => if path = [] then .scalar .undefined else (path.splitOn 46).foldl (readKey runtime) obj

def compareConditionValues (a : Datum σ) (op : Text) (b : Scalar) : Bool :=
  let ordered (numbers : Js.Double → Js.Double → Bool) : Bool :=
    match a, b with
    | .scalar (.num m), .num n => numbers m n
    | _, _ => runtime.orders op a b
  if op = ascii "==" ∨ op = ascii "===" then a.strictEquals b
  else if op = ascii "!=" ∨ op = ascii "!==" then !a.strictEquals b
  else if op = ascii "<" then ordered fun m n => m.lt n
  else if op = ascii ">" then ordered fun m n => n.lt m
  else if op = ascii "<=" then ordered fun m n => m.le n
  else if op = ascii ">=" then ordered fun m n => n.le m
  else false

def STATUS_CONDITION : Regex CodeUnit :=
  .sequence [.text (ascii "status"), spaces,
    .group (.anyOf [orEqual "==", orEqual "!=", .text (ascii "<"), .text (ascii ">"),
      .text (ascii "<="), .text (ascii ">=")]), spaces, .group (.many true 1 Js.isDigit), .atEnd]

def digitsNumber (digits : Text) : Js.Double := Js.toDouble (Js.digitsNat digits)

def isQuote (ch : CodeUnit) : Bool := ch = 34 || ch = 39

def stripQuotes (text : Text) : Text :=
  let rest := if text.head?.any isQuote then text.drop 1 else text
  if rest.getLast?.any isQuote then rest.dropLast else rest

def expectedValue (rawVal : Text) : Scalar :=
  let expected := trim rawVal
  if expected = ascii "true" then .bool true
  else if expected = ascii "false" then .bool false
  else if expected = ascii "null" then .null
  else if expected = ascii "undefined" then .undefined
  else if expected ≠ [] ∧ expected.all Js.isDigit = true then .num (digitsNumber expected)
  else .str (stripQuotes expected)

def isSuccessStatus (status : Js.Double) : Bool :=
  Js.Double.le (.finite 200) status && status.lt (.finite 400)

def evaluateHttpSuccessCondition (condition : Text) (status : Js.Double) (data : Datum σ) : Bool :=
  let trimmed := trim condition
  match STATUS_CONDITION.captures trimmed with
  | some [op, val] =>
    compareConditionValues runtime (.scalar (.num status)) op (.num (digitsNumber val))
  | _ =>
    match matchComparison trimmed EQUALITY_OPERATORS (ascii "data.") with
    | some (path, op, rawVal) =>
      compareConditionValues runtime (data.getByDotPath runtime path) op (expectedValue rawVal)
    | none => isSuccessStatus status

end Evaluation

/-! ## Paths and literals -/

def isPlainUnit (ch : CodeUnit) : Bool := !isSpace ch && ch != 46 && ch != 61 && ch != 33

structure DotPath where
  keys : List Text
  nonempty : keys ≠ []
  plain : ∀ key ∈ keys, key ≠ [] ∧ ∀ ch ∈ key, isPlainUnit ch = true

def DotPath.text (path : DotPath) : Text := [46].intercalate path.keys

def DotPath.valueAt {σ : Type} (runtime : Runtime σ) (path : DotPath) (data : Datum σ) : Datum σ :=
  path.keys.foldl (Datum.readKey runtime) data

/-- A string of JSON that needs no escape. -/
abbrev Unescaped := { body : Text // ∀ ch ∈ body, 32 ≤ ch ∧ ch ≠ 34 ∧ ch ≠ 92 }

inductive Literal
  | null
  | bool (b : Bool)
  | number (n : Js.Numeral)
  | string (body : Unescaped)

def Literal.text : Literal → Text
  | .null => ascii "null"
  | .bool b => ascii (if b then "true" else "false")
  | .number n => n.text
  | .string body => 34 :: (body.1 ++ [34])

def Literal.value : Literal → Scalar
  | .null => .null
  | .bool b => .bool b
  | .number n => .num (Js.toDouble n.value)
  | .string body => .str body.1

def conditionText (path : DotPath) (op : String) (literal : Literal) : Text :=
  ascii "data." ++ (path.text ++ (32 :: (ascii op ++ (32 :: literal.text))))

def Compares {σ : Type} (runtime : Runtime σ) (path : DotPath) (literal : Literal)
    (status : Js.Double) (data : Datum σ) : Prop :=
  (evaluateHttpSuccessCondition runtime (conditionText path "===" literal) status data = true ↔
    path.valueAt runtime data = .scalar literal.value) ∧
  (evaluateHttpSuccessCondition runtime (conditionText path "!==" literal) status data = true ↔
    path.valueAt runtime data ≠ .scalar literal.value)

def Literal.Readable : Literal → Prop
  | .null | .bool _ => True
  | .number n => n.text.all Js.isDigit = true
  | .string body => body.1.all isDot = true

/-! ## Texts without spaces around them -/

/-- A text that neither begins nor ends with a space, and is not empty. -/
def Tight (text : Text) : Prop :=
  (∃ ch ∈ text.head?, isSpace ch = false) ∧ ∃ ch ∈ text.getLast?, isSpace ch = false

variable {text : Text}

theorem dropWhile_of_head (h : ∃ ch ∈ text.head?, isSpace ch = false) :
    text.dropWhile isSpace = text := by
  obtain ⟨ch, hhead, hspace⟩ := h
  obtain ⟨rest, rfl⟩ := List.head?_eq_some_iff.mp hhead
  exact dropWhile_cons_of_neg (by rw [hspace]; decide)

theorem Tight.trim_eq (h : Tight text) : trim text = text := by
  obtain ⟨hfirst, ch, hlast, hspace⟩ := h
  obtain ⟨front, rfl⟩ := List.getLast?_eq_some_iff.mp hlast
  rw [trim, dropWhile_of_head hfirst, rdropWhile_concat_neg]
  rw [hspace]
  decide

theorem tight_append {a b : Text} (ha : ∃ ch ∈ a.head?, isSpace ch = false)
    (hb : ∃ ch ∈ b.getLast?, isSpace ch = false) : Tight (a ++ b) := by
  obtain ⟨first, hfirst, hfirstSpace⟩ := ha
  obtain ⟨last, hlast, hlastSpace⟩ := hb
  obtain ⟨rest, rfl⟩ := List.head?_eq_some_iff.mp hfirst
  obtain ⟨front, rfl⟩ := List.getLast?_eq_some_iff.mp hlast
  refine ⟨⟨first, rfl, hfirstSpace⟩, last, ?_, hlastSpace⟩
  rw [← append_assoc, List.getLast?_concat]
  rfl

theorem numeral_units (n : Js.Numeral) :
    ∀ ch ∈ n.text, Js.isDigit ch = true ∨ ch ∈ [(43 : CodeUnit), 45, 46, 69, 101] := by
  have hsign (sign : Js.Sign) : ∀ ch ∈ sign.text, ch ∈ [(43 : CodeUnit), 45, 46, 69, 101] := by
    cases sign <;> simp [Js.Sign.text]
  intro ch hch
  unfold Js.Numeral.text at hch
  rcases mem_append.mp hch with hch | hch
  · exact .inr (hsign n.sign ch hch)
  rcases mem_append.mp hch with hch | hch
  · exact .inl (all_eq_true.mp n.whole.2 ch hch)
  rcases mem_append.mp hch with hch | hch
  · cases hfraction : n.fraction with
    | none => simp [Js.fractionText, hfraction] at hch
    | some f =>
      rw [Js.fractionText, hfraction, elim_some] at hch
      rcases mem_cons.mp hch with rfl | hch
      · exact .inr (by decide)
      · exact .inl (all_eq_true.mp f.2 ch hch)
  · cases hexponent : n.exponent with
    | none => simp [Js.exponentText, hexponent] at hch
    | some e =>
      rw [Js.exponentText, hexponent, elim_some, Js.Exponent.text] at hch
      rcases mem_cons.mp hch with rfl | hch
      · rcases e.marks with hmark | hmark <;> rw [hmark] <;> exact .inr (by decide)
      · rcases mem_append.mp hch with hch | hch
        · exact .inr (hsign e.sign ch hch)
        · exact .inl (all_eq_true.mp e.digits.2 ch hch)

theorem numeral_unit_range (n : Js.Numeral) :
    ∀ ch ∈ n.text, 43 ≤ ch.toNat ∧ ch.toNat ≤ 57 ∨ ch = 69 ∨ ch = 101 := by
  intro ch hch
  rcases numeral_units n ch hch with hdigit | hmem
  · rw [Js.isDigit, Bool.and_eq_true, decide_eq_true_eq, decide_eq_true_eq,
      UInt16.le_iff_toNat_le, UInt16.le_iff_toNat_le] at hdigit
    change 48 ≤ ch.toNat ∧ ch.toNat ≤ 57 at hdigit
    omega
  · simp only [mem_cons, not_mem_nil, or_false] at hmem
    rcases hmem with rfl | rfl | rfl | rfl | rfl <;> simp

theorem numeral_unit_plain (n : Js.Numeral) :
    ∀ ch ∈ n.text, isSpace ch = false ∧ isDot ch = true ∧ isQuote ch = false := by
  intro ch hch
  have hrange := numeral_unit_range n ch hch
  have hall : ∀ k, 43 ≤ k ∧ k ≤ 57 ∨ k = 69 ∨ k = 101 →
      isSpace (UInt16.ofNat k) = false ∧ isDot (UInt16.ofNat k) = true ∧
        isQuote (UInt16.ofNat k) = false := by
    intro k hk
    rcases hk with ⟨hlow, hhigh⟩ | rfl | rfl
    · interval_cases k <;> decide
    · decide
    · decide
  have hk := hall ch.toNat (by
    rcases hrange with hrange | rfl | rfl
    · exact .inl hrange
    · exact .inr (.inl rfl)
    · exact .inr (.inr rfl))
  rwa [UInt16.ofNat_toNat] at hk

/-! ## The search for the operator -/

def searched (text : Text) : Option (Text × Text × Text) :=
  Regex.lazyFrom isDot 1 text fun t => (afterLeft ["==", "!="] t).map fun (op, right) =>
    (text.take (text.length - t.length), op, right)

theorem matchComparison_data (text : Text) :
    matchComparison (ascii "data." ++ text) EQUALITY_OPERATORS (ascii "data.") = searched text := by
  have hops : EQUALITY_OPERATORS = operatorsOf ["==", "!="] := by decide
  have hstarts : startsWith (ascii "data." ++ text) (ascii "data.") 0 = true :=
    isPrefixOf_iff_prefix.mpr (prefix_append _ _)
  have hlen : (ascii "data." ++ text).length = text.length + 5 := by
    rw [length_append]
    exact Nat.add_comm _ _
  have hslice (t : Text) : Regex.slice (ascii "data." ++ text) 5
      ((ascii "data." ++ text).length - t.length) = text.take (text.length - t.length) := by
    rw [Regex.slice, drop_take, hlen]
    congr 1
    omega
  have hfrom := comparisonFrom_eq ["==", "!="] (ascii "data." ++ text) 5
    ((ascii "data." ++ text).length - 5) 6 (by decide) (by omega)
  rw [matchComparison, if_pos hstarts, hops]
  refine hfrom.trans ?_
  simp only [hslice]
  rfl

theorem operatorsOf_equality :
    operatorsOf ["==", "!="] = [ascii "===", ascii "==", ascii "!==", ascii "!="] := by decide

/-- A unit that neither is skipped before an operator nor begins one. -/
def Stays (ch : CodeUnit) : Prop := isSpace ch = false ∧ ch ≠ 61 ∧ ch ≠ 33

theorem afterLeft_of_stays {ch : CodeUnit} (hstays : Stays ch) (t : Text) :
    afterLeft ["==", "!="] (ch :: t) = none := by
  obtain ⟨hspace, hequals, hbang⟩ := hstays
  have hdrop : (ch :: t).dropWhile isSpace = ch :: t :=
    dropWhile_cons_of_neg (by rw [hspace]; decide)
  have hfirst : ∀ op ∈ [ascii "===", ascii "==", ascii "!==", ascii "!="],
      op.head? = some 61 ∨ op.head? = some 33 := Js.forall_mem_of_all (by decide)
  rw [afterLeft, hdrop, operatorsOf_equality, List.findSome?_eq_none_iff]
  intro op hop
  refine if_neg fun hbegins => ?_
  obtain ⟨rest, hrest⟩ := hbegins
  rcases hfirst op hop with hfirst | hfirst <;>
    obtain ⟨tail, rfl⟩ := List.head?_eq_some_iff.mp hfirst <;>
    rw [cons_append] at hrest
  · exact hequals (cons_eq_cons.mp hrest).1.symm
  · exact hbang (cons_eq_cons.mp hrest).1.symm

theorem afterLeft_operator {op : String} (hop : op = "===" ∨ op = "!==") {u right : Text}
    (hright : rightOf u = some right) :
    afterLeft ["==", "!="] (32 :: (ascii op ++ u)) = some (ascii op, right) := by
  have hspace : (32 :: (ascii op ++ u)).dropWhile isSpace = ascii op ++ u := by
    rw [dropWhile_cons_of_pos (by decide)]
    rcases hop with rfl | rfl <;> exact dropWhile_cons_of_neg (by decide)
  have htaken : (ascii op ++ u).drop (ascii op).length = u := drop_left
  rw [afterLeft, hspace, operatorsOf_equality]
  rcases hop with rfl | rfl
  · rw [List.findSome?_cons, if_pos (prefix_append _ _), htaken, hright]
    rfl
  · have hfirst : ¬ ascii "===" <+: ascii "!==" ++ u := by simp [ascii, cons_prefix_cons]
    have hsecond : ¬ ascii "==" <+: ascii "!==" ++ u := by simp [ascii, cons_prefix_cons]
    rw [List.findSome?_cons, if_neg hfirst, List.findSome?_cons, if_neg hsecond,
      List.findSome?_cons, if_pos (prefix_append _ _), htaken, hright]
    rfl

theorem isDot_of_not_space {ch : CodeUnit} (h : isSpace ch = false) : isDot ch = true := by
  by_contra hbreak
  have hmem : ch ∈ [(0x0a : CodeUnit), 0x0d, 0x2028, 0x2029] :=
    contains_iff_mem.mp (by simpa only [isDot, isLineTerminator, Bool.not_eq_true',
      Bool.not_eq_false] using hbreak)
  have hspaces : ∀ c ∈ [(0x0a : CodeUnit), 0x0d, 0x2028, 0x2029], isSpace c = true :=
    Js.forall_mem_of_all (by decide)
  rw [hspaces ch hmem] at h
  cases h

theorem path_stays (path : DotPath) : ∀ ch ∈ path.text, Stays ch := by
  intro ch hch
  have hkeys := path.plain
  unfold DotPath.text at hch
  generalize path.keys = keys at hch hkeys
  have hplain : ∀ key ∈ keys, ch ∈ key → Stays ch := by
    intro key hkey hmem
    have h := (hkeys key hkey).2 ch hmem
    simp only [isPlainUnit, Bool.and_eq_true, Bool.not_eq_true', bne_iff_ne, ne_eq] at h
    exact ⟨h.1.1.1, h.1.2, h.2⟩
  induction keys with
  | nil => simp at hch
  | cons key keys ih =>
    cases keys with
    | nil =>
      rw [intercalate_singleton] at hch
      exact hplain key mem_cons_self hch
    | cons next keys =>
      rw [intercalate_cons_cons] at hch
      rcases mem_append.mp hch with hch | hch
      · rcases mem_append.mp hch with hch | hch
        · exact hplain key mem_cons_self hch
        · rw [mem_singleton.mp hch]
          exact ⟨by decide, by decide, by decide⟩
      · exact ih hch (fun key' hkey' => hkeys key' (mem_cons_of_mem key hkey'))
          fun key' hkey' => hplain key' (mem_cons_of_mem key hkey')

theorem path_text_ne_nil (path : DotPath) : path.text ≠ [] := by
  obtain ⟨key, keys, hkeys⟩ := exists_cons_of_ne_nil path.nonempty
  have hkey := (path.plain key (by rw [hkeys]; exact mem_cons_self)).1
  unfold DotPath.text
  rw [hkeys]
  cases keys with
  | nil => rwa [intercalate_singleton]
  | cons next keys => simp [intercalate_cons_cons, hkey]

theorem searched_path (path : DotPath) (rest : Text) :
    searched (path.text ++ rest) =
      Regex.lazyFrom isDot 0 rest fun t => (afterLeft ["==", "!="] t).map fun (op, right) =>
        ((path.text ++ rest).take ((path.text ++ rest).length - t.length), op, right) := by
  have hpath := path_stays path
  refine Regex.lazyFrom_skip (length_pos_iff.mpr (path_text_ne_nil path))
    (fun ch hch => isDot_of_not_space (hpath ch hch).1) fun a' t' heq hne _ => ?_
  obtain ⟨ch, t'', rfl⟩ := exists_cons_of_ne_nil hne
  have hch : ch ∈ path.text := by
    rw [heq]
    exact mem_append_right a' mem_cons_self
  rw [cons_append, afterLeft_of_stays (hpath ch hch), map_none]

theorem rightOf_literal (hhead : ∃ ch ∈ text.head?, isSpace ch = false)
    (hdots : text.all isDot = true) : rightOf (32 :: text) = some text := by
  have hdrop : (32 :: text).dropWhile isSpace = text := by
    rw [dropWhile_cons_of_pos (by decide), dropWhile_of_head hhead]
  have hne : text ≠ [] := by
    rintro rfl
    obtain ⟨ch, hch, -⟩ := hhead
    cases hch
  rw [rightOf, hdrop]
  exact (if_pos hne).trans (if_pos hdots)

theorem searched_condition (path : DotPath) {op : String} (hop : op = "===" ∨ op = "!==")
    (hhead : ∃ ch ∈ text.head?, isSpace ch = false) (hdots : text.all isDot = true) :
    searched (path.text ++ (32 :: (ascii op ++ (32 :: text)))) =
      some (path.text, ascii op, text) := by
  have hright := rightOf_literal hhead hdots
  rw [searched_path, Regex.lazyFrom_zero, afterLeft_operator hop hright, map_some, some_or]
  have hlen : (path.text ++ (32 :: (ascii op ++ (32 :: text)))).length -
      (32 :: (ascii op ++ (32 :: text))).length = path.text.length := by
    rw [length_append, Nat.add_sub_cancel]
  rw [hlen, take_left]

/-! ## The value a literal is read as -/

theorem numeral_ne_nil (n : Js.Numeral) : n.text ≠ [] := by
  intro hnil
  unfold Js.Numeral.text at hnil
  obtain ⟨-, hrest⟩ := append_eq_nil_iff.mp hnil
  obtain ⟨hwhole, hrest⟩ := append_eq_nil_iff.mp hrest
  obtain ⟨hfraction, -⟩ := append_eq_nil_iff.mp hrest
  rcases n.some_digit with hne | ⟨f, hf, -⟩
  · exact hne hwhole
  · have hsome : n.fraction = some f := hf
    rw [hsome] at hfraction
    cases hfraction

theorem numeral_tight (n : Js.Numeral) : Tight n.text := by
  have hplain := numeral_unit_plain n
  have hne := numeral_ne_nil n
  refine ⟨⟨n.text.head hne, List.head?_eq_some_head hne, ?_⟩,
    ⟨n.text.getLast hne, List.getLast?_eq_some_getLast hne, ?_⟩⟩
  · exact (hplain _ (head_mem hne)).1
  · exact (hplain _ (getLast_mem hne)).1

theorem literal_tight (literal : Literal) : Tight literal.text := by
  cases literal with
  | null => exact ⟨⟨110, by decide, by decide⟩, 108, by decide, by decide⟩
  | bool b =>
    cases b with
    | true => exact ⟨⟨116, by decide, by decide⟩, 101, by decide, by decide⟩
    | false => exact ⟨⟨102, by decide, by decide⟩, 101, by decide, by decide⟩
  | number n => exact numeral_tight n
  | string body =>
    exact tight_append (a := [34]) ⟨34, rfl, by decide⟩ ⟨34, List.getLast?_concat, by decide⟩

theorem expectedValue_of_words
    (hwords : ∀ word ∈ ["true", "false", "null", "undefined"], trim text ≠ ascii word) :
    expectedValue text =
      if trim text ≠ [] ∧ (trim text).all Js.isDigit = true then .num (digitsNumber (trim text))
      else .str (stripQuotes (trim text)) := by
  simp only [forall_mem_cons, not_mem_nil, false_implies, implies_true, and_true] at hwords
  obtain ⟨htrue, hfalse, hnull, hundefined⟩ := hwords
  rw [expectedValue]
  simp only [htrue, hfalse, hnull, hundefined, if_false]

theorem expectedValue_quote (hlast : (trim text).getLast? = some 34) :
    expectedValue text = .str (stripQuotes (trim text)) := by
  have hwords : ∀ word ∈ ["true", "false", "null", "undefined"], (ascii word).getLast? ≠ some 34 :=
    Js.forall_mem_of_all (by decide)
  rw [expectedValue_of_words, if_neg]
  · rintro ⟨-, hdigits⟩
    exact absurd (all_eq_true.mp hdigits 34 (List.mem_of_getLast? hlast)) (by decide)
  · intro word hword heq
    rw [heq] at hlast
    exact hwords word hword hlast

theorem numeral_ne_word (n : Js.Numeral) :
    ∀ word ∈ ["true", "false", "null", "undefined"], n.text ≠ ascii word := by
  have hfirst : ∀ word ∈ ["true", "false", "null", "undefined"],
      ∃ ch ∈ ascii word, ch ∈ [(116 : CodeUnit), 102, 110, 117] := by
    simp only [forall_mem_cons, not_mem_nil, false_implies, implies_true, and_true]
    exact ⟨⟨116, by decide, by decide⟩, ⟨102, by decide, by decide⟩, ⟨110, by decide, by decide⟩,
      ⟨117, by decide, by decide⟩⟩
  intro word hword heq
  obtain ⟨ch, hch, hletter⟩ := hfirst word hword
  rw [← heq] at hch
  have hrange := numeral_unit_range n ch hch
  simp only [mem_cons, not_mem_nil, or_false] at hletter
  rcases hletter with rfl | rfl | rfl | rfl <;> revert hrange <;> decide

theorem stripQuotes_of_plain (h : ∀ ch ∈ text, isQuote ch = false) : stripQuotes text = text := by
  have hany (o : Option CodeUnit) (ho : ∀ ch ∈ o, isQuote ch = false) : o.any isQuote = false := by
    cases o with
    | none => rfl
    | some ch => exact ho ch rfl
  have hhead := hany text.head? fun ch hch => h ch (List.mem_of_mem_head? hch)
  have hlast := hany text.getLast? fun ch hch => h ch (List.mem_of_getLast? hch)
  rw [stripQuotes, hhead]
  simp only [Bool.false_eq_true, if_false, hlast]

theorem stripQuotes_quoted (body : Text) : stripQuotes (34 :: (body ++ [34])) = body := by
  show (if (body ++ [(34 : CodeUnit)]).getLast?.any isQuote then (body ++ [34]).dropLast
    else body ++ [34]) = body
  rw [List.getLast?_concat, dropLast_concat]
  exact if_pos rfl

theorem value_of_digits {n : Js.Numeral} (h : n.text.all Js.isDigit = true) :
    n.value = Js.digitsNat n.text := by
  let digits : Js.Numeral := ⟨.none, ⟨n.text, h⟩, none, none, .inl (numeral_ne_nil n)⟩
  have htext : digits.text = n.text := by
    show [] ++ (n.text ++ ([] ++ [])) = n.text
    rw [nil_append, append_nil, append_nil]
  rw [← Js.Numeral.text_injective htext]
  show ((Js.digitsNat (n.text ++ []) : Int) : Rat) * Js.power 10 (0 - ((0 : Nat) : Int)) = _
  rw [append_nil, htext]
  simp [Js.power]

theorem expectedValue_number (n : Js.Numeral) :
    expectedValue n.text =
      if n.text.all Js.isDigit = true then .num (Js.toDouble n.value) else .str n.text := by
  have htrim := (numeral_tight n).trim_eq
  rw [expectedValue_of_words (by rw [htrim]; exact numeral_ne_word n), htrim,
    stripQuotes_of_plain fun ch hch => (numeral_unit_plain n ch hch).2.2]
  by_cases hdigits : n.text.all Js.isDigit = true
  · rw [if_pos ⟨numeral_ne_nil n, hdigits⟩, if_pos hdigits, digitsNumber, value_of_digits hdigits]
  · rw [if_neg fun h => hdigits h.2, if_neg hdigits]

theorem expectedValue_string (body : Unescaped) :
    expectedValue (Literal.string body).text = .str body.1 := by
  have htrim := (literal_tight (.string body)).trim_eq
  rw [expectedValue_quote, htrim]
  · exact congrArg Scalar.str (stripQuotes_quoted body.1)
  · rw [htrim]
    exact List.getLast?_concat (l := 34 :: body.1)

/-! ## The comparison -/

section Comparison

variable {σ : Type} (runtime : Runtime σ) (path : DotPath)

theorem strictEquals_iff (a : Datum σ) (b : Scalar) : a.strictEquals b = true ↔ a = .scalar b := by
  cases a with
  | scalar | nan | obj | other => simp [Datum.strictEquals]

theorem path_splitOn : path.text.splitOn 46 = path.keys := by
  refine splitOn_intercalate 46 (fun key hkey hpoint => ?_) path.nonempty
  have hplain := (path.plain key hkey).2 46 hpoint
  revert hplain
  decide

theorem readKey_undefined (keys : List Text) :
    keys.foldl (Datum.readKey runtime) (.scalar .undefined) = .scalar .undefined := by
  induction keys with
  | nil => rfl
  | cons key keys ih => exact ih

theorem getByDotPath_path (data : Datum σ) :
    data.getByDotPath runtime path.text = path.valueAt runtime data := by
  have hread : (if path.text = [] then .scalar .undefined
      else (path.text.splitOn 46).foldl (Datum.readKey runtime) data) =
      path.valueAt runtime data := by
    rw [if_neg (path_text_ne_nil path), path_splitOn]
    rfl
  have hnullish : data = .scalar .undefined ∨ data = .scalar .null →
      path.valueAt runtime data = .scalar .undefined := by
    intro hdata
    unfold DotPath.valueAt
    obtain ⟨key, keys, hkeys⟩ := exists_cons_of_ne_nil path.nonempty
    rw [hkeys, foldl_cons]
    rcases hdata with rfl | rfl <;> exact readKey_undefined runtime keys
  cases data with
  | scalar s =>
    cases s with
    | undefined => exact (hnullish (.inl rfl)).symm
    | null => exact (hnullish (.inr rfl)).symm
    | bool b | num n | str t => exact hread
  | nan | obj own | other value => exact hread

theorem evaluate_condition (op : String) (literal : Literal) (status : Js.Double) (data : Datum σ) :
    evaluateHttpSuccessCondition runtime (conditionText path op literal) status data =
      (searched (path.text ++ (32 :: (ascii op ++ (32 :: literal.text))))).elim
        (isSuccessStatus status) fun (left, op, right) =>
          compareConditionValues runtime (data.getByDotPath runtime left) op
            (expectedValue right) := by
  have htight : Tight (conditionText path op literal) := by
    refine tight_append ⟨100, by decide, by decide⟩ ?_
    obtain ⟨-, ch, hlast, hspace⟩ := literal_tight literal
    have hlast' : literal.text.getLast? = some ch := hlast
    refine ⟨ch, ?_, hspace⟩
    simp [List.getLast?_append, List.getLast?_cons, hlast']
  have hstatus : STATUS_CONDITION.captures (conditionText path op literal) = none := by
    rw [STATUS_CONDITION, Regex.captures, Regex.run_sequence_cons, Regex.run_text, if_neg]
    intro hbegins
    obtain ⟨rest, hrest⟩ := hbegins
    have hfirst : (115 : CodeUnit) = 100 := some.inj (congrArg List.head? hrest)
    exact absurd hfirst (by decide)
  rw [evaluateHttpSuccessCondition, htight.trim_eq, hstatus, ← matchComparison_data]
  show _ = (matchComparison (conditionText path op literal) EQUALITY_OPERATORS
    (ascii "data.")).elim _ _
  cases matchComparison (conditionText path op literal) EQUALITY_OPERATORS (ascii "data.") <;> rfl

theorem compare_equal (a : Datum σ) (b : Scalar) :
    compareConditionValues runtime a (ascii "===") b = true ↔ a = .scalar b := by
  rw [compareConditionValues, if_pos (.inr rfl), strictEquals_iff]

theorem compare_unequal (a : Datum σ) (b : Scalar) :
    compareConditionValues runtime a (ascii "!==") b = true ↔ a ≠ .scalar b := by
  rw [compareConditionValues, if_neg (by decide), if_pos (.inr rfl), Bool.not_eq_true',
    ← Bool.not_eq_true, strictEquals_iff]

variable {literal : Literal} (hdots : literal.text.all isDot = true) (status : Js.Double)
  (data : Datum σ)

include hdots

theorem evaluate_equal :
    evaluateHttpSuccessCondition runtime (conditionText path "===" literal) status data = true ↔
      path.valueAt runtime data = .scalar (expectedValue literal.text) := by
  rw [evaluate_condition, searched_condition path (.inl rfl) (literal_tight literal).1 hdots,
    elim_some, ← getByDotPath_path, ← compare_equal]

theorem evaluate_unequal :
    evaluateHttpSuccessCondition runtime (conditionText path "!==" literal) status data = true ↔
      path.valueAt runtime data ≠ .scalar (expectedValue literal.text) := by
  rw [evaluate_condition, searched_condition path (.inr rfl) (literal_tight literal).1 hdots,
    elim_some, ← getByDotPath_path, ← compare_unequal]

theorem compares_iff_expected :
    Compares runtime path literal status data ↔
      (path.valueAt runtime data = .scalar (expectedValue literal.text) ↔
        path.valueAt runtime data = .scalar literal.value) := by
  rw [Compares, evaluate_equal runtime path hdots, evaluate_unequal runtime path hdots]
  simp only [ne_eq, not_iff_not, and_self]

end Comparison

/-! ## A string with a line break -/

section Broken

variable {rest : Text}

theorem dropWhile_before_quote (front rest : Text) :
    ∃ front', (front ++ 34 :: rest).dropWhile isSpace = front' ++ 34 :: rest := by
  induction front with
  | nil => exact ⟨[], dropWhile_cons_of_neg (by decide)⟩
  | cons ch front ih =>
    by_cases hspace : isSpace ch = true
    · rw [cons_append, dropWhile_cons_of_pos hspace]
      exact ih
    · exact ⟨ch :: front, dropWhile_cons_of_neg hspace⟩

theorem rightOf_broken (hbroken : ¬ (34 :: rest).all isDot = true) (front : Text) :
    rightOf (front ++ 34 :: rest) = none := by
  obtain ⟨front', hfront⟩ := dropWhile_before_quote front rest
  have hne : front' ++ 34 :: rest ≠ [] := by simp
  have hall : ¬ (front' ++ 34 :: rest).all isDot = true := by
    rw [all_append, Bool.and_eq_true]
    exact fun h => hbroken h.2
  rw [rightOf, hfront]
  exact (if_pos hne).trans (if_neg hall)

theorem afterLeft_broken (hbroken : ¬ (34 :: rest).all isDot = true) (front : Text) :
    afterLeft ["==", "!="] (front ++ 34 :: rest) = none := by
  have hquote : ∀ op ∈ [ascii "===", ascii "==", ascii "!==", ascii "!="], (34 : CodeUnit) ∉ op :=
    Js.forall_mem_of_all (by decide)
  obtain ⟨front', hfront⟩ := dropWhile_before_quote front rest
  rw [afterLeft, hfront, operatorsOf_equality, List.findSome?_eq_none_iff]
  intro op hop
  by_cases hbegins : op <+: front' ++ 34 :: rest
  · -- no operator has a quote, so it ends before the string
    have hlen : op.length ≤ front'.length := by
      by_contra hlonger
      have hfronts : front' ++ [34] <+: op := by
        refine prefix_of_prefix_length_le (prefix_append _ rest) ?_ ?_
        · rwa [append_assoc]
        · rw [length_append, length_singleton]
          omega
      exact hquote op hop (hfronts.subset (mem_append_right _ (mem_singleton_self _)))
    rw [if_pos hbegins, drop_append_of_le_length hlen, rightOf_broken hbroken, map_none]
  · rw [if_neg hbegins]

/-- Plain objects that hold a value at a path and nothing else. -/
def nested {σ : Type} (keys : List Text) (value : Datum σ) : Datum σ :=
  keys.foldr (fun key inner => .obj [(key, inner)]) value

variable {σ : Type} (runtime : Runtime σ)

theorem valueAt_nested (path : DotPath) (value : Datum σ) :
    path.valueAt runtime (nested path.keys value) = value := by
  unfold DotPath.valueAt
  generalize path.keys = keys
  induction keys with
  | nil => rfl
  | cons key keys ih =>
    have hread : Datum.readKey runtime (nested (key :: keys) value) key = nested keys value := by
      simp [nested, Datum.readKey]
    rw [foldl_cons, hread, ih]

theorem read_longer_nested {key : Text} {keys keys' : List Text} (value : Datum σ) {ending : Text}
    (hne : key ++ ending ≠ key) (hown : ∀ name ∈ Js.objectPrototype, key ++ ending ≠ ascii name) :
    (keys ++ (key ++ ending) :: keys').foldl (Datum.readKey runtime)
      (nested (keys ++ [key]) value) = .scalar .undefined := by
  induction keys with
  | nil =>
    have hread : Datum.readKey runtime (nested [key] value) (key ++ ending) =
        .scalar .undefined := by
      have hlookup : List.lookup (key ++ ending) [(key, value)] = none := by
        rw [List.lookup_cons, beq_false_of_ne hne]
        rfl
      have hmem : key ++ ending ∉ Js.objectPrototype.map ascii := by
        intro hmem
        obtain ⟨name, hname, heq⟩ := mem_map.mp hmem
        exact hown name hname heq.symm
      show (match List.lookup (key ++ ending) [(key, value)] with
        | some value => value
        | none => _) = _
      rw [hlookup]
      exact if_neg hmem
    rw [nil_append, nil_append, foldl_cons, hread, readKey_undefined]
  | cons first keys ih =>
    have hread : Datum.readKey runtime (nested (first :: keys ++ [key]) value) first =
        nested (keys ++ [key]) value := by
      simp [nested, Datum.readKey]
    show (keys ++ (key ++ ending) :: keys').foldl (Datum.readKey runtime)
      (Datum.readKey runtime (nested (first :: keys ++ [key]) value) first) = _
    rw [hread, ih]

theorem intercalate_concat_append (keys : List Text) (key ending : Text) :
    [46].intercalate (keys ++ [key]) ++ ending = [46].intercalate (keys ++ [key ++ ending]) := by
  induction keys with
  | nil => simp
  | cons first keys ih =>
    have hne (last : Text) : keys ++ [last] ≠ [] := by simp
    rw [cons_append, cons_append, intercalate_cons_of_ne_nil (hne _),
      intercalate_cons_of_ne_nil (hne _), append_assoc, ih]

theorem splitOn_longer {path : DotPath} {keys : List Text} {key : Text}
    (hkeys : path.keys = keys ++ [key]) (ending : Text) :
    ∃ keys', (path.text ++ ending).splitOn 46 =
      keys ++ (key ++ ending.takeWhile (· != 46)) :: keys' := by
  have hpoints : ∀ k ∈ keys ++ [key], (46 : CodeUnit) ∉ k := by
    intro k hk hpoint
    rw [← hkeys] at hk
    have hplain := (path.plain k hk).2 46 hpoint
    revert hplain
    decide
  have htaken : (46 : CodeUnit) ∉ ending.takeWhile (· != 46) := by
    intro hpoint
    have htrue := mem_takeWhile_imp hpoint
    revert htrue
    decide
  have hsplit : (path.text ++ ending.takeWhile (· != 46)).splitOn 46 =
      keys ++ [key ++ ending.takeWhile (· != 46)] := by
    rw [DotPath.text, hkeys, intercalate_concat_append]
    refine splitOn_intercalate 46 (fun k hk => ?_) (by simp)
    rcases mem_append.mp hk with hk | hk
    · exact hpoints k (mem_append_left _ hk)
    · rw [mem_singleton.mp hk]
      intro hmem
      rcases mem_append.mp hmem with hmem | hmem
      · exact hpoints key (by simp) hmem
      · exact htaken hmem
  have hending : ending.takeWhile (· != 46) ++ ending.dropWhile (· != 46) = ending :=
    takeWhile_append_dropWhile
  cases hrest : ending.dropWhile (· != 46) with
  | nil =>
    rw [hrest, append_nil] at hending
    rw [hending] at hsplit ⊢
    exact ⟨[], hsplit⟩
  | cons ch later =>
    have hch : ch = 46 := by
      have hnot := head_dropWhile_not (· != (46 : CodeUnit)) (l := ending) (by simp [hrest])
      simpa [hrest] using hnot
    refine ⟨later.splitOn 46, ?_⟩
    conv_lhs => rw [← hending, hrest, hch, ← append_assoc]
    rw [splitOn_append_cons_self, hsplit, append_assoc]
    rfl

theorem getByDotPath_longer (path : DotPath) (value : Datum σ) (ending : Text) :
    (nested path.keys value).getByDotPath runtime (path.text ++ 32 :: ending) =
      .scalar .undefined := by
  have hspaced : ∀ name ∈ Js.objectPrototype, (32 : CodeUnit) ∉ ascii name :=
    Js.forall_mem_of_all (by decide)
  obtain ⟨keys, key, hkeys⟩ : ∃ keys key, path.keys = keys ++ [key] :=
    ⟨_, _, (dropLast_append_getLast path.nonempty).symm⟩
  obtain ⟨keys', hsplit⟩ := splitOn_longer hkeys (32 :: ending)
  have htaken : (32 :: ending).takeWhile (· != 46) = 32 :: ending.takeWhile (· != 46) :=
    takeWhile_cons_of_pos (by decide)
  rw [htaken] at hsplit
  have hread : ((path.text ++ 32 :: ending).splitOn 46).foldl (Datum.readKey runtime)
      (nested path.keys value) = .scalar .undefined := by
    rw [hsplit, hkeys]
    refine read_longer_nested runtime value (fun heq => ?_) fun name hname heq => ?_
    · have hlen := congrArg List.length heq
      rw [length_append, length_cons] at hlen
      omega
    · refine hspaced name hname ?_
      rw [← heq]
      exact mem_append_right key mem_cons_self
  have hobj : ∃ own, nested path.keys value = .obj own := by
    obtain ⟨first, later, hlater⟩ := exists_cons_of_ne_nil path.nonempty
    exact ⟨_, by rw [hlater]; rfl⟩
  obtain ⟨own, hown⟩ := hobj
  rw [hown] at hread ⊢
  exact (if_neg (by simp)).trans hread

/-- What the search finds inside the string, by the length of what is left there. -/
def foundInside (text : Text) : Option (Nat × Text × Text) :=
  Regex.lazyFrom isDot 0 text fun t =>
    (afterLeft ["==", "!="] t).map fun (op, right) => (t.length, op, right)

theorem searched_broken (path : DotPath) {op : String} (hop : op = "===" ∨ op = "!==")
    (hbroken : ¬ (34 :: rest).all isDot = true) :
    searched (path.text ++ (32 :: (ascii op ++ (32 :: 34 :: rest)))) =
      (foundInside (34 :: rest)).map fun (left, op', right) =>
        ((path.text ++ (32 :: (ascii op ++ (32 :: 34 :: rest)))).take
          ((path.text ++ (32 :: (ascii op ++ (32 :: 34 :: rest)))).length - left), op', right) := by
  have hfront : path.text ++ (32 :: (ascii op ++ (32 :: 34 :: rest))) =
      (path.text ++ (32 :: (ascii op ++ [32]))) ++ 34 :: rest := by simp
  have hdots : ∀ ch ∈ path.text ++ (32 :: (ascii op ++ [32])), isDot ch = true := by
    intro ch hch
    rcases mem_append.mp hch with hch | hch
    · exact isDot_of_not_space (path_stays path ch hch).1
    · have hall : ∀ c ∈ 32 :: (ascii op ++ [32]), isDot c = true := by
        rcases hop with rfl | rfl <;> exact Js.forall_mem_of_all (by decide)
      exact hall ch hch
  rw [hfront, searched]
  refine (Regex.lazyFrom_skip ?_ hdots fun a' t' _ _ _ => ?_).trans ?_
  · rw [length_append, length_cons]
    omega
  · rw [afterLeft_broken hbroken, map_none]
  · rw [foundInside, Regex.lazyFrom_map]
    simp only [Option.map_map]
    rfl

theorem foundInside_le {text op right : Text} {left : Nat}
    (h : foundInside text = some (left, op, right)) : left ≤ text.length := by
  obtain ⟨t, hsuffix, ht⟩ := Regex.exists_suffix_of_lazyFrom h
  obtain ⟨found, -, heq⟩ := map_eq_some_iff.mp ht
  obtain ⟨rfl, -⟩ := Prod.mk.inj heq
  exact hsuffix.length_le

theorem evaluate_broken (path : DotPath) {op : String} (hop : op = "===" ∨ op = "!==")
    {body : Unescaped} (hbroken : ¬ (Literal.string body).text.all isDot = true)
    (status : Js.Double) (value : Datum σ) :
    evaluateHttpSuccessCondition runtime (conditionText path op (.string body)) status
        (nested path.keys value) =
      (foundInside (Literal.string body).text).elim (isSuccessStatus status) fun (_, op', right) =>
        compareConditionValues runtime (.scalar .undefined) op' (expectedValue right) := by
  have hsearched := searched_broken path hop hbroken
  rw [evaluate_condition]
  show (searched (path.text ++ (32 :: (ascii op ++ (32 :: 34 :: (body.1 ++ [34])))))).elim _ _ =
    (foundInside (34 :: (body.1 ++ [34]))).elim _ _
  rw [hsearched, elim_map]
  cases hfound : foundInside (34 :: (body.1 ++ [34])) with
  | none => rfl
  | some found =>
    obtain ⟨left, op', right⟩ := found
    have hleft := foundInside_le hfound
    -- the path that is read goes on behind the first space
    have htake : ∃ ending, (path.text ++ (32 :: (ascii op ++ (32 :: 34 :: (body.1 ++ [34]))))).take
        ((path.text ++ (32 :: (ascii op ++ (32 :: 34 :: (body.1 ++ [34]))))).length - left) =
        path.text ++ 32 :: ending := by
      have hlen :
          (path.text ++ (32 :: (ascii op ++ (32 :: 34 :: (body.1 ++ [34]))))).length - left =
          path.text.length + ((ascii op).length + 1 + (body.1.length + 2 - left) + 1) := by
        simp only [length_append, length_cons, length_nil] at hleft ⊢
        omega
      rw [hlen, take_length_add_append, take_succ_cons]
      exact ⟨_, rfl⟩
    obtain ⟨ending, hending⟩ := htake
    show compareConditionValues runtime ((nested path.keys value).getByDotPath runtime
      ((path.text ++ (32 :: (ascii op ++ (32 :: 34 :: (body.1 ++ [34]))))).take
        ((path.text ++ (32 :: (ascii op ++ (32 :: 34 :: (body.1 ++ [34]))))).length - left))) op'
      (expectedValue right) = _
    rw [hending, getByDotPath_longer]
    rfl

theorem not_compares_broken (path : DotPath) {body : Unescaped}
    (hbroken : ¬ (Literal.string body).text.all isDot = true) (status : Js.Double)
    (value : Datum σ) :
    ¬ Compares runtime path (.string body) status (nested path.keys value) := by
  rintro ⟨hequal, hunequal⟩
  rw [evaluate_broken runtime path (.inl rfl) hbroken] at hequal
  rw [evaluate_broken runtime path (.inr rfl) hbroken] at hunequal
  rw [hequal] at hunequal
  exact iff_not_self hunequal

end Broken

/-! ## Which literals are compared as themselves -/

section Literals

variable {σ : Type} (runtime : Runtime σ) (path : DotPath) (literal : Literal)

theorem string_of_broken (hbroken : ¬ literal.text.all isDot = true) :
    ∃ body, literal = .string body ∧ ¬ body.1.all isDot = true := by
  cases literal with
  | null => exact absurd (by decide) hbroken
  | bool b => cases b <;> exact absurd (by decide) hbroken
  | number n =>
    exact absurd (all_eq_true.mpr fun ch hch => (numeral_unit_plain n ch hch).2.1) hbroken
  | string body =>
    refine ⟨body, rfl, fun hbody => hbroken ?_⟩
    show (34 :: (body.1 ++ [34])).all isDot = true
    rw [all_cons, all_append, hbody]
    decide

theorem compares_iff_readable (hdots : literal.text.all isDot = true) (status : Js.Double)
    (data : Datum σ) :
    Compares runtime path literal status data ↔
      literal.Readable ∨ (path.valueAt runtime data ≠ .scalar literal.value ∧
        path.valueAt runtime data ≠ .scalar (.str literal.text)) := by
  rw [compares_iff_expected runtime path hdots status data]
  cases literal with
  | null => exact iff_of_true Iff.rfl (.inl trivial)
  | bool b => cases b <;> exact iff_of_true Iff.rfl (.inl trivial)
  | string body =>
    rw [expectedValue_string]
    refine iff_of_true Iff.rfl (.inl ?_)
    have hbody : (34 :: (body.1 ++ [34])).all isDot = true := hdots
    rw [all_cons, all_append, Bool.and_eq_true, Bool.and_eq_true] at hbody
    exact hbody.2.1
  | number n =>
    show (path.valueAt runtime data = .scalar (expectedValue n.text) ↔ _) ↔ _
    rw [expectedValue_number]
    by_cases hdigits : n.text.all Js.isDigit = true
    · rw [if_pos hdigits]
      exact iff_of_true Iff.rfl (.inl hdigits)
    · rw [if_neg hdigits]
      show (path.valueAt runtime data = .scalar (.str n.text) ↔
        path.valueAt runtime data = .scalar (.num (Js.toDouble n.value))) ↔
        n.text.all Js.isDigit = true ∨
          (path.valueAt runtime data ≠ .scalar (.num (Js.toDouble n.value)) ∧
            path.valueAt runtime data ≠ .scalar (.str n.text))
      constructor
      · intro hsame
        -- no value is the number and its text
        refine .inr ⟨fun hnum => ?_, fun hstr => ?_⟩
        · have hboth := (hsame.mpr hnum).symm.trans hnum
          cases hboth
        · have hboth := hstr.symm.trans (hsame.mp hstr)
          cases hboth
      · intro h
        obtain ⟨hnum, hstr⟩ := h.resolve_left hdigits
        exact iff_of_false hstr hnum

/-- **A condition compares the value at its path with its literal**, unless that is a numeral of
more than digits or a string with a line break. -/
theorem success_condition_iff :
    ((∀ (status : Js.Double) (data : Datum σ), Compares runtime path literal status data) ↔
      literal.Readable) ∧
    (literal.text.all isDot = true → ∀ (status : Js.Double) (data : Datum σ),
      (Compares runtime path literal status data ↔
        literal.Readable ∨ (path.valueAt runtime data ≠ .scalar literal.value ∧
          path.valueAt runtime data ≠ .scalar (.str literal.text)))) := by
  refine ⟨⟨fun hall => ?_, fun hread status data => ?_⟩,
    fun hdots => compares_iff_readable runtime path literal hdots⟩
  · by_cases hdots : literal.text.all isDot = true
    · -- an object that holds the literal's value there
      have hhere := hall (.finite 200) (nested path.keys (.scalar literal.value))
      rw [compares_iff_readable runtime path literal hdots, valueAt_nested] at hhere
      exact hhere.resolve_right fun h => h.1 rfl
    · obtain ⟨body, rfl, -⟩ := string_of_broken literal hdots
      exact absurd (hall (.finite 200) (nested path.keys .nan))
        (not_compares_broken runtime path hdots _ _)
  · have hdots : literal.text.all isDot = true := by
      by_contra hbroken
      obtain ⟨body, rfl, hbody⟩ := string_of_broken literal hbroken
      exact hbody hread
    exact (compares_iff_readable runtime path literal hdots status data).mpr (.inl hread)

end Literals

/-! ## A negative number -/

def bareRuntime : Runtime Empty where
  property _ _ := .scalar .undefined
  orders _ _ _ := false

def balance : DotPath where
  keys := [ascii "balance"]
  nonempty := by decide
  plain key hkey := by
    obtain rfl := mem_singleton.mp hkey
    exact ⟨by decide, Js.forall_mem_of_all (by decide)⟩

def minusOne : Js.Numeral := ⟨.minus, ⟨ascii "1", by decide⟩, none, none, .inl (by decide)⟩

/-- The balance is -1, and the condition that says so does not hold. -/
theorem minus_one_is_no_number :
    conditionText balance "===" (.number minusOne) = ascii "data.balance === -1" ∧
      evaluateHttpSuccessCondition bareRuntime (ascii "data.balance === -1") (.finite 200)
        (.obj [(ascii "balance", .scalar (Literal.number minusOne).value)]) = false ∧
      ¬ Compares bareRuntime balance (.number minusOne) (.finite 200)
        (.obj [(ascii "balance", .scalar (Literal.number minusOne).value)]) := by
  have htext : conditionText balance "===" (.number minusOne) = ascii "data.balance === -1" := by
    decide
  have hvalue : balance.valueAt bareRuntime
      (.obj [(ascii "balance", .scalar (Literal.number minusOne).value)]) =
      .scalar (Literal.number minusOne).value := valueAt_nested bareRuntime balance _
  have hnot : ¬ Compares bareRuntime balance (.number minusOne) (.finite 200)
      (.obj [(ascii "balance", .scalar (Literal.number minusOne).value)]) := by
    rw [compares_iff_readable bareRuntime balance (.number minusOne) (by decide)]
    rintro (hdigits | hother)
    · exact Bool.false_ne_true hdigits
    · exact hother.1 hvalue
  refine ⟨htext, ?_, hnot⟩
  rw [← htext, ← Bool.not_eq_true, evaluate_equal bareRuntime balance (by decide), hvalue]
  have hexpected : expectedValue (Literal.number minusOne).text = .str (ascii "-1") := by decide
  rw [hexpected]
  intro h
  cases h

end Almyty.Tools
