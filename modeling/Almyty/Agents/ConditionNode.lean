import Almyty.Common.Comparison
import Almyty.Common.MethodCondition
import Almyty.Lib.Numeral

/-!
# Condition nodes: `executeConditionNode` in `modules/agents/agent-node-executor.ts`

A condition node resolves the references of its expression and reads the text it gets as a method
call, a comparison or a truth value. Two operands are compared as numbers when `parseFloat` reads a
number off both, and it reads one off every text that begins with one: `equality_exact` says which
pairs of operands that makes equal although they are not the same text and not numerals of one
value.
-/

namespace Almyty.Agents

open Almyty.Lib Almyty.Common List

def unescaped (quote : CodeUnit) : Text → Option Text
  | [] => some []
  | [char] => if char = quote then none else some [char]
  | char :: next :: rest =>
    if char = 92 ∧ (next = quote ∨ next = 92) then (unescaped quote rest).map (next :: ·)
    else if char = quote then none
    else (unescaped quote (next :: rest)).map (char :: ·)

/-- Unwrap a well-formed quoted string literal. -/
def unquoteLiteral (value : Text) : Text :=
  match value with
  | quote :: second :: rest =>
    if (quote ≠ 39 ∧ quote ≠ 34) ∨ (second :: rest).getLast? ≠ some quote then value
    else (unescaped quote (second :: rest).dropLast).getD value
  | _ => value

structure Leading where
  before : Text
  /-- The number as it is written; nothing for `Infinity`. -/
  value : Option Rat
  double : Js.Double
  after : Text

def infinityText : Text := ascii "Infinity"

def leading (text : Text) : Option Leading :=
  let before := text.takeWhile isSpace
  match Js.readNumeral (text.dropWhile isSpace) with
  | some (numeral, after) => some ⟨before, some numeral.value, Js.toDouble numeral.value, after⟩
  | none =>
    let signed := Js.readSign (text.dropWhile isSpace)
    if infinityText <+: signed.2 then
      some ⟨before, none, if signed.1 = .minus then .negInfinity else .infinity,
        signed.2.drop infinityText.length⟩
    else none

def parseFloat (value : Text) : Option Js.Double := (leading value).map Leading.double

def textLt : Text → Text → Bool
  | [], b => !b.isEmpty
  | _ :: _, [] => false
  | c :: a, d :: b => c < d || (c = d && textLt a b)

def includes (a b : Text) : Bool := (a.tails.any fun rest => b.isPrefixOf rest)

/-- What a template resolves to. -/
inductive Value
  | text (text : Text)
  /-- What is no text, as `String` shows it and as a truth value. -/
  | other (shown : Text) (truthy : Bool)

def Value.truthy : Value → Bool
  | .text t => t ≠ []
  | .other _ counts => counts

def Value.string : Value → Text
  | .text t => t
  | .other shown _ => shown

structure NodeConfig where
  /-- `undefined` is no text and not truthy. -/
  expression : Value := .other (ascii "undefined") false

structure AgentPipelineNode where
  id : Text
  data : Option NodeConfig := none
  config : Option NodeConfig := none

def AgentPipelineNode.nodeConfig (node : AgentPipelineNode) : NodeConfig :=
  (node.data.or node.config).getD {}

/-- The `switch` over the operators of a comparison. -/
def compare (op lVal rVal : Text) (resolved : Value) : Bool :=
  let choose (numeric : Js.Double → Js.Double → Bool) (textual : Bool) : Bool :=
    match parseFloat lVal, parseFloat rVal with
    | some lNum, some rNum => numeric lNum rNum
    | _, _ => textual
  if op = ascii "==" ∨ op = ascii "===" then choose (fun l r => l = r) (lVal = rVal)
  else if op = ascii "!=" ∨ op = ascii "!==" then choose (fun l r => l ≠ r) (lVal ≠ rVal)
  else if op = ascii ">" then choose (fun l r => r.lt l) (textLt rVal lVal)
  else if op = ascii "<" then choose (fun l r => l.lt r) (textLt lVal rVal)
  else if op = ascii ">=" then choose (fun l r => r.le l) (!textLt lVal rVal)
  else if op = ascii "<=" then choose (fun l r => l.le r) (!textLt rVal lVal)
  else resolved.truthy

def toLower (text : Text) : Text := text.map fun ch => if 65 ≤ ch ∧ ch ≤ 90 then ch + 32 else ch

def falseWords : List Text := ["", "false", "0", "null", "undefined"].map ascii

def answer (node : AgentPipelineNode) (resolved : Value) : Except Text Bool :=
  let resolvedStr := resolved.string
  match matchMethodCondition resolvedStr with
  | some (negate, receiver, method, rawArg) =>
    let haystack := unquoteLiteral (trim receiver)
    let needle := unquoteLiteral (trim rawArg)
    let matched :=
      if method = ascii "includes" then includes haystack needle
      else if method = ascii "startsWith" then startsWith haystack needle 0
      else endsWith haystack needle
    .ok (if negate = ascii "!" then !matched else matched)
  | none =>
    match matchComparison resolvedStr COMPARISON_OPERATORS [] with
    | some (left, op, right) =>
      .ok (compare op (unquoteLiteral (trim left)) (unquoteLiteral (trim right)) resolved)
    | none =>
      if looksLikeMethodCall resolvedStr then
        .error (ascii "Condition node '" ++ node.id ++
          ascii "' uses an expression this engine cannot evaluate: '" ++ resolvedStr ++
          ascii "'. Supported operators are ==, ===, !=, !==, >, <, >=, <=, " ++
          ascii "includes(), startsWith() and endsWith().")
      else
        match resolved with
        | .text _ => .ok (!falseWords.contains (trim (toLower resolvedStr)))
        | .other _ truthy => .ok truthy

def executeConditionNode (resolve : Value → Except Text Value) (node : AgentPipelineNode) :
    Except Text Bool :=
  let expression := node.nodeConfig.expression
  if expression.truthy then (resolve expression).bind (answer node)
  else .error (ascii "Condition node '" ++ node.id ++ ascii "' is missing 'expression' in config")

/-! ## Quotes -/

inductive Escapes (quote : CodeUnit) : Text → Text → Prop
  | nil : Escapes quote [] []
  | escape {next : CodeUnit} {body inner : Text} (hnext : next = quote ∨ next = 92)
      (h : Escapes quote body inner) : Escapes quote (92 :: next :: body) (next :: inner)
  | plain {char : CodeUnit} {body inner : Text} (hchar : char ≠ quote)
      (hescape : char = 92 → ∀ next ∈ body.head?, next ≠ quote ∧ next ≠ 92)
      (h : Escapes quote body inner) : Escapes quote (char :: body) (char :: inner)

theorem unescaped_of_escapes {quote : CodeUnit} {body inner : Text} (h : Escapes quote body inner) :
    unescaped quote body = some inner := by
  induction h with
  | nil => rfl
  | escape hnext _ ih => rw [unescaped, if_pos ⟨rfl, hnext⟩, ih, Option.map_some]
  | @plain char body inner hchar hescape hrest ih =>
    cases body with
    | nil =>
      obtain rfl : [] = inner := Option.some.inj ih
      rw [unescaped, if_neg hchar]
    | cons next body =>
      have hnot : ¬ (char = 92 ∧ (next = quote ∨ next = 92)) := by
        rintro ⟨rfl, hnext⟩
        obtain ⟨hquote, hslash⟩ := hescape rfl next rfl
        exact hnext.elim hquote hslash
      rw [unescaped, if_neg hnot, if_neg hchar, ih, Option.map_some]

theorem escapes_of_unescaped {quote : CodeUnit} {body inner : Text}
    (h : unescaped quote body = some inner) : Escapes quote body inner := by
  induction body using unescaped.induct quote generalizing inner with
  | case1 =>
    obtain rfl : [] = inner := Option.some.inj h
    exact .nil
  | case2 =>
    rw [unescaped, if_pos rfl] at h
    cases h
  | case3 char hchar =>
    rw [unescaped, if_neg hchar] at h
    obtain rfl : [char] = inner := Option.some.inj h
    exact .plain hchar (fun _ next hnext => by cases hnext) .nil
  | case4 char next rest hescape ih =>
    rw [unescaped, if_pos hescape] at h
    obtain ⟨inner, hinner, rfl⟩ := Option.map_eq_some_iff.mp h
    rw [hescape.1]
    exact .escape hescape.2 (ih hinner)
  | case5 next rest hescape =>
    rw [unescaped, if_neg hescape, if_pos rfl] at h
    cases h
  | case6 char next rest hescape hchar ih =>
    rw [unescaped, if_neg hescape, if_neg hchar] at h
    obtain ⟨inner, hinner, rfl⟩ := Option.map_eq_some_iff.mp h
    refine .plain hchar (fun hslash next' hnext => ?_) (ih hinner)
    obtain rfl : next = next' := Option.some.inj hnext
    exact ⟨fun hquote => hescape ⟨hslash, .inl hquote⟩, fun hback => hescape ⟨hslash, .inr hback⟩⟩

def Quoted (value inner : Text) : Prop :=
  ∃ quote body, (quote = 39 ∨ quote = 34) ∧ value = quote :: (body ++ [quote]) ∧
    Escapes quote body inner

/-- A text without one well-formed pair of quotes, where it has one. -/
def Bare (value bare : Text) : Prop :=
  Quoted value bare ∨ (bare = value ∧ ∀ inner, ¬ Quoted value inner)

theorem unquoteLiteral_of_quoted {value inner : Text} (h : Quoted value inner) :
    unquoteLiteral value = inner := by
  obtain ⟨quote, body, hquote, rfl, hbody⟩ := h
  obtain ⟨second, rest, hrest⟩ : ∃ second rest, body ++ [quote] = second :: rest :=
    exists_cons_of_ne_nil (by simp)
  have hlast : (second :: rest).getLast? = some quote := by rw [← hrest]; simp
  have hdrop : (second :: rest).dropLast = body := by rw [← hrest]; simp
  have hcond : ¬ ((quote ≠ 39 ∧ quote ≠ 34) ∨ (second :: rest).getLast? ≠ some quote) := by
    rintro (⟨hsingle, hdouble⟩ | hne)
    · exact hquote.elim hsingle hdouble
    · exact hne hlast
  rw [hrest, unquoteLiteral, if_neg hcond, hdrop, unescaped_of_escapes hbody, Option.getD_some]

theorem bare_iff {value bare : Text} : Bare value bare ↔ unquoteLiteral value = bare := by
  have hself : (∀ inner, ¬ Quoted value inner) → unquoteLiteral value = value := by
    intro hnone
    unfold unquoteLiteral
    split
    · next quote second rest =>
      split
      · rfl
      · next hcond =>
        obtain ⟨hmarks, hlast⟩ := not_or.mp hcond
        cases hbody : unescaped quote (second :: rest).dropLast with
        | none => rfl
        | some inner =>
          refine absurd ⟨quote, _, ?_, ?_, escapes_of_unescaped hbody⟩ (hnone inner)
          · by_cases hsingle : quote = 39
            · exact .inl hsingle
            · exact .inr (not_not.mp fun hdouble => hmarks ⟨hsingle, hdouble⟩)
          · rw [List.dropLast_append_getLast? quote (not_not.mp hlast)]
    · rfl
  constructor
  · rintro (hquoted | ⟨rfl, hnone⟩)
    · exact unquoteLiteral_of_quoted hquoted
    · exact hself hnone
  · rintro rfl
    by_cases hquoted : ∃ inner, Quoted value inner
    · obtain ⟨inner, hinner⟩ := hquoted
      rw [unquoteLiteral_of_quoted hinner]
      exact .inl hinner
    · have hnone : ∀ inner, ¬ Quoted value inner := fun inner h => hquoted ⟨inner, h⟩
      exact .inr ⟨hself hnone, hnone⟩

/-! ## Operands -/

structure Operand (t : Text) : Prop where
  line : ∀ ch ∈ t, isDot ch = true
  no_operator : ∀ op ∈ COMPARISON_OPERATORS, ¬ op <:+: t
  no_call : ∀ name ∈ METHOD_CALLS, ¬ callText name <:+: t

theorem includes_iff (a b : Text) : includes a b = true ↔ b <:+: a := by
  unfold includes
  rw [any_eq_true]
  constructor
  · rintro ⟨rest, hrest, hfront⟩
    exact (List.isPrefixOf_iff_prefix.mp hfront).isInfix.trans ((mem_tails ..).mp hrest).isInfix
  · rintro ⟨before, after, rfl⟩
    refine ⟨b ++ after, (mem_tails ..).mpr ⟨before, ?_⟩, isPrefixOf_iff_prefix.mpr ?_⟩
    · rw [append_assoc]
    · exact prefix_append _ _

instance (t : Text) : Decidable (Operand t) :=
  decidable_of_iff ((t.all isDot && COMPARISON_OPERATORS.all fun op => !includes t op) &&
      METHOD_CALLS.all fun name => !includes t (callText name)) (by
    simp only [Bool.and_eq_true, all_eq_true, Bool.not_eq_true', ← Bool.not_eq_true, includes_iff]
    exact ⟨fun h => ⟨h.1.1, h.1.2, h.2⟩, fun h => ⟨⟨h.line, h.no_operator⟩, h.no_call⟩⟩)

def expressionOf (l op r : Text) : Text := l ++ 32 :: (op ++ 32 :: r)

variable {op : Text}

theorem operator_ne_space (hop : op ∈ COMPARISON_OPERATORS) :
    ∀ c ∈ op, isSpace c = false := by
  have hall : ∀ op ∈ COMPARISON_OPERATORS, op.all (fun c => !isSpace c) = true :=
    Js.forall_mem_of_all (by decide)
  intro c hc
  simpa using all_eq_true.mp (hall op hop) c hc

theorem trim_append_spaces (a : Text) {b : Text} (hb : ∀ c ∈ b, isSpace c = true) :
    trim (a ++ b) = trim a := by
  unfold trim
  rw [dropWhile_append]
  split
  · next hnil =>
    have ha : a.dropWhile isSpace = [] := List.isEmpty_iff.mp hnil
    rw [dropWhile_eq_nil_iff.mpr hb, ha]
  · induction b using List.reverseRecOn with
    | nil => rw [append_nil]
    | append_singleton b c ih =>
      rw [← append_assoc, rdropWhile_concat_pos _ _ _ (hb c (by simp))]
      exact ih fun d hd => hb d (mem_append_left _ hd)

theorem trim_dropWhile (a : Text) : trim (a.dropWhile isSpace) = trim a := by
  unfold trim
  rw [dropWhile_idempotent]

theorem rightOf_operand {r : Text} (hr : ∀ ch ∈ r, isDot ch = true) :
    ∃ right, rightOf (32 :: r) = some right ∧ trim right = trim r := by
  have hspace : isSpace 32 = true := by decide
  have hdot : ∀ ch ∈ (32 : CodeUnit) :: r, isDot ch = true := by
    intro ch hch
    rcases mem_cons.mp hch with rfl | hch
    · decide
    · exact hr ch hch
  unfold rightOf
  dsimp only
  rw [dropWhile_cons_of_pos hspace]
  by_cases hrest : r.dropWhile isSpace = []
  · -- only spaces are left, and the last of them is the right side
    have hspaces : ∀ c ∈ (32 : CodeUnit) :: r, isSpace c = true := by
      intro c hc
      rcases mem_cons.mp hc with rfl | hc
      · exact hspace
      · exact dropWhile_eq_nil_iff.mp hrest c hc
    obtain ⟨ch, hlast⟩ : ∃ ch, ((32 : CodeUnit) :: r).getLast? = some ch :=
      ⟨_, List.getLast?_eq_some_getLast (cons_ne_nil _ _)⟩
    have hmem : ch ∈ (32 : CodeUnit) :: r := List.mem_of_getLast? hlast
    refine ⟨[ch], ?_, ?_⟩
    · rw [if_neg (not_not.mpr hrest), hlast, Option.bind_some, if_pos (hdot ch hmem)]
    · have hch := trim_append_spaces [] (b := [ch])
        fun c hc => by rw [mem_singleton.mp hc]; exact hspaces ch hmem
      have hrspaces := trim_append_spaces [] (b := r)
        fun c hc => hspaces c (mem_cons_of_mem _ hc)
      rw [nil_append] at hch hrspaces
      rw [hch, hrspaces]
  · have hall : (r.dropWhile isSpace).all isDot = true :=
      all_eq_true.mpr fun c hc => hr c ((dropWhile_suffix _).subset hc)
    exact ⟨_, by rw [if_pos hrest, if_pos hall], trim_dropWhile r⟩

theorem afterLeft_operator (hop : op ∈ EQUALITY_OPERATORS) {r right : Text}
    (hright : rightOf (32 :: r) = some right) {b : Text} (hb : ∀ c ∈ b, isSpace c = true) :
    afterLeft ["==", "!=", ">", "<"] (b ++ (op ++ 32 :: r)) = some (op, right) := by
  have hlist : EQUALITY_OPERATORS = [[61, 61, 61], [61, 61], [33, 61, 61], [33, 61]] := by decide
  have hops : operatorsOf ["==", "!=", ">", "<"] =
      [[61, 61, 61], [61, 61], [33, 61, 61], [33, 61], [62, 61], [62], [60, 61], [60]] := by decide
  have hequals : isSpace 61 = false := by decide
  have hbang : isSpace 33 = false := by decide
  unfold afterLeft
  rw [dropWhile_append_of_pos hb, hops]
  rw [hlist] at hop
  simp only [mem_cons, not_mem_nil, or_false] at hop
  rcases hop with rfl | rfl | rfl | rfl <;> simp [hequals, hbang, hright]

theorem afterLeft_inside {c w : Text} (hno : ∀ op ∈ COMPARISON_OPERATORS, ¬ op <:+: c)
    (hc : c.dropWhile isSpace ≠ []) : afterLeft ["==", "!=", ">", "<"] (c ++ 32 :: w) = none := by
  have hops : operatorsOf ["==", "!=", ">", "<"] = COMPARISON_OPERATORS := by decide
  unfold afterLeft
  dsimp only
  rw [hops, List.findSome?_eq_none_iff]
  intro op hop
  refine if_neg fun hfront => ?_
  have hempty : (c.dropWhile isSpace).isEmpty = false := by
    rw [Bool.eq_false_iff, Ne, List.isEmpty_iff]
    exact hc
  rw [dropWhile_append, hempty, if_neg Bool.false_ne_true] at hfront
  have hspace : (32 : CodeUnit) ∉ op := fun hmem =>
    absurd (operator_ne_space hop 32 hmem) (by decide)
  exact hno op hop ((Js.prefix_of_separated hspace hfront).isInfix.trans
    (dropWhile_suffix isSpace).isInfix)

theorem matchComparison_eq (s : Text) : matchComparison s COMPARISON_OPERATORS [] =
    Regex.lazyFrom isDot 1 s fun t =>
      (afterLeft ["==", "!=", ">", "<"] t).map fun (op, right) =>
        (Regex.slice s 0 (s.length - t.length), op, right) := by
  have hops : COMPARISON_OPERATORS = operatorsOf ["==", "!=", ">", "<"] := by decide
  have hbegins : startsWith s [] 0 = true := by simp [startsWith]
  rw [matchComparison, if_pos hbegins, hops, length_nil,
    comparisonFrom_eq _ s 0 _ 1 (Nat.le_refl 1) (by omega)]
  rfl

theorem matchComparison_operands {l r : Text} (hl : Operand l) (hr : Operand r)
    (hop : op ∈ EQUALITY_OPERATORS) : ∃ left right,
      matchComparison (expressionOf l op r) COMPARISON_OPERATORS [] = some (left, op, right) ∧
        trim left = trim l ∧ trim right = trim r := by
  have hspace : isSpace 32 = true := by decide
  obtain ⟨right, hright, htrim⟩ := rightOf_operand hr.line
  -- the shortest left side that leaves only spaces before the operator
  have hsplit (a b : Text) (ha : a ≠ []) (hL : l ++ [32] = a ++ b)
      (hb : ∀ c ∈ b, isSpace c = true)
      (hinside : ∀ a' t, a = a' ++ t → t ≠ [] → 1 ≤ a'.length →
        afterLeft ["==", "!=", ">", "<"] (t ++ (b ++ (op ++ 32 :: r))) = none) :
      matchComparison (expressionOf l op r) COMPARISON_OPERATORS [] = some (a, op, right) := by
    have hs : expressionOf l op r = a ++ (b ++ (op ++ 32 :: r)) := by
      rw [expressionOf, ← append_assoc a, ← hL, append_assoc, singleton_append]
    have hdots : ∀ c ∈ a, isDot c = true := by
      intro c hc
      have hmem : c ∈ l ++ [32] := by rw [hL]; exact mem_append_left _ hc
      rcases mem_append.mp hmem with hmem | hmem
      · exact hl.line c hmem
      · rw [mem_singleton.mp hmem]; decide
    have hslice : Regex.slice (expressionOf l op r) 0
        ((expressionOf l op r).length - (b ++ (op ++ 32 :: r)).length) = a := by
      rw [hs, Regex.slice, drop_zero, length_append, Nat.add_sub_cancel, take_left]
    rw [matchComparison_eq]
    nth_rewrite 1 [hs]
    refine Regex.lazyFrom_eq_some (length_pos_iff.mpr ha) hdots ?_ ?_
    · rw [afterLeft_operator hop hright hb, Option.map_some, hslice]
    · intro a' t hat hne hle
      rw [hinside a' t hat hne hle, Option.map_none]
  by_cases hlspaces : l.rdropWhile isSpace = []
  · -- no left operand but spaces: the first of them is the left side
    have hspaces : ∀ c ∈ l ++ [(32 : CodeUnit)], isSpace c = true := by
      intro c hc
      rcases mem_append.mp hc with hc | hc
      · exact rdropWhile_eq_nil_iff.mp hlspaces c hc
      · rw [mem_singleton.mp hc]; exact hspace
    obtain ⟨x, L, hL⟩ : ∃ x L, l ++ [(32 : CodeUnit)] = x :: L :=
      exists_cons_of_ne_nil (by simp)
    rw [hL] at hspaces
    refine ⟨[x], right, hsplit [x] L (by simp) hL
      (fun c hc => hspaces c (mem_cons_of_mem _ hc)) ?_, ?_, htrim⟩
    · intro a' t hat hne hle
      have hlen := congrArg List.length hat
      have hpos := length_pos_iff.mpr hne
      simp only [length_append, length_singleton] at hlen
      omega
    · have hx := trim_append_spaces [] (b := [x])
        fun c hc => by rw [mem_singleton.mp hc]; exact hspaces x mem_cons_self
      have hlnil := trim_append_spaces [] (b := l)
        fun c hc => rdropWhile_eq_nil_iff.mp hlspaces c hc
      rw [nil_append] at hx hlnil
      rw [hx, hlnil]
  · obtain ⟨tail, htail, hparts⟩ : ∃ tail, (∀ c ∈ tail, isSpace c = true) ∧
        l.rdropWhile isSpace ++ tail = l :=
      ⟨l.rtakeWhile isSpace, fun c hc => mem_rtakeWhile_imp hc, rdropWhile_append_rtakeWhile⟩
    refine ⟨l.rdropWhile isSpace, right, hsplit _ (tail ++ [32]) hlspaces ?_ ?_ ?_, ?_, htrim⟩
    · rw [← append_assoc, hparts]
    · intro c hc
      rcases mem_append.mp hc with hc | hc
      · exact htail c hc
      · rw [mem_singleton.mp hc]; exact hspace
    · intro a' t hat hne _
      have hlast : isSpace (t.getLast hne) = false := by
        have hnot := rdropWhile_last_not isSpace l hlspaces
        simp only [hat, getLast_append_of_ne_nil _ hne] at hnot
        simpa using hnot
      have hregroup : t ++ (tail ++ [32] ++ (op ++ 32 :: r)) =
          (t ++ tail) ++ 32 :: (op ++ 32 :: r) := by simp
      rw [hregroup]
      refine afterLeft_inside ?_ ?_
      · intro op' hop' hwithin
        refine hl.no_operator op' hop' (hwithin.trans ⟨a', [], ?_⟩)
        rw [append_nil, ← append_assoc, ← hat, hparts]
      · intro hnil
        have hall := dropWhile_eq_nil_iff.mp hnil (t.getLast hne)
          (mem_append_left _ (getLast_mem hne))
        rw [hlast] at hall
        cases hall
    · nth_rewrite 2 [← hparts]
      exact (trim_append_spaces _ htail).symm

theorem callText_ne_space {name : Text} (hname : name ∈ METHOD_CALLS) :
    (32 : CodeUnit) ∉ callText name := by
  revert name
  decide

theorem equality_ne_dot (hop : op ∈ EQUALITY_OPERATORS) : (46 : CodeUnit) ∉ op := by
  revert op
  decide

theorem matchMethodCondition_operands {l r : Text} (hl : Operand l) (hr : Operand r)
    (hop : op ∈ EQUALITY_OPERATORS) : matchMethodCondition (expressionOf l op r) = none := by
  have hnone : ∀ name ∈ METHOD_CALLS, ¬ callText name <:+: expressionOf l op r := by
    intro name hname hwithin
    have hspace := callText_ne_space hname
    have hcallop : ¬ callText name <:+: op := fun hwithin =>
      equality_ne_dot hop (hwithin.subset mem_cons_self)
    rcases Js.infix_of_separated hspace hwithin with hwithin | hwithin
    · exact hl.no_call name hname hwithin
    · rcases Js.infix_of_separated hspace hwithin with hwithin | hwithin
      · exact hcallop hwithin
      · exact hr.no_call name hname hwithin
  unfold matchMethodCondition
  dsimp only
  split
  · have hlast := lastCallOf_spec (expressionOf l op r)
    by_cases hcall : (lastCallOf (expressionOf l op r)).1 = -1
    · rw [if_pos hcall]
    · obtain ⟨i, hi⟩ : ∃ i : Nat, (lastCallOf (expressionOf l op r)).1 = i :=
        Int.eq_ofNat_of_zero_le (by have := hlast.least; omega)
      obtain ⟨hmem, hfront⟩ := hlast.here i hi
      exact absurd (hfront.isInfix.trans (drop_suffix _ _).isInfix) (hnone _ hmem)
  · rfl

/-! ## Numbers at the front of a text -/

def IsNumeral (t : Text) (value : Rat) : Prop := ∃ n : Js.Numeral, t = n.text ∧ n.value = value

theorem digit_ne_space {c : CodeUnit} (h : Js.isDigit c = true) : isSpace c = false := by
  rw [Js.isDigit, Bool.and_eq_true, decide_eq_true_eq, decide_eq_true_eq,
    UInt16.le_iff_toNat_le, UInt16.le_iff_toNat_le] at h
  obtain ⟨hlow, hhigh⟩ := h
  change 48 ≤ c.toNat at hlow
  change c.toNat ≤ 57 at hhigh
  unfold isSpace
  generalize c.toNat = k at hlow hhigh
  interval_cases k <;> decide

theorem head_numeral (n : Js.Numeral) : ∀ c ∈ n.text.head?, isSpace c = false := by
  intro c hc
  unfold Js.Numeral.text at hc
  cases hsign : n.sign with
  | plus =>
    rw [hsign] at hc
    obtain rfl : 43 = c := Option.some.inj hc
    decide
  | minus =>
    rw [hsign] at hc
    obtain rfl : 45 = c := Option.some.inj hc
    decide
  | none =>
    rw [hsign, Js.Sign.text, nil_append] at hc
    cases hwhole : n.whole.1 with
    | cons d ds =>
      rw [hwhole] at hc
      obtain rfl : d = c := Option.some.inj hc
      exact digit_ne_space (all_eq_true.mp n.whole.2 d (by rw [hwhole]; exact mem_cons_self))
    | nil =>
      rcases n.some_digit with hne | ⟨f, hf, -⟩
      · exact absurd hwhole hne
      · have hfraction : n.fraction = some f := hf
        rw [hwhole, hfraction] at hc
        obtain rfl : 46 = c := Option.some.inj hc
        decide

theorem leading_of_read {t after : Text} {n : Js.Numeral}
    (h : Js.readNumeral (t.dropWhile isSpace) = some (n, after)) :
    leading t = some ⟨t.takeWhile isSpace, some n.value, Js.toDouble n.value, after⟩ := by
  unfold leading
  rw [h]

theorem leading_numeral (n : Js.Numeral) :
    leading n.text = some ⟨[], some n.value, Js.toDouble n.value, []⟩ := by
  have hhead := head_numeral n
  have hsplit : n.text.takeWhile isSpace = [] ∧ n.text.dropWhile isSpace = n.text := by
    cases htext : n.text with
    | nil => exact ⟨rfl, rfl⟩
    | cons c t =>
      rw [htext] at hhead
      have hc := hhead c rfl
      simp [hc]
  have hread := Js.readNumeral_of_text n
  rw [← hsplit.2] at hread
  rw [leading_of_read hread, hsplit.1]

def Leading.Whole (x : Leading) : Prop := x.before = [] ∧ x.after = [] ∧ x.value.isSome

theorem whole_iff {t : Text} {x : Leading} (h : leading t = some x) (value : Rat) :
    x.Whole ∧ x.value = some value ↔ IsNumeral t value := by
  constructor
  · rintro ⟨⟨hbefore, hafter, -⟩, hvalue⟩
    unfold leading at h
    dsimp only at h
    split at h
    · next n after hread =>
      obtain rfl := Option.some.inj h
      have ht : t.dropWhile isSpace = t := by
        have hparts := takeWhile_append_dropWhile (p := isSpace) (l := t)
        rw [show t.takeWhile isSpace = [] from hbefore, nil_append] at hparts
        exact hparts
      have hnil : after = [] := hafter
      rw [ht, hnil, Js.readNumeral_eq_iff] at hread
      exact ⟨n, hread, Option.some.inj hvalue⟩
    · split at h
      · obtain rfl := Option.some.inj h
        cases hvalue
      · cases h
  · rintro ⟨n, rfl, rfl⟩
    rw [leading_numeral] at h
    obtain rfl := Option.some.inj h
    exact ⟨⟨rfl, rfl, rfl⟩, rfl⟩

/-! ## What equality means -/

/-- Identical texts, or complete decimal numerals of one value. -/
def Same (a b : Text) : Prop := a = b ∨ ∃ value, IsNumeral a value ∧ IsNumeral b value

/-- The texts differ and both begin with numbers that are one double, but one of these numbers is
not the whole text, or is no numeral (`Infinity`), or they are different numbers as written. -/
def Mistaken (a b : Text) : Prop :=
  a ≠ b ∧ ∃ x y, leading a = some x ∧ leading b = some y ∧ x.double = y.double ∧
    (¬ x.Whole ∨ ¬ y.Whole ∨ x.value ≠ y.value)

/-- Every condition node whose expression resolves to the text answers so. -/
def Evaluates (text : Text) (result : Bool) : Prop :=
  ∀ resolve (node : AgentPipelineNode), node.nodeConfig.expression.truthy = true →
    resolve node.nodeConfig.expression = .ok (.text text) →
      executeConditionNode resolve node = .ok result

/-- `isNumeric ? lNum === rNum : lVal === rVal`. -/
def equals (a b : Text) : Bool :=
  match parseFloat a, parseFloat b with
  | some lNum, some rNum => lNum = rNum
  | _, _ => a = b

theorem compare_equal (hop : op ∈ [ascii "==", ascii "==="]) (a b : Text) (resolved : Value) :
    compare op a b resolved = equals a b := by
  unfold compare
  rw [if_pos (by simpa using hop)]
  rfl

theorem compare_unequal (hop : op ∈ [ascii "!=", ascii "!=="]) (a b : Text) (resolved : Value) :
    compare op a b resolved = !equals a b := by
  have hnot : ¬ (op = ascii "==" ∨ op = ascii "===") := by
    revert op
    decide
  unfold compare equals
  rw [if_neg hnot, if_pos (by simpa using hop)]
  cases parseFloat a with
  | none => exact (decide_not ..)
  | some x =>
    cases parseFloat b with
    | none | some => exact (decide_not ..)

theorem evaluates_compare {l r : Text} (hl : Operand l) (hr : Operand r)
    (hop : op ∈ EQUALITY_OPERATORS) : Evaluates (expressionOf l op r)
      (compare op (unquoteLiteral (trim l)) (unquoteLiteral (trim r))
        (.text (expressionOf l op r))) := by
  intro resolve node htruthy hresolve
  obtain ⟨left, right, hmatch, hleft, hright⟩ := matchComparison_operands hl hr hop
  unfold executeConditionNode
  dsimp only
  rw [if_pos htruthy, hresolve]
  show answer node (.text (expressionOf l op r)) = _
  simp only [answer, Value.string, matchMethodCondition_operands hl hr hop, hmatch, hleft, hright]

theorem equals_iff (a b : Text) : (equals a b = true → Same a b) ↔ ¬ Mistaken a b := by
  constructor
  · rintro hsame ⟨hne, x, y, hx, hy, hdouble, hcause⟩
    have hequals : equals a b = true := by
      unfold equals parseFloat
      rw [hx, hy]
      exact decide_eq_true hdouble
    rcases hsame hequals with heq | ⟨value, ha, hb⟩
    · exact hne heq
    · obtain ⟨hxwhole, hxvalue⟩ := (whole_iff hx value).mpr ha
      obtain ⟨hywhole, hyvalue⟩ := (whole_iff hy value).mpr hb
      rcases hcause with hcause | hcause | hcause
      · exact hcause hxwhole
      · exact hcause hywhole
      · exact hcause (hxvalue.trans hyvalue.symm)
  · intro hright hequals
    by_cases heq : a = b
    · exact .inl heq
    · unfold equals parseFloat at hequals
      cases hx : leading a with
      | none =>
        rw [hx] at hequals
        exact absurd (of_decide_eq_true hequals) heq
      | some x =>
        cases hy : leading b with
        | none =>
          rw [hx, hy] at hequals
          exact absurd (of_decide_eq_true hequals) heq
        | some y =>
          rw [hx, hy] at hequals
          have hdouble : x.double = y.double := of_decide_eq_true hequals
          have hnone : ¬ (¬ x.Whole ∨ ¬ y.Whole ∨ x.value ≠ y.value) :=
            fun hcause => hright ⟨heq, x, y, hx, hy, hdouble, hcause⟩
          rw [not_or, not_or, not_not, not_not, not_not] at hnone
          obtain ⟨hxwhole, hywhole, hvalue⟩ := hnone
          obtain ⟨value, hxvalue⟩ := Option.isSome_iff_exists.mp hxwhole.2.2
          exact .inr ⟨value, (whole_iff hx value).mp ⟨hxwhole, hxvalue⟩,
            (whole_iff hy value).mp ⟨hywhole, hvalue ▸ hxvalue⟩⟩

/-- The operands without the spaces around them and one pair of quotes each are the same. -/
def OperandsSame (l r : Text) : Prop :=
  ∃ a b, Bare (trim l) a ∧ Bare (trim r) b ∧ Same a b

theorem operandsSame_iff (l r : Text) :
    OperandsSame l r ↔ Same (unquoteLiteral (trim l)) (unquoteLiteral (trim r)) := by
  constructor
  · rintro ⟨a, b, ha, hb, hsame⟩
    rwa [bare_iff.mp ha, bare_iff.mp hb]
  · intro hsame
    exact ⟨_, _, bare_iff.mpr rfl, bare_iff.mpr rfl, hsame⟩

/-- **Equality means equality but for texts that begin with numbers.** -/
theorem equality_exact {l r eq ne : Text} (hl : Operand l) (hr : Operand r)
    (heq : eq ∈ [ascii "==", ascii "==="]) (hne : ne ∈ [ascii "!=", ascii "!=="]) :
    ∃ result : Bool, Evaluates (expressionOf l eq r) result ∧
      Evaluates (expressionOf l ne r) (!result) ∧
      ((result = true → OperandsSame l r) ↔
        ¬ Mistaken (unquoteLiteral (trim l)) (unquoteLiteral (trim r))) := by
  have heqop : eq ∈ EQUALITY_OPERATORS := by
    revert eq
    decide
  have hneop : ne ∈ EQUALITY_OPERATORS := by
    revert ne
    decide
  have heval := evaluates_compare hl hr heqop
  have hopposite := evaluates_compare hl hr hneop
  rw [compare_equal heq] at heval
  rw [compare_unequal hne] at hopposite
  refine ⟨_, heval, hopposite, ?_⟩
  rw [operandsSame_iff]
  exact equals_iff _ _

/-- A price on both sides, one of them quoted. -/
theorem equality_exact_prices :
    ∃ result : Bool, Evaluates (expressionOf (ascii "19.90") (ascii "===") (ascii "'19.9'")) result ∧
      Evaluates (expressionOf (ascii "19.90") (ascii "!==") (ascii "'19.9'")) (!result) ∧
      ((result = true → OperandsSame (ascii "19.90") (ascii "'19.9'")) ↔
        ¬ Mistaken (unquoteLiteral (trim (ascii "19.90")))
          (unquoteLiteral (trim (ascii "'19.9'")))) := by
  refine equality_exact (by decide) (by decide) ?_ ?_ <;> exact mem_cons_of_mem _ mem_cons_self

theorem evaluates_unique {text : Text} {a b : Bool} (hne : text ≠ []) (ha : Evaluates text a)
    (hb : Evaluates text b) : a = b := by
  have htruthy : (Value.text text).truthy = true := decide_eq_true hne
  have hnode (answered : Bool) (h : Evaluates text answered) :=
    h .ok ⟨[], some ⟨.text text⟩, none⟩ htruthy rfl
  exact Except.ok.inj ((hnode a ha).symm.trans (hnode b hb))

theorem mistaken_of_front {a b after after' : Text} {n : Js.Numeral} (hne : a ≠ b)
    (ha : Js.readNumeral (a.dropWhile isSpace) = some (n, after))
    (hb : Js.readNumeral (b.dropWhile isSpace) = some (n, after')) (hafter : after ≠ []) :
    Mistaken a b :=
  ⟨hne, _, _, leading_of_read ha, leading_of_read hb, rfl, .inl fun hwhole => hafter hwhole.2.1⟩

/-- The first and the last day of a year are equal. -/
theorem dates_are_equal : ¬ ∀ l r eq ne : Text, Operand l → Operand r →
    eq ∈ [ascii "==", ascii "==="] → ne ∈ [ascii "!=", ascii "!=="] →
      ∃ result : Bool, Evaluates (expressionOf l eq r) result ∧
        Evaluates (expressionOf l ne r) (!result) ∧ (result = true → OperandsSame l r) := by
  intro hclaim
  have hl : Operand (ascii "2024-01-01") := by decide
  have hr : Operand (ascii "2024-12-31") := by decide
  have hfirst : unquoteLiteral (trim (ascii "2024-01-01")) = ascii "2024-01-01" := by decide
  have hlast : unquoteLiteral (trim (ascii "2024-12-31")) = ascii "2024-12-31" := by decide
  obtain ⟨result, heval, -, hsame⟩ := hclaim _ _ (ascii "==") (ascii "!=") hl hr
    mem_cons_self mem_cons_self
  have hop : ascii "==" ∈ EQUALITY_OPERATORS := by decide
  have hanswer := evaluates_compare hl hr hop
  rw [compare_equal mem_cons_self] at hanswer
  rw [evaluates_unique (by decide) heval hanswer, operandsSame_iff, equals_iff, hfirst, hlast]
    at hsame
  -- both begin with 2024
  let year : Js.Numeral := ⟨.none, ⟨ascii "2024", by decide⟩, none, none, .inl (by decide)⟩
  have hjanuary : Js.readNumeral ((ascii "2024-01-01").dropWhile isSpace) =
      some (year, ascii "-01-01") := rfl
  have hdecember : Js.readNumeral ((ascii "2024-12-31").dropWhile isSpace) =
      some (year, ascii "-12-31") := rfl
  exact hsame (mistaken_of_front (by decide) hjanuary hdecember (by decide))

end Almyty.Agents
