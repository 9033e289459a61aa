import Almyty.Tools.UrlConstruction

/-!
# Body templates: `applyJsonBodyTemplate` in `tool-execution-utils.ts`

A body template is parsed first, with its placeholders in place; `walk` then fills the strings of
the tree. A string that is one placeholder becomes the parameter it names, in any other each
placeholder is replaced by the parameter's text.

`given` is the same tree with the caller's own parameters in its strings and nothing else changed.
`body_template_fills_iff` says when the walk comes out as that: when no placeholder names what every
object inherits and the caller did not give, and no object of the template has a key `__proto__`,
whose assignment adds no entry.
-/

namespace Almyty.Tools

open Almyty.Lib List Option
open Almyty.Lib.Url (braces)

inductive Filled
  | leaf (value : Js.At)
  | arr (items : List Filled)
  | obj (fields : List (String × Filled))

/-- `value.match(/^\{(\w+)\}$/)`. -/
def wholePlaceholder (text : List Char) : Option (List Char) :=
  match text with
  | '\x7b' :: rest =>
    if rest.getLast? = some '\x7d' ∧ IsWordName rest.dropLast then some rest.dropLast else none
  | _ => none

/-- The object a loop of assignments builds. -/
def assignEntries (entries : List (String × Filled)) : List (String × Filled) :=
  entries.foldl (fun out e => Js.assign out e.1 e.2) []

section

variable (engine : Engine) (parameters : Params)

def walkText (text : String) : Js.At :=
  match wholePlaceholder text.toList with
  | some name =>
    if parameters.has (String.ofList name) then parameters.get (String.ofList name)
    else .json (.str text)
  | none =>
    .json (.str (String.ofList (substitute
      (fun name => (parameterText engine parameters name).map String.toList) 0 text.toList)))

mutual

def walk : Json → Filled
  | .str text => .leaf (walkText engine parameters text)
  | .arr items => .arr (walkItems items)
  | .obj fields => .obj (assignEntries (walkFields fields))
  | .null => .leaf (.json .null)
  | .bool b => .leaf (.json (.bool b))
  | .num n => .leaf (.json (.num n))

def walkItems : List Json → List Filled
  | [] => []
  | item :: items => walk item :: walkItems items

def walkFields : Fields → List (String × Filled)
  | [] => []
  | (key, value) :: fields => (key, walk value) :: walkFields fields

end

/-- `message` is what `JSON.parse` throws on a text that is no JSON. -/
def applyJsonBodyTemplate (message : String → String) (template : String) : Except String Filled :=
  match engine.parse template with
  | some parsed => .ok (walk engine parameters parsed)
  | none => .error s!"Invalid bodyTemplate (not valid JSON): {message template}"

/-! ## The template, given -/

def ownText (name : List Char) : Option (List Char) :=
  (parameters.lookup (String.ofList name)).map fun value => (engine.text value).toList

def givenText (text : String) : Js.At :=
  match wholePlaceholder text.toList with
  | some name => (parameters.lookup (String.ofList name)).getD (.json (.str text))
  | none => .json (.str (String.ofList (substitute (ownText engine parameters) 0 text.toList)))

mutual

def given : Json → Filled
  | .str text => .leaf (givenText engine parameters text)
  | .arr items => .arr (givenItems items)
  | .obj fields => .obj (givenFields fields)
  | .null => .leaf (.json .null)
  | .bool b => .leaf (.json (.bool b))
  | .num n => .leaf (.json (.num n))

def givenItems : List Json → List Filled
  | [] => []
  | item :: items => given item :: givenItems items

def givenFields : Fields → List (String × Filled)
  | [] => []
  | (key, value) :: fields => (key, given value) :: givenFields fields

end

def placeholders : Nat → List Char → List (List Char)
  | _, [] => []
  | skip + 1, _ :: text => placeholders skip text
  | 0, c :: text =>
    let name := text.takeWhile isWordChar
    if c = '\x7b' ∧ name ≠ [] ∧ (text.drop name.length).head? = some '\x7d' then
      name :: placeholders (name.length + 1) text
    else placeholders 0 text

/-- A name every object inherits, which the caller did not give. -/
def Unsupplied (name : List Char) : Prop :=
  String.ofList name ∈ Js.objectPrototype ∧ parameters.lookup (String.ofList name) = none

instance (name : List Char) : Decidable (Unsupplied parameters name) :=
  inferInstanceAs (Decidable (_ ∧ _))

mutual

def Supplied : Json → Prop
  | .str text => ∀ name ∈ placeholders 0 text.toList, ¬Unsupplied parameters name
  | .arr items => SuppliedItems items
  | .obj fields => "__proto__" ∉ Assoc.keys fields ∧ SuppliedFields fields
  | .null | .bool _ | .num _ => True

def SuppliedItems : List Json → Prop
  | [] => True
  | item :: items => Supplied item ∧ SuppliedItems items

def SuppliedFields : Fields → Prop
  | [] => True
  | (_, value) :: fields => Supplied value ∧ SuppliedFields fields

end

end

/-! ## Texts -/

/-- What is inherited has a text that begins no placeholder: `function …` or `[object Object]`. -/
def Engine.NamesNative (engine : Engine) : Prop :=
  ∀ name ∈ Js.objectPrototype, ∃ c rest,
    (engine.text (Js.inherited name)).toList = c :: rest ∧ c ≠ '\x7b'

section

/-- **Two fillings of a text are the same** exactly when they fill its placeholders alike, where
they differ only on names one of them leaves, and the other fills with no brace first. -/
theorem substitute_eq_iff {value value' : List Char → Option (List Char)}
    (h : ∀ name, value name = value' name ∨
      value' name = none ∧ ∃ c rest, value name = some (c :: rest) ∧ c ≠ '\x7b')
    (skip : Nat) (text : List Char) :
    substitute value skip text = substitute value' skip text ↔
      ∀ name ∈ placeholders skip text, value name = value' name := by
  induction text generalizing skip with
  | nil => simp [substitute, placeholders]
  | cons c text ih =>
    cases skip with
    | succ skip =>
      rw [substitute, substitute, placeholders]
      exact ih skip
    | zero =>
      rw [substitute, substitute, placeholders]
      by_cases hmatch : c = '\x7b' ∧ text.takeWhile isWordChar ≠ [] ∧
          (text.drop (text.takeWhile isWordChar).length).head? = some '\x7d'
      · rw [if_pos hmatch, if_pos hmatch, if_pos hmatch, forall_mem_cons]
        rcases h (text.takeWhile isWordChar) with hsame | ⟨hnone, d, rest, hsome, hd⟩
        · rw [hsame, append_cancel_left_eq, ih]
          exact (and_iff_right rfl).symm
        · -- the one begins with a brace, the other does not
          rw [hnone, hsome]
          refine iff_of_false (fun heq => hd ?_) fun hall => Option.some_ne_none _ hall.1
          exact (List.cons.inj heq).1
      · rw [if_neg hmatch, if_neg hmatch, if_neg hmatch, cons_inj_right, ih]

theorem wholePlaceholder_eq_some {text name : List Char} (h : wholePlaceholder text = some name) :
    text = braces name ∧ IsWordName name := by
  unfold wholePlaceholder at h
  split at h
  · next rest =>
    split at h
    · next hwhole =>
      obtain rfl := some.inj h
      obtain ⟨before, hbefore⟩ := List.getLast?_eq_some_iff.mp hwhole.1
      subst hbefore
      rw [dropLast_concat] at hwhole ⊢
      exact ⟨rfl, hwhole.2⟩
    · cases h
  · cases h

theorem placeholders_skip {text : List Char} {skip : Nat} (h : text.length ≤ skip) :
    placeholders skip text = [] := by
  induction text generalizing skip with
  | nil => rw [placeholders]
  | cons c text ih =>
    cases skip with
    | zero => simp at h
    | succ skip => rw [placeholders, ih (by simpa using h)]

theorem placeholders_braces {name : List Char} (h : IsWordName name) :
    placeholders 0 (braces name) = [name] := by
  have hclose : isWordChar '\x7d' = false := by decide
  have hname : (name ++ ['\x7d']).takeWhile isWordChar = name := by
    rw [takeWhile_append_of_pos h.2, takeWhile_cons_of_neg (by simp [hclose]), append_nil]
  rw [braces, placeholders, hname, if_pos ⟨rfl, h.1, by simp⟩, placeholders_skip (by simp)]

variable {engine : Engine} {parameters : Params}

theorem inherited_ne_json {name : String} (h : name ∈ Js.objectPrototype) (value : Json) :
    Js.inherited name ≠ .json value := by
  rw [Js.inherited]
  split <;> exact nofun

theorem walkText_eq_iff (hnative : engine.NamesNative) (text : String) :
    walkText engine parameters text = givenText engine parameters text ↔
      ∀ name ∈ placeholders 0 text.toList, ¬Unsupplied parameters name := by
  unfold walkText givenText
  cases hwhole : wholePlaceholder text.toList with
  | some name =>
    obtain ⟨htext, hword⟩ := wholePlaceholder_eq_some hwhole
    rw [htext, placeholders_braces hword]
    simp only [forall_mem_singleton, Unsupplied, Params.has, Params.get]
    rcases eq_none_or_eq_some (parameters.lookup (String.ofList name)) with hown | ⟨_, hown⟩
    · by_cases hname : String.ofList name ∈ Js.objectPrototype
      · simp [hown, hname, inherited_ne_json hname]
      · simp [hown, hname]
    · simp [hown]
  | none =>
    simp only [Js.At.json.injEq, Json.str.injEq, String.ofList_inj]
    rw [substitute_eq_iff]
    · refine forall₂_congr fun name _ => ?_
      simp only [ownText, parameterText, Unsupplied, Params.has, Params.get]
      rcases eq_none_or_eq_some (parameters.lookup (String.ofList name)) with
        hown | ⟨_, hown⟩
      · by_cases hname : String.ofList name ∈ Js.objectPrototype <;> simp [hown, hname]
      · simp [hown]
    · intro name
      simp only [ownText, parameterText, Params.has, Params.get]
      rcases eq_none_or_eq_some (parameters.lookup (String.ofList name)) with
        hown | ⟨_, hown⟩
      · by_cases hname : String.ofList name ∈ Js.objectPrototype
        · obtain ⟨c, rest, hctext, hc⟩ := hnative _ hname
          exact .inr ⟨by simp [hown], c, rest, by simp [hown, hname, hctext], hc⟩
        · simp [hown, hname]
      · simp [hown]

end

/-! ## Objects -/

theorem not_mem_assignEntries (entries : List (String × Filled)) {out : List (String × Filled)}
    (h : "__proto__" ∉ Assoc.keys out) :
    "__proto__" ∉ Assoc.keys (entries.foldl (fun out e => Js.assign out e.1 e.2) out) := by
  induction entries generalizing out with
  | nil => exact h
  | cons e entries ih =>
    rw [foldl_cons]
    refine ih fun hmem => ?_
    unfold Js.assign at hmem
    split at hmem
    · exact h hmem
    next hset =>
    rw [← Assoc.lookup_isSome_iff, Assoc.lookup_put] at hmem
    by_cases hkey : "__proto__" = e.1
    · exact hset ⟨hkey.symm, hkey ▸ (Assoc.lookup_eq_none_iff _ _).mpr h⟩
    · rw [if_neg hkey, Assoc.lookup_isSome_iff] at hmem
      exact h hmem

theorem assignEntries_eq {entries out : List (String × Filled)}
    (hnodup : (Assoc.keys (out ++ entries)).Nodup) (hproto : "__proto__" ∉ Assoc.keys entries) :
    entries.foldl (fun out e => Js.assign out e.1 e.2) out = out ++ entries := by
  induction entries generalizing out with
  | nil => simp
  | cons e entries ih =>
    rw [Assoc.keys_cons, mem_cons, not_or] at hproto
    have hkeys : Assoc.keys (out ++ e :: entries) =
        Assoc.keys out ++ e.1 :: Assoc.keys entries := by simp [Assoc.keys]
    have hnew : e.1 ∉ Assoc.keys out := by
      rw [hkeys] at hnodup
      exact fun hmem => (nodup_append.mp hnodup).2.2 _ hmem _ mem_cons_self rfl
    have hassign : Js.assign out e.1 e.2 = out ++ [e] := by
      rw [Js.assign, if_neg fun hcond => hproto.1 hcond.1.symm, Assoc.put_of_not_mem hnew]
    rw [foldl_cons, hassign, ih (by rwa [append_assoc]) hproto.2, append_assoc]
    rfl

section

variable (engine : Engine) (parameters : Params)

theorem keys_walkFields (fields : Fields) :
    Assoc.keys (walkFields engine parameters fields) = Assoc.keys fields := by
  induction fields with
  | nil => rfl
  | cons e fields ih => exact congrArg (e.1 :: ·) ih

theorem keys_givenFields (fields : Fields) :
    Assoc.keys (givenFields engine parameters fields) = Assoc.keys fields := by
  induction fields with
  | nil => rfl
  | cons e fields ih => exact congrArg (e.1 :: ·) ih

end

section

variable {engine : Engine} {parameters : Params}

theorem assign_walkFields_iff {fields : Fields} (hnodup : (Assoc.keys fields).Nodup)
    (hfields : walkFields engine parameters fields = givenFields engine parameters fields ↔
      SuppliedFields parameters fields) :
    assignEntries (walkFields engine parameters fields) = givenFields engine parameters fields ↔
      "__proto__" ∉ Assoc.keys fields ∧ SuppliedFields parameters fields := by
  by_cases hproto : "__proto__" ∈ Assoc.keys fields
  · refine iff_of_false (fun heq => ?_) fun h => h.1 hproto
    have hnone := @not_mem_assignEntries (walkFields engine parameters fields) []
      not_mem_nil
    rw [show List.foldl _ _ _ = _ from heq, keys_givenFields] at hnone
    exact hnone hproto
  · have hassigned : assignEntries (walkFields engine parameters fields) =
        walkFields engine parameters fields :=
      assignEntries_eq (by rwa [nil_append, keys_walkFields])
        (by rwa [keys_walkFields])
    rw [hassigned, hfields, and_iff_right hproto]

mutual

theorem walk_eq_iff (hnative : engine.NamesNative) : (template : Json) →
    template.uniqueKeys = true →
    (walk engine parameters template = given engine parameters template ↔
      Supplied parameters template)
  | .str text, _ => by
    rw [walk, given, Supplied, Filled.leaf.injEq]
    exact walkText_eq_iff hnative text
  | .arr items, h => by
    rw [walk, given, Supplied, Filled.arr.injEq]
    exact walkItems_eq_iff hnative items h
  | .obj fields, h => by
    rw [walk, given, Supplied, Filled.obj.injEq]
    have hnodup := Json.nodup_of_uniqueKeys h
    simp only [Json.uniqueKeys, Bool.and_eq_true] at h
    exact assign_walkFields_iff hnodup (walkFields_eq_iff hnative fields h.2)
  | .null, _ | .bool _, _ | .num _, _ => by simp [walk, given, Supplied]

theorem walkItems_eq_iff (hnative : engine.NamesNative) : (items : List Json) →
    Json.uniqueKeysList items = true →
    (walkItems engine parameters items = givenItems engine parameters items ↔
      SuppliedItems parameters items)
  | [], _ => by simp [walkItems, givenItems, SuppliedItems]
  | item :: items, h => by
    rw [Json.uniqueKeysList, Bool.and_eq_true] at h
    rw [walkItems, givenItems, SuppliedItems, List.cons.injEq, walk_eq_iff hnative item h.1,
      walkItems_eq_iff hnative items h.2]

theorem walkFields_eq_iff (hnative : engine.NamesNative) : (fields : Fields) →
    Json.uniqueKeysFields fields = true →
    (walkFields engine parameters fields = givenFields engine parameters fields ↔
      SuppliedFields parameters fields)
  | [], _ => by simp [walkFields, givenFields, SuppliedFields]
  | (key, value) :: fields, h => by
    rw [Json.uniqueKeysFields, Bool.and_eq_true] at h
    rw [walkFields, givenFields, SuppliedFields, List.cons.injEq, Prod.mk.injEq,
      and_iff_right rfl, walk_eq_iff hnative value h.1, walkFields_eq_iff hnative fields h.2]

end

end

theorem body_template_fills_iff (engine : Engine) (parameters : Params)
    (message : String → String) (template : String) (parsed : Json)
    (hparse : engine.parse template = some parsed) (hunique : parsed.uniqueKeys = true)
    (hnative : engine.NamesNative) :
    applyJsonBodyTemplate engine parameters message template =
        .ok (given engine parameters parsed) ↔
      Supplied parameters parsed := by
  rw [applyJsonBodyTemplate, hparse, Except.ok.injEq]
  exact walk_eq_iff hnative parsed hunique

def templateEngine (template : String) (parsed : Json) : Engine :=
  { wholeEngine with
    text
      | .method => "function () \x7b [native code] \x7d"
      | .objectPrototype => "[object Object]"
      | value => wholeEngine.text value
    parse := fun text => if text = template then some parsed else none }

theorem templateEngine_namesNative (template : String) (parsed : Json) :
    (templateEngine template parsed).NamesNative := by
  intro name hname
  rw [Js.inherited]
  split
  · exact ⟨'[', "object Object]".toList, by simp [templateEngine], by decide⟩
  · exact ⟨'f', "unction () \x7b [native code] \x7d".toList, by simp [templateEngine], by decide⟩

/-- A name that was given, and one that was not. -/
def greeting : Json :=
  .obj [("user", .str "\x7bname\x7d"), ("note", .str "by \x7bother\x7d")]

theorem body_template_fills_greeting :
    applyJsonBodyTemplate (templateEngine "greeting" greeting) [("name", .json (.num 1))]
        (fun _ => "Unexpected token") "greeting" =
      .ok (given (templateEngine "greeting" greeting) [("name", .json (.num 1))] greeting) := by
  refine (body_template_fills_iff _ _ _ _ _ rfl (by decide) (templateEngine_namesNative _ _)).mpr ?_
  refine ⟨by decide, ?_, ?_, trivial⟩ <;>
  · show ∀ name ∈ placeholders 0 _, ¬Unsupplied _ name
    decide

/-- A placeholder named `constructor` becomes a function no one gave. -/
theorem constructor_is_substituted :
    applyJsonBodyTemplate (templateEngine "it" (.str "\x7bconstructor\x7d")) []
        (fun _ => "Unexpected token") "it" =
      .ok (.leaf .method) ∧
    given (templateEngine "it" (.str "\x7bconstructor\x7d")) [] (.str "\x7bconstructor\x7d") =
      .leaf (.json (.str "\x7bconstructor\x7d")) :=
  ⟨rfl, rfl⟩

end Almyty.Tools
