import Almyty.Lib.UrlEncoded

/-!
# Query strings: `serializeQueryParams` in `modules/tools/tool-execution-utils.ts`

A query is written parameter by parameter, each by the style its declaration gives: in brackets, as
one comma list, or under its name. Names and values are encoded and the marks between them are not,
so the text is read back as the pairs that were written, whatever they hold (`read_serialized`).

These are the pairs the styles prescribe but in three cases: a comma list keeps `null` and
`undefined` as words; an array or an object inside a value of the form style becomes the text
`String` shows of it; and an object under a name `Object.prototype` has counts as declared, so it is
not written in brackets. `query_as_declared_iff` says that there are no others.

Mirroring notes:
- What `String` shows of an array or an object, and `JSON.parse`, are the engine's.
-/

namespace Almyty.Tools.QueryString

open Almyty.Lib Almyty.Lib.Url List

/-- A parameter's value, as far as a query is written from it. -/
inductive Argument
  | undefined
  | null
  | str (s : String)
  /-- A number or a boolean, by what `String` shows of it. -/
  | other (text : String)
  | arr (items : List Argument)
  | obj (fields : List (String × Argument))

def Argument.nullish : Argument → Bool
  | .undefined | .null => true
  | _ => false

def Argument.isContainer : Argument → Bool
  | .arr _ | .obj _ => true
  | _ => false

/-- What the JavaScript engine supplies. -/
structure Texts where
  /-- `String` of an array or an object. -/
  shown : Argument → String
  /-- `JSON.parse`; nothing where it throws. -/
  parse : String → Option Argument

structure QueryParamStyle where
  type : Option String := none
  style : Option String := none
  explode : Option Bool := none

abbrev Styles := List (String × Option QueryParamStyle)

def styleOf (styles : Styles) (name : String) : Option QueryParamStyle :=
  match styles.lookup name with
  | some spec => spec
  | none => if name ∈ Js.objectPrototype then some {} else none

def isDeep (spec : Option QueryParamStyle) : Bool := spec.any (·.style = some "deepObject")

def isExploded (spec : Option QueryParamStyle) : Bool := !spec.any (·.explode = some false)

section Serialize

variable (texts : Texts)

def stringOf : Argument → String
  | .undefined => "undefined"
  | .null => "null"
  | .str s => s
  | .other text => text
  | .arr items => texts.shown (.arr items)
  | .obj fields => texts.shown (.obj fields)

def enc (text : String) : List Char := Js.encodeURIComponent text

def push (key : List Char) (value : Argument) : List (List Char) :=
  if value.nullish then [] else [key ++ '=' :: enc (stringOf texts value)]

mutual

def brackets (key : List Char) : Argument → List (List Char)
  | .arr items => bracketItems key items
  | .obj fields => bracketFields key fields
  | .undefined => push texts key .undefined
  | .null => push texts key .null
  | .str s => push texts key (.str s)
  | .other text => push texts key (.other text)

def bracketItems (key : List Char) : List Argument → List (List Char)
  | [] => []
  | item :: items => brackets (key ++ ['[', ']']) item ++ bracketItems key items

def bracketFields (key : List Char) : List (String × Argument) → List (List Char)
  | [] => []
  | (name, value) :: fields =>
    brackets (key ++ ('[' :: enc name ++ [']'])) value ++ bracketFields key fields

end

def commaList (key : List Char) (values : List String) : List Char :=
  key ++ '=' :: [','].intercalate (values.map enc)

/-- An object parameter sent as JSON text is read as the object it spells. -/
def readValue (spec : Option QueryParamStyle) (raw : Argument) : Argument :=
  match raw with
  | .str s =>
    if (spec.any (·.type = some "object") || isDeep spec) &&
        (s.toList.dropWhile Js.isSpace).head? = some '{' then (texts.parse s).getD raw
    else raw
  | _ => raw

/-- The body of the loop over the parameters. -/
def serializeQueryParam (styles : Styles) (name : String) (raw : Argument) : List (List Char) :=
  let spec := styleOf styles name
  let key := enc name
  match readValue texts spec raw with
  | .arr items =>
    if isDeep spec then bracketItems texts key items
    else if !isExploded spec then [commaList key (items.map (stringOf texts))]
    else items.flatMap (push texts key)
  | .obj fields =>
    if spec.isNone || isDeep spec then bracketFields texts key fields
    else if !isExploded spec then
      [commaList key (fields.flatMap fun e => [e.1, stringOf texts e.2])]
    else fields.flatMap fun e => push texts (enc e.1) e.2
  | value => push texts key value

def serializeQueryParams (params : List (String × Argument)) (styles : Styles) : List Char :=
  joinParts (params.flatMap fun e => serializeQueryParam texts styles e.1 e.2)

/-! ## What is written -/

def pushed (name : String) (value : Argument) : List (String × String) :=
  if value.nullish then [] else [(name, stringOf texts value)]

end Serialize

mutual

def leaves (name : String) : Argument → List (String × String)
  | .arr items => leavesOfItems name items
  | .obj fields => leavesOfFields name fields
  | .undefined | .null => []
  | .str s => [(name, s)]
  | .other text => [(name, text)]

def leavesOfItems (name : String) : List Argument → List (String × String)
  | [] => []
  | item :: items => leaves (name ++ "[]") item ++ leavesOfItems name items

def leavesOfFields (name : String) : List (String × Argument) → List (String × String)
  | [] => []
  | (key, value) :: fields =>
    leaves (name ++ ("[" ++ key ++ "]")) value ++ leavesOfFields name fields

end

def commaText (values : List String) : String :=
  String.ofList ([','].intercalate (values.map String.toList))

/-- The pairs one parameter's parts are read as. -/
def written (texts : Texts) (styles : Styles) (e : String × Argument) : List (String × String) :=
  let spec := styleOf styles e.1
  match readValue texts spec e.2 with
  | .arr items =>
    if isDeep spec then leavesOfItems e.1 items
    else if !isExploded spec then [(e.1, commaText (items.map (stringOf texts)))]
    else items.flatMap (pushed texts e.1)
  | .obj fields =>
    if spec.isNone || isDeep spec then leavesOfFields e.1 fields
    else if !isExploded spec then
      [(e.1, commaText (fields.flatMap fun f => [f.1, stringOf texts f.2]))]
    else fields.flatMap fun f => pushed texts f.1 f.2
  | value => pushed texts e.1 value

section Written

structure KeyFor (key : List Char) (name : String) : Prop where
  no_separator : '&' ∉ key ∧ '=' ∉ key
  writes : Writes key name.toList

theorem keyFor_enc (name : String) : KeyFor (enc name) name :=
  ⟨⟨not_mem_encoded (by decide) name, not_mem_encoded (by decide) name⟩, writes_encoded name⟩

variable {key : List Char}

variable {name : String}

theorem KeyFor.items (h : KeyFor key name) :
    KeyFor (key ++ ['[', ']']) (name ++ "[]") := by
  refine ⟨⟨?_, ?_⟩, ?_⟩
  · simp [h.no_separator.1]
  · simp [h.no_separator.2]
  · rw [String.toList_append]
    exact h.writes.append ((writes_char (by decide)).append (writes_char (by decide)))

theorem KeyFor.field (h : KeyFor key name) (inner : String) :
    KeyFor (key ++ ('[' :: enc inner ++ [']'])) (name ++ ("[" ++ inner ++ "]")) := by
  obtain ⟨⟨hamp, hequals⟩, hwrites⟩ := keyFor_enc inner
  refine ⟨⟨?_, ?_⟩, ?_⟩
  · simp [h.no_separator.1, hamp]
  · simp [h.no_separator.2, hequals]
  · rw [String.toList_append, String.toList_append, String.toList_append]
    exact h.writes.append (((writes_char (by decide)).append hwrites).concat (by decide))

theorem writesPart {key value : List Char} {text : String} (hkey : KeyFor key name)
    (hvalue : '&' ∉ value) (hwrites : Writes value text.toList) :
    WritesPart (key ++ '=' :: value) (name, text) := by
  refine ⟨?_, key, value, rfl, hkey.no_separator.2, hkey.writes, hwrites⟩
  simp [hkey.no_separator.1, hvalue]

variable (texts : Texts)

theorem push_writes (hkey : KeyFor key name) (value : Argument) :
    List.Forall₂ WritesPart (push texts key value) (pushed texts name value) := by
  unfold push pushed
  split
  · exact .nil
  · refine .cons (writesPart hkey ?_ (writes_encoded _)) .nil
    exact not_mem_encoded (by decide) _

mutual

theorem brackets_writes {key : List Char} {name : String} (hkey : KeyFor key name) :
    (value : Argument) → List.Forall₂ WritesPart (brackets texts key value) (leaves name value)
  | .arr items => bracketItems_writes hkey items
  | .obj fields => bracketFields_writes hkey fields
  | .undefined | .null => .nil
  | .str s => push_writes texts hkey (.str s)
  | .other text => push_writes texts hkey (.other text)

theorem bracketItems_writes {key : List Char} {name : String} (hkey : KeyFor key name) :
    (items : List Argument) →
      List.Forall₂ WritesPart (bracketItems texts key items) (leavesOfItems name items)
  | [] => .nil
  | item :: items =>
    rel_append (brackets_writes hkey.items item) (bracketItems_writes hkey items)

theorem bracketFields_writes {key : List Char} {name : String} (hkey : KeyFor key name) :
    (fields : List (String × Argument)) →
      List.Forall₂ WritesPart (bracketFields texts key fields) (leavesOfFields name fields)
  | [] => .nil
  | (inner, value) :: fields =>
    rel_append (brackets_writes (hkey.field inner) value) (bracketFields_writes hkey fields)

end

theorem commaList_writes (hkey : KeyFor key name) (values : List String) :
    WritesPart (commaList key values) (name, commaText values) := by
  have hvalue : '&' ∉ [','].intercalate (values.map enc) ∧
      Writes ([','].intercalate (values.map enc))
        ([','].intercalate (values.map String.toList)) := by
    induction values with
    | nil => exact ⟨not_mem_nil, writes_nil⟩
    | cons value values ih =>
      have hamp : '&' ∉ enc value := not_mem_encoded (by decide) value
      cases values with
      | nil =>
        simp only [map_cons, map_nil, intercalate_singleton]
        exact ⟨hamp, writes_encoded value⟩
      | cons next values =>
        simp only [map_cons, intercalate_cons_cons] at ih ⊢
        refine ⟨?_, ((writes_encoded value).concat (by decide)).append ih.2⟩
        simp only [mem_append, not_or]
        exact ⟨⟨hamp, by decide⟩, ih.1⟩
  refine writesPart hkey hvalue.1 ?_
  rw [commaText, String.toList_ofList]
  exact hvalue.2

theorem serializeQueryParam_writes (styles : Styles) (e : String × Argument) :
    List.Forall₂ WritesPart (serializeQueryParam texts styles e.1 e.2)
      (written texts styles e) := by
  have hkey := keyFor_enc e.1
  unfold serializeQueryParam written
  dsimp only
  cases readValue texts (styleOf styles e.1) e.2 with
  | arr items =>
    dsimp only
    split
    · exact bracketItems_writes texts hkey items
    · split
      · exact .cons (commaList_writes hkey _) .nil
      · exact writesParts_flatMap items fun item => push_writes texts hkey item
  | obj fields =>
    dsimp only
    split
    · exact bracketFields_writes texts hkey fields
    · split
      · exact .cons (commaList_writes hkey _) .nil
      · exact writesParts_flatMap fields fun f => push_writes texts (keyFor_enc f.1) f.2
  | undefined => exact push_writes texts hkey .undefined
  | null => exact push_writes texts hkey .null
  | str s => exact push_writes texts hkey (.str s)
  | other text => exact push_writes texts hkey (.other text)

theorem read_serialized (params : List (String × Argument)) (styles : Styles) :
    readPairs (serializeQueryParams texts params styles) =
      some (params.flatMap (written texts styles)) :=
  readPairs_joinParts (writesParts_flatMap params (serializeQueryParam_writes texts styles))

end Written

/-! ## What the styles prescribe -/

def leafText : Argument → Option String
  | .str s => some s
  | .other text => some text
  | _ => none

def declared (styles : Styles) (name : String) : Option QueryParamStyle :=
  (styles.lookup name).join

/-- The pairs a declaration prescribes for a parameter: in brackets for `deepObject`, and for an
object without a declaration; else a comma list of the leaves, or a pair for each. -/
def prescribed (texts : Texts) (styles : Styles) (e : String × Argument) : List (String × String) :=
  let spec := declared styles e.1
  match readValue texts spec e.2 with
  | .arr items =>
    if isDeep spec then leavesOfItems e.1 items
    else if !isExploded spec then [(e.1, commaText (items.filterMap leafText))]
    else items.filterMap fun item => (leafText item).map (e.1, ·)
  | .obj fields =>
    if spec.isNone || isDeep spec then leavesOfFields e.1 fields
    else if !isExploded spec then
      [(e.1, commaText (fields.flatMap fun f => (leafText f.2).elim [] ([f.1, ·])))]
    else fields.filterMap fun f => (leafText f.2).map (f.1, ·)
  | value => (leafText value).toList.map (e.1, ·)

/-- What a parameter must be to be written as its declaration prescribes. -/
def FitsStyle (texts : Texts) (styles : Styles) (e : String × Argument) : Prop :=
  let spec := declared styles e.1
  match readValue texts spec e.2 with
  | .arr items =>
    if isDeep spec then True
    else if !isExploded spec then
      (∀ item ∈ items, (leafText item).isSome) ∨
        ∃ item, items = [item] ∧ item.isContainer = true ∧ stringOf texts item = ""
    else ∀ item ∈ items, item.isContainer = false
  | .obj fields =>
    if isDeep spec then True
    else if spec.isNone then
      styles.lookup e.1 = none → e.1 ∈ Js.objectPrototype → ∀ f ∈ fields, f.2.nullish = true
    else if !isExploded spec then ∀ f ∈ fields, (leafText f.2).isSome
    else ∀ f ∈ fields, f.2.isContainer = false
  | _ => True

section CommaLists

theorem length_commaText {values : List String} (hne : values ≠ []) :
    (commaText values).toList.length + 1 = (values.map fun v => v.toList.length + 1).sum := by
  rw [commaText, String.toList_ofList]
  induction values with
  | nil => exact absurd rfl hne
  | cons value values ih =>
    cases values with
    | nil => simp
    | cons next values =>
      have hrest := ih (cons_ne_nil _ _)
      simp only [map_cons, intercalate_cons_cons, length_append, length_cons,
        length_nil, sum_cons] at hrest ⊢
      omega

theorem sum_of_sublist {kept values : List String} (h : List.Sublist kept values) :
    (kept.map fun v => v.toList.length + 1).sum + (values.length - kept.length) ≤
      (values.map fun v => v.toList.length + 1).sum := by
  induction h with
  | slnil => exact Nat.le_refl 0
  | @cons kept values value hsub ih =>
    have hle := hsub.length_le
    rw [map_cons, sum_cons, length_cons]
    omega
  | @cons_cons kept values value hsub ih =>
    rw [map_cons, sum_cons, map_cons, sum_cons, length_cons, length_cons]
    omega

theorem commaText_sublist_iff {kept values : List String} (h : List.Sublist kept values) :
    commaText values = commaText kept ↔ values = kept ∨ (kept = [] ∧ values = [""]) := by
  constructor
  · intro htext
    have hsum := sum_of_sublist h
    have hle := h.length_le
    by_cases hvalues : values = []
    · subst hvalues
      exact .inl (sublist_nil.mp h).symm
    · have hall := length_commaText hvalues
      by_cases hkept : kept = []
      · subst hkept
        have hempty : (commaText []).toList.length = 0 := by decide
        rw [htext, hempty] at hall
        cases values with
        | nil => exact absurd rfl hvalues
        | cons value values =>
          cases values with
          | nil =>
            have hlen : value.toList.length = 0 := by simpa using hall.symm
            have hvalue : value = "" := String.toList_inj.mp (length_eq_zero_iff.mp hlen)
            exact .inr ⟨rfl, by rw [hvalue]⟩
          | cons next values =>
            rw [map_cons, sum_cons, map_cons, sum_cons] at hall
            omega
      · have hpart := length_commaText hkept
        rw [htext] at hall
        exact .inl (h.eq_of_length (by omega)).symm
  · rintro (heq | ⟨hkept, hvalues⟩)
    · rw [heq]
    · rw [hkept, hvalues]
      decide

theorem flatMap_filter_iff {α β : Type} {f : α → List β} (p : α → Bool) {l : List α}
    (hne : ∀ a ∈ l, f a ≠ []) :
    l.flatMap f = (l.filter p).flatMap f ↔ ∀ a ∈ l, p a = true := by
  constructor
  · intro h a ha
    by_contra hp
    have hlen := congrArg List.length h
    obtain ⟨before, after, rfl⟩ := append_of_mem ha
    have hsub : ∀ m : List α, ((m.filter p).flatMap f).length ≤ (m.flatMap f).length := fun m =>
      (filter_sublist.flatMap f).length_le
    have hbefore := hsub before
    have hafter := hsub after
    have hpos := length_pos_of_ne_nil (hne a ha)
    rw [filter_append, filter_cons_of_neg hp, flatMap_append, flatMap_append,
      flatMap_cons, length_append, length_append, length_append] at hlen
    omega
  · intro h
    rw [filter_eq_self.mpr h]

theorem commaText_filter_iff {α : Type} {f : α → List String} (p : α → Bool) {l : List α}
    (hne : ∀ a ∈ l, f a ≠ []) :
    commaText (l.flatMap f) = commaText ((l.filter p).flatMap f) ↔
      (∀ a ∈ l, p a = true) ∨ ((l.filter p).flatMap f = [] ∧ l.flatMap f = [""]) := by
  rw [commaText_sublist_iff (filter_sublist.flatMap f), flatMap_filter_iff p hne]

end CommaLists

section Fits

variable (texts : Texts)

theorem kinds (value : Argument) :
    (value.nullish = true ∧ leafText value = none ∧ value.isContainer = false) ∨
    (value.nullish = false ∧ leafText value = some (stringOf texts value) ∧
      value.isContainer = false) ∨
    (value.nullish = false ∧ leafText value = none ∧ value.isContainer = true) := by
  cases value with
  | undefined | null => exact .inl ⟨rfl, rfl, rfl⟩
  | str s | other text => exact .inr (.inl ⟨rfl, rfl, rfl⟩)
  | arr items | obj fields => exact .inr (.inr ⟨rfl, rfl, rfl⟩)

theorem filterMap_leafText (items : List Argument) :
    items.filterMap leafText =
      (items.filter fun item => (leafText item).isSome).flatMap fun item =>
        [stringOf texts item] := by
  induction items with
  | nil => rfl
  | cons item items ih =>
    rw [filterMap_cons, filter_cons, ih]
    obtain ⟨-, hleaf, -⟩ | ⟨-, hleaf, -⟩ | ⟨-, hleaf, -⟩ := kinds texts item <;> rw [hleaf] <;> rfl

theorem flatMap_leafText (fields : List (String × Argument)) :
    (fields.flatMap fun f => (leafText f.2).elim [] ([f.1, ·])) =
      (fields.filter fun f => (leafText f.2).isSome).flatMap fun f =>
        [f.1, stringOf texts f.2] := by
  induction fields with
  | nil => rfl
  | cons f fields ih =>
    rw [flatMap_cons, filter_cons, ih]
    obtain ⟨-, hleaf, -⟩ | ⟨-, hleaf, -⟩ | ⟨-, hleaf, -⟩ := kinds texts f.2 <;> rw [hleaf] <;> rfl

theorem commaText_items_iff (items : List Argument) :
    commaText (items.map (stringOf texts)) = commaText (items.filterMap leafText) ↔
      (∀ item ∈ items, (leafText item).isSome) ∨
        ∃ item, items = [item] ∧ item.isContainer = true ∧ stringOf texts item = "" := by
  rw [filterMap_leafText texts, map_eq_flatMap,
    commaText_filter_iff _ fun item _ => cons_ne_nil _ _]
  refine or_congr_right' fun hsome => ?_
  constructor
  · rintro ⟨-, hone⟩
    cases items with
    | nil => cases hone
    | cons item items =>
      rw [flatMap_cons] at hone
      obtain ⟨hempty, hrest⟩ := List.cons.inj hone
      have hnil : items = [] := by
        cases items with
        | nil => rfl
        | cons next items => cases hrest
      subst hnil
      refine ⟨item, rfl, ?_, hempty⟩
      cases item with
      | undefined => exact absurd (show "undefined" = "" from hempty) (by decide)
      | null => exact absurd (show "null" = "" from hempty) (by decide)
      | str s | other text => exact absurd (by simp [leafText]) hsome
      | arr items | obj fields => rfl
  · rintro ⟨item, rfl, hcontainer, hempty⟩
    refine ⟨?_, by simp [hempty]⟩
    obtain ⟨-, -, h⟩ | ⟨-, -, h⟩ | ⟨-, hleaf, -⟩ := kinds texts item
    · rw [h] at hcontainer
      cases hcontainer
    · rw [h] at hcontainer
      cases hcontainer
    · rw [filter_cons, hleaf]
      rfl

theorem commaText_fields_iff (fields : List (String × Argument)) :
    commaText (fields.flatMap fun f => [f.1, stringOf texts f.2]) =
        commaText (fields.flatMap fun f => (leafText f.2).elim [] ([f.1, ·])) ↔
      ∀ f ∈ fields, (leafText f.2).isSome := by
  rw [flatMap_leafText texts, commaText_filter_iff _ fun f _ => cons_ne_nil _ _]
  refine or_iff_left ?_
  rintro ⟨-, hone⟩
  cases fields with
  | nil => cases hone
  | cons f fields =>
    rw [flatMap_cons] at hone
    cases (List.cons.inj hone).2

end Fits

/-! ## Where the two are the same -/

/-- The names a parameter writes pairs under that its declaration does not prescribe. -/
def surplus (texts : Texts) (styles : Styles) (e : String × Argument) : List String :=
  let spec := declared styles e.1
  match readValue texts spec e.2 with
  | .arr items =>
    if isDeep spec || !isExploded spec then []
    else (items.filter fun item => item.isContainer).map fun _ => e.1
  | .obj fields =>
    if isDeep spec then []
    else if spec.isNone then
      if styles.lookup e.1 = none ∧ e.1 ∈ Js.objectPrototype then
        (fields.filter fun f => !f.2.nullish).map (·.1)
      else []
    else if !isExploded spec then []
    else (fields.filter fun f => f.2.isContainer).map (·.1)
  | _ => []

/-- How many pairs have a name of at most this length. -/
def upTo (n : Nat) (pairs : List (String × String)) : Nat :=
  pairs.countP fun p => decide (p.1.length ≤ n)

theorem upTo_append (n : Nat) (l l' : List (String × String)) :
    upTo n (l ++ l') = upTo n l + upTo n l' :=
  countP_append

section Same

variable (texts : Texts) (styles : Styles)

theorem styleOf_cases (name : String) :
    styleOf styles name = declared styles name ∧
        ¬ (styles.lookup name = none ∧ name ∈ Js.objectPrototype) ∨
      styleOf styles name = some {} ∧ declared styles name = none ∧
        (styles.lookup name = none ∧ name ∈ Js.objectPrototype) := by
  unfold styleOf declared
  cases hlookup : styles.lookup name with
  | some spec => exact .inl ⟨rfl, fun h => nomatch h.1⟩
  | none =>
    dsimp only
    split
    · exact .inr ⟨rfl, rfl, rfl, ‹_›⟩
    · exact .inl ⟨rfl, fun h => absurd h.2 ‹_›⟩

theorem upTo_pushed (n : Nat) (l : List (String × Argument)) :
    upTo n (l.flatMap fun f => pushed texts f.1 f.2) =
      upTo n (l.filterMap fun f => (leafText f.2).map (f.1, ·)) +
        ((l.filter fun f => f.2.isContainer).map (·.1)).countP fun m => m.length ≤ n := by
  induction l with
  | nil => rfl
  | cons f l ih =>
    rw [flatMap_cons, upTo_append, ih, filterMap_cons, filter_cons]
    obtain ⟨hnullish, hleaf, hcontainer⟩ | ⟨hnullish, hleaf, hcontainer⟩ |
      ⟨hnullish, hleaf, hcontainer⟩ := kinds texts f.2
    · simp [upTo, pushed, hnullish, hleaf, hcontainer]
    · simp [upTo, pushed, hnullish, hleaf, hcontainer, countP_cons]
      omega
    · simp [upTo, pushed, hnullish, hleaf, hcontainer, countP_cons]
      omega

theorem upTo_all_pushed (n : Nat) (l : List (String × Argument)) :
    upTo n (l.flatMap fun f => pushed texts f.1 f.2) =
      ((l.filter fun f => !f.2.nullish).map (·.1)).countP fun m => m.length ≤ n := by
  induction l with
  | nil => rfl
  | cons f l ih =>
    rw [flatMap_cons, upTo_append, ih, filter_cons, pushed]
    cases f.2.nullish <;> simp [upTo, countP_cons, Nat.add_comm]

theorem pushed_leaves {l : List (String × Argument)} (h : ∀ f ∈ l, f.2.isContainer = false) :
    l.flatMap (fun f => pushed texts f.1 f.2) =
      l.filterMap fun f => (leafText f.2).map (f.1, ·) := by
  induction l with
  | nil => rfl
  | cons f l ih =>
    have hrest := ih fun g hg => h g (mem_cons_of_mem f hg)
    rw [flatMap_cons, hrest, filterMap_cons]
    obtain ⟨hnullish, hleaf, -⟩ | ⟨hnullish, hleaf, -⟩ | ⟨-, -, hcontainer⟩ := kinds texts f.2
    · rw [pushed, hnullish, hleaf]
      rfl
    · rw [pushed, hnullish, hleaf]
      rfl
    · rw [h f mem_cons_self] at hcontainer
      cases hcontainer

mutual

theorem leaves_longer {name : String} :
    (value : Argument) → ∀ p ∈ leaves name value, name.length ≤ p.1.length ∧ value.nullish = false
  | .arr items => fun p hp => ⟨leavesOfItems_longer items p hp, rfl⟩
  | .obj fields => fun p hp =>
    let ⟨_, _, _, hlen⟩ := leavesOfFields_longer fields p hp
    ⟨by omega, rfl⟩
  | .undefined | .null => fun p hp => nomatch hp
  | .str _ | .other _ => fun p hp => by
    rw [mem_singleton.mp hp]
    exact ⟨Nat.le_refl _, rfl⟩

theorem leavesOfItems_longer {name : String} :
    (items : List Argument) → ∀ p ∈ leavesOfItems name items, name.length ≤ p.1.length
  | [] => fun p hp => nomatch hp
  | item :: items => fun p hp => by
    rcases mem_append.mp hp with hp | hp
    · have hlen := (leaves_longer item p hp).1
      rw [String.length_append] at hlen
      omega
    · exact leavesOfItems_longer items p hp

theorem leavesOfFields_longer {name : String} :
    (fields : List (String × Argument)) → ∀ p ∈ leavesOfFields name fields,
      ∃ f ∈ fields, f.2.nullish = false ∧ name.length + f.1.length + 2 ≤ p.1.length
  | [] => fun p hp => nomatch hp
  | (key, value) :: fields => fun p hp => by
    rcases mem_append.mp hp with hp | hp
    · obtain ⟨hlen, hnullish⟩ := leaves_longer value p hp
      refine ⟨(key, value), mem_cons_self, hnullish, ?_⟩
      rw [String.length_append, String.length_append, String.length_append] at hlen
      have hopen : "[".length = 1 := rfl
      have hclose : "]".length = 1 := rfl
      show name.length + key.length + 2 ≤ p.1.length
      omega
    · obtain ⟨f, hf, hnullish, hlen⟩ := leavesOfFields_longer fields p hp
      exact ⟨f, mem_cons_of_mem _ hf, hnullish, hlen⟩

end

/-- **What can be written for a parameter**: what is prescribed; a comma list for another style; the
form style. -/
theorem parameter_cases (e : String × Argument) :
    (written texts styles e = prescribed texts styles e ∧ surplus texts styles e = [] ∧
        FitsStyle texts styles e) ∨
    (∃ text list : String, written texts styles e = [(e.1, text)] ∧
        prescribed texts styles e = [(e.1, list)] ∧ surplus texts styles e = [] ∧
        (text = list ↔ FitsStyle texts styles e)) ∨
    (∃ l : List (String × Argument),
        written texts styles e = (l.flatMap fun f => pushed texts f.1 f.2) ∧
        prescribed texts styles e = (l.filterMap fun f => (leafText f.2).map (f.1, ·)) ∧
        surplus texts styles e = ((l.filter fun f => f.2.isContainer).map (·.1)) ∧
        (FitsStyle texts styles e ↔ ∀ f ∈ l, f.2.isContainer = false)) ∨
    (∃ fields : List (String × Argument),
        written texts styles e = (fields.flatMap fun f => pushed texts f.1 f.2) ∧
        prescribed texts styles e = leavesOfFields e.1 fields ∧
        surplus texts styles e = ((fields.filter fun f => !f.2.nullish).map (·.1)) ∧
        (FitsStyle texts styles e ↔ ∀ f ∈ fields, f.2.nullish = true)) := by
  have hread : readValue texts (styleOf styles e.1) e.2 =
      readValue texts (declared styles e.1) e.2 ∧
      isDeep (styleOf styles e.1) = isDeep (declared styles e.1) ∧
      isExploded (styleOf styles e.1) = isExploded (declared styles e.1) := by
    obtain ⟨hstyle, -⟩ | ⟨hstyle, hnone, -⟩ := styleOf_cases styles e.1
    · rw [hstyle]
      exact ⟨rfl, rfl, rfl⟩
    · rw [hstyle, hnone]
      refine ⟨?_, rfl, rfl⟩
      cases e.2 <;> rfl
  unfold written prescribed surplus FitsStyle
  dsimp only
  rw [hread.1, hread.2.1, hread.2.2]
  cases readValue texts (declared styles e.1) e.2 with
  | undefined | null | str | other => exact .inl ⟨rfl, rfl, trivial⟩
  | arr items =>
    dsimp only
    by_cases hdeep : isDeep (declared styles e.1) = true
    · simp [hdeep]
    · by_cases hexploded : isExploded (declared styles e.1) = true
      · refine .inr (.inr (.inl ⟨items.map (e.1, ·), ?_⟩))
        simp [hdeep, hexploded, flatMap_map, filterMap_map, Function.comp_def, filter_map]
      · refine .inr (.inl ⟨commaText (items.map (stringOf texts)),
          commaText (items.filterMap leafText), ?_⟩)
        have hiff := commaText_items_iff texts items
        simp [hdeep, hexploded, hiff]
  | obj fields =>
    dsimp only
    by_cases hdeep : isDeep (declared styles e.1) = true
    · simp [hdeep]
    · obtain ⟨hstyle, hproto⟩ | ⟨hstyle, hnone, hproto⟩ := styleOf_cases styles e.1
      · rw [hstyle]
        by_cases hnone : (declared styles e.1).isNone = true
        · refine .inl ⟨by simp [hdeep, hnone], ?_, ?_⟩
          · rw [if_neg hdeep, if_pos hnone, if_neg hproto]
          · rw [if_neg hdeep, if_pos hnone]
            exact fun hlookup hmem => absurd ⟨hlookup, hmem⟩ hproto
        · by_cases hexploded : isExploded (declared styles e.1) = true
          · refine .inr (.inr (.inl ⟨fields, ?_⟩))
            simp [hdeep, hnone, hexploded]
          · refine .inr (.inl ⟨commaText (fields.flatMap fun f => [f.1, stringOf texts f.2]),
              commaText (fields.flatMap fun f => (leafText f.2).elim [] ([f.1, ·])), ?_⟩)
            have hiff := commaText_fields_iff texts fields
            simp [hdeep, hnone, hexploded, hiff]
      · refine .inr (.inr (.inr ⟨fields, ?_⟩))
        rw [hstyle, hnone]
        simp [isDeep, isExploded, hproto]

variable {e : String × Argument}

theorem upTo_written {n : Nat} (hmin : ∀ m ∈ surplus texts styles e, n ≤ m.length) :
    upTo n (written texts styles e) = upTo n (prescribed texts styles e) +
      (surplus texts styles e).countP fun m => m.length ≤ n := by
  obtain ⟨hsame, hnone, -⟩ | ⟨text, list, hw, hp, hnone, -⟩ | ⟨l, hw, hp, hs, -⟩ |
    ⟨fields, hw, hp, hs, -⟩ := parameter_cases texts styles e
  · rw [hsame, hnone]
    rfl
  · rw [hw, hp, hnone]
    rfl
  · rw [hw, hp, hs]
    exact upTo_pushed texts n l
  · have hlonger : upTo n (leavesOfFields e.1 fields) = 0 := by
      refine countP_eq_zero.mpr fun p hp => ?_
      obtain ⟨f, hf, hnullish, hlen⟩ := leavesOfFields_longer fields p hp
      have hshort := hmin f.1 (by
        rw [hs]
        exact mem_map_of_mem (mem_filter.mpr ⟨hf, by rw [hnullish]; rfl⟩))
      simp only [decide_eq_true_eq]
      omega
    rw [hw, hp, hs, hlonger, Nat.zero_add]
    exact upTo_all_pushed texts n fields

theorem filter_map_eq_nil {p : Argument → Bool} {l : List (String × Argument)}
    (h : (l.filter fun f => p f.2).map (·.1) = []) : ∀ f ∈ l, p f.2 = false := by
  intro f hf
  have h' := filter_eq_nil_iff.mp (map_eq_nil_iff.mp h) f hf
  simpa using h'

/-- Without surplus names a parameter fits when its pairs are those prescribed, as many. -/
theorem fits_iff_of_surplus (h : surplus texts styles e = []) :
    (written texts styles e).length = (prescribed texts styles e).length ∧
      (written texts styles e = prescribed texts styles e ↔ FitsStyle texts styles e) := by
  obtain ⟨hsame, -, hfits⟩ | ⟨text, list, hw, hp, -, hiff⟩ | ⟨l, hw, hp, hs, hiff⟩ |
    ⟨fields, hw, hp, hs, hiff⟩ := parameter_cases texts styles e
  · rw [hsame]
    exact ⟨rfl, iff_of_true rfl hfits⟩
  · rw [hw, hp, ← hiff]
    exact ⟨rfl, by simp⟩
  · have hleaves := filter_map_eq_nil (hs.symm.trans h)
    rw [hw, hp, pushed_leaves texts hleaves]
    exact ⟨rfl, iff_of_true rfl (hiff.mpr hleaves)⟩
  · have hnullish : ∀ f ∈ fields, f.2.nullish = true := fun f hf => by
      simpa using filter_map_eq_nil (p := fun value => !value.nullish) (hs.symm.trans h) f hf
    have hempty : ∀ l : List (String × Argument), (∀ f ∈ l, f.2.nullish = true) →
        leavesOfFields e.1 l = [] := by
      intro l hl
      refine eq_nil_iff_forall_not_mem.mpr fun p hp => ?_
      obtain ⟨f, hf, hno, -⟩ := leavesOfFields_longer l p hp
      rw [hl f hf] at hno
      cases hno
    have hpushed : (fields.flatMap fun f => pushed texts f.1 f.2) = [] :=
      flatMap_eq_nil_iff.mpr fun f hf => by
        rw [pushed, hnullish f hf]
        rfl
    rw [hw, hp, hpushed, hempty fields hnullish]
    exact ⟨rfl, iff_of_true rfl (hiff.mpr hnullish)⟩

theorem surplus_of_fits (h : FitsStyle texts styles e) :
    surplus texts styles e = [] := by
  obtain ⟨-, hs, -⟩ | ⟨text, list, -, -, hs, -⟩ | ⟨l, -, -, hs, hiff⟩ | ⟨fields, -, -, hs, hiff⟩ :=
    parameter_cases texts styles e
  · exact hs
  · exact hs
  · rw [hs, map_eq_nil_iff, filter_eq_nil_iff]
    exact fun f hf => by rw [hiff.mp h f hf]; decide
  · rw [hs, map_eq_nil_iff, filter_eq_nil_iff]
    exact fun f hf => by rw [hiff.mp h f hf]; decide

theorem upTo_query {n : Nat} {params : List (String × Argument)}
    (hmin : ∀ m ∈ params.flatMap (surplus texts styles), n ≤ m.length) :
    upTo n (params.flatMap (written texts styles)) =
      upTo n (params.flatMap (prescribed texts styles)) +
        (params.flatMap (surplus texts styles)).countP fun m => m.length ≤ n := by
  induction params with
  | nil => rfl
  | cons e params ih =>
    rw [flatMap_cons] at hmin
    have hhead := upTo_written texts styles fun m hm => hmin m (mem_append_left _ hm)
    have hrest := ih fun m hm => hmin m (mem_append_right _ hm)
    rw [flatMap_cons, flatMap_cons, flatMap_cons, upTo_append, upTo_append,
      countP_append, hhead, hrest]
    omega

/-- A surplus name would be written more often than it is prescribed. -/
theorem no_surplus {params : List (String × Argument)}
    (h : params.flatMap (written texts styles) = params.flatMap (prescribed texts styles)) :
    ∀ e ∈ params, surplus texts styles e = [] := by
  refine flatMap_eq_nil_iff.mp ?_
  by_contra hsome
  obtain ⟨first, hfirst⟩ := exists_mem_of_ne_nil _ hsome
  obtain ⟨m, hm, hmin⟩ := Finset.exists_min_image
    (params.flatMap (surplus texts styles)).toFinset String.length
    ⟨first, mem_toFinset.mpr hfirst⟩
  have hcount := upTo_query texts styles (n := m.length) fun m' hm' =>
    hmin m' (mem_toFinset.mpr hm')
  rw [h] at hcount
  have hpos : 0 < (params.flatMap (surplus texts styles)).countP fun m' => m'.length ≤ m.length :=
    countP_pos_iff.mpr ⟨m, mem_toFinset.mp hm, by simp⟩
  omega

theorem parts_of_flatMap_eq {α β : Type} {f g : α → List β} {l : List α}
    (hlen : ∀ a ∈ l, (f a).length = (g a).length) (h : l.flatMap f = l.flatMap g) :
    ∀ a ∈ l, f a = g a := by
  induction l with
  | nil => exact fun a ha => absurd ha not_mem_nil
  | cons a l ih =>
    rw [flatMap_cons, flatMap_cons] at h
    obtain ⟨hhead, hrest⟩ := append_inj h (hlen a mem_cons_self)
    exact forall_mem_cons.mpr
      ⟨hhead, ih (fun b hb => hlen b (mem_cons_of_mem a hb)) hrest⟩

/-- **A query says what its declarations prescribe** exactly when every parameter fits its style. -/
theorem query_as_declared_iff (params : List (String × Argument)) :
    readPairs (serializeQueryParams texts params styles) =
        some (params.flatMap (prescribed texts styles)) ↔
      ∀ e ∈ params, FitsStyle texts styles e := by
  rw [read_serialized, Option.some.injEq]
  constructor
  · intro h
    have hnone := no_surplus texts styles h
    have hsame := parts_of_flatMap_eq
      (fun e he => (fits_iff_of_surplus texts styles (hnone e he)).1) h
    exact fun e he => (fits_iff_of_surplus texts styles (hnone e he)).2.mp (hsame e he)
  · intro h
    refine flatMap_congr fun e he => ?_
    have hfits := h e he
    exact (fits_iff_of_surplus texts styles (surplus_of_fits texts styles hfits)).2.mpr hfits

/-- `ids` is declared not to be exploded, and one of its items is `null`. -/
theorem null_in_comma_list :
    ∃ (texts : Texts) (styles : Styles) (params : List (String × Argument)),
      params = [("ids", .arr [.other "1", .null])] ∧
      readPairs (serializeQueryParams texts params styles) = some [("ids", "1,null")] ∧
      params.flatMap (prescribed texts styles) = [("ids", "1")] := by
  refine ⟨⟨fun _ => "", fun _ => none⟩, [("ids", some { explode := some false })], _, rfl, ?_, ?_⟩
  · decide
  · decide

end Same

end Almyty.Tools.QueryString
