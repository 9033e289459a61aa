import Almyty.Lib.JsValue
import Almyty.Lib.JsPath

/-!
# A run's input against its schema: `agents/input-schema.ts`

`schemaProblems` walks the schema and the value together and says at each place what is wrong there.
A key is read as any property is, so a name that every object inherits is never missing, and what is
inherited is checked where the object has no such key; and a member of an `enum` is compared with
`===`, so no object or array is one. `schemaProblems_iff` says when that makes a difference: when
nothing else is wrong with the value, and only one of the two happens.
-/

namespace Almyty.Agents.InputSchema

open Almyty.Lib List
open Almyty.Lib.Js (At)

inductive Schema
  /-- No object: there is nothing to check. -/
  | any
  | keywords (type enum required : Option Json) (properties : List (String × Schema))
      (items : Option Schema)

/-! ## The check -/

def JSON_TYPES : List String :=
  ["object", "array", "string", "number", "integer", "boolean", "null"]

def typeOf : At → String
  | .undefined => "undefined"
  | .json .null => "null"
  | .json (.bool _) => "boolean"
  | .json (.num _) => "number"
  | .json (.str _) => "string"
  | .json (.arr _) | .arrayPrototype => "array"
  | .json (.obj _) | .objectPrototype => "object"
  | .method => "function"

def isInteger : At → Bool
  | .json (.num n) => n.den = 1
  | _ => false

def matchesType (value : At) (type : String) : Bool :=
  if type = "integer" then isInteger value else typeOf value = type

def typeNames : Option Json → List String
  | some (.arr names) => names.filterMap fun name =>
    match name with
    | .str t => some t
    | _ => none
  | some (.str t) => [t]
  | _ => []

def known (type : Option Json) : List String := (typeNames type).filter JSON_TYPES.contains

def strictEqual (value : At) : Json → Bool
  | .null => value = .json .null
  | .bool b => value = .json (.bool b)
  | .num n => value = .json (.num n)
  | .str s => value = .json (.str s)
  | .arr _ | .obj _ => false

def elements : At → List Json
  | .json (.arr xs) => xs
  | _ => []

section

variable (numberText : Rat → String)

def typeProblems (type : Option Json) (value : At) (path : String) : List String :=
  if known type ≠ [] ∧ ¬ (known type).any (matchesType value) then
    [path ++ " must be " ++ " or ".intercalate (known type) ++ ", and it is " ++ typeOf value]
  else []

def enumProblems (enum : Option Json) (value : At) (path : String) : List String :=
  match enum with
  | some (.arr allowed) =>
    if allowed.any (strictEqual value) then []
    else [path ++ " must be one of " ++ ", ".intercalate (allowed.map (Json.text numberText))]
  | _ => []

def requiredProblems (required : Option Json) (value : At) (path : String) : List String :=
  match required with
  | some (.arr keys) => keys.filterMap fun key =>
    match key with
    | .str key =>
      if value.get key = .undefined then some (path ++ "." ++ key ++ " is required and was not given")
      else none
    | _ => none
  | _ => []

mutual

def schemaProblems : Schema → At → String → List String
  | .any, _, _ => []
  | .keywords type enum required properties items, value, path =>
    -- nothing below can be checked against a value of the wrong shape
    if typeProblems type value path ≠ [] then typeProblems type value path
    else
      enumProblems numberText enum value path ++
        (if typeOf value = "object" then
          requiredProblems required value path ++ propertiesProblems properties value path
        else []) ++
        itemsProblems items (elements value) path

def propertiesProblems : List (String × Schema) → At → String → List String
  | [], _, _ => []
  | (key, sub) :: rest, value, path =>
    (if value.get key = .undefined then []
    else schemaProblems sub (value.get key) (path ++ "." ++ key)) ++
      propertiesProblems rest value path

def itemsProblems : Option Schema → List Json → String → List String
  | none, _, _ => []
  | some items, xs, path => xs.zipIdx.flatMap fun (item, i) =>
    schemaProblems items (.json item) (path ++ "[" ++ i.repr ++ "]")

end

end

/-! ## What a schema says -/

section Meaning

def Everywhere (here : Schema → Json → Prop) : Schema → Json → Prop
  | .any, _ => True
  | .keywords type enum required properties items, value =>
    here (.keywords type enum required properties items) value ∧
      eachProperty properties value ∧ eachItem items value
where
  eachProperty : List (String × Schema) → Json → Prop
    | [], _ => True
    | (key, sub) :: rest, value =>
      (∀ fields child, value = .obj fields → fields.lookup key = some child →
        Everywhere here sub child) ∧ eachProperty rest value
  eachItem : Option Schema → Json → Prop
    | none, _ => True
    | some items, value => ∀ xs, value = .arr xs → ∀ x ∈ xs, Everywhere here items x

def HasType (value : Json) : String → Prop
  | "object" => ∃ fields, value = .obj fields
  | "array" => ∃ items, value = .arr items
  | "string" => ∃ s, value = .str s
  | "number" => ∃ n, value = .num n
  | "integer" => ∃ n : Int, value = .num n
  | "boolean" => ∃ b, value = .bool b
  | "null" => value = .null
  | _ => False

/-- Names that are no type's constrain nothing by themselves. -/
def TypeAllows (type : Option Json) (value : Json) : Prop :=
  (∃ t ∈ typeNames type, t ∈ JSON_TYPES) → ∃ t ∈ typeNames type, HasType value t

def EnumAllows (enum : Option Json) (value : Json) : Prop :=
  ∀ allowed, enum = some (.arr allowed) → ∃ a ∈ allowed, value.Eqv a

def Owned (of : String → Prop) (required : Option Json) (value : Json) : Prop :=
  ∀ keys fields, required = some (.arr keys) → value = .obj fields →
    ∀ key, Json.str key ∈ keys → of key → fields.lookup key ≠ none

def SatisfiedHere : Schema → Json → Prop
  | .any, _ => True
  | .keywords type enum required _ _, value =>
    TypeAllows type value ∧ EnumAllows enum value ∧ Owned (fun _ => True) required value

def Satisfies : Schema → Json → Prop := Everywhere SatisfiedHere

/-! ### Where the check differs -/

def Inherited (key : String) : Prop := key ∈ Js.objectPrototype

instance (key : String) : Decidable (Inherited key) := inferInstanceAs (Decidable (_ ∈ _))

def NoEnum (enum : Option Json) : Prop := ∀ allowed, enum ≠ some (.arr allowed)

def AcceptsMethod : Schema → Prop
  | .any => True
  | .keywords type enum _ _ _ => known type = [] ∧ NoEnum enum

def AcceptsPrototype : Schema → Prop
  | .any => True
  | .keywords type enum required properties _ =>
    (known type ≠ [] → "object" ∈ known type) ∧ NoEnum enum ∧
      (∀ keys, required = some (.arr keys) → ∀ key, Json.str key ∈ keys → Inherited key) ∧
      ∀ key sub, (key, sub) ∈ properties → (key = "__proto__" → Satisfies sub .null) ∧
        (Inherited key → key ≠ "__proto__" → AcceptsMethod sub)

def OtherwiseHere : Schema → Json → Prop
  | .any, _ => True
  | .keywords type enum required _ _, value =>
    TypeAllows type value ∧ EnumAllows enum value ∧ Owned (¬ Inherited ·) required value

def OwnsHere : Schema → Json → Prop
  | .any, _ => True
  | .keywords _ _ required _ _, value => Owned Inherited required value

def IsScalar : Json → Prop
  | .arr _ | .obj _ => False
  | _ => True

/-- What the check accepts of the value's inheritance. -/
def AcceptsInherited (properties : List (String × Schema)) (fields : Fields) : Prop :=
  ∀ key sub, (key, sub) ∈ properties → fields.lookup key = none →
    (key = "__proto__" → AcceptsPrototype sub) ∧
    (Inherited key → key ≠ "__proto__" → AcceptsMethod sub)

def ReadableHere : Schema → Json → Prop
  | .any, _ => True
  | .keywords _ enum _ properties _, value =>
    (NoEnum enum ∨ IsScalar value) ∧ ∀ fields, value = .obj fields → AcceptsInherited properties fields

/-! ### Places -/

section Places

variable {p q : Schema → Json → Prop}

mutual

theorem everywhere_and : (schema : Schema) → ∀ value : Json,
    Everywhere (fun s v => p s v ∧ q s v) schema value ↔
      Everywhere p schema value ∧ Everywhere q schema value
  | .any, _ => by simp [Everywhere]
  | .keywords type enum required properties items, value => by
    rw [Everywhere, Everywhere, Everywhere, eachProperty_and properties value,
      eachItem_and items value]
    constructor
    · rintro ⟨⟨hp, hq⟩, ⟨hpp, hqp⟩, hpi, hqi⟩
      exact ⟨⟨hp, hpp, hpi⟩, hq, hqp, hqi⟩
    · rintro ⟨⟨hp, hpp, hpi⟩, hq, hqp, hqi⟩
      exact ⟨⟨hp, hq⟩, ⟨hpp, hqp⟩, hpi, hqi⟩

theorem eachProperty_and : (properties : List (String × Schema)) → ∀ value : Json,
    Everywhere.eachProperty (fun s v => p s v ∧ q s v) properties value ↔
      Everywhere.eachProperty p properties value ∧ Everywhere.eachProperty q properties value
  | [], _ => by simp [Everywhere.eachProperty]
  | (key, sub) :: rest, value => by
    rw [Everywhere.eachProperty, Everywhere.eachProperty, Everywhere.eachProperty,
      eachProperty_and rest value]
    simp only [everywhere_and sub]
    constructor
    · rintro ⟨hchild, hp, hq⟩
      exact ⟨⟨fun fields child hv hl => (hchild fields child hv hl).1, hp⟩,
        fun fields child hv hl => (hchild fields child hv hl).2, hq⟩
    · rintro ⟨⟨hcp, hp⟩, hcq, hq⟩
      exact ⟨fun fields child hv hl => ⟨hcp fields child hv hl, hcq fields child hv hl⟩, hp, hq⟩

theorem eachItem_and : (items : Option Schema) → ∀ value : Json,
    Everywhere.eachItem (fun s v => p s v ∧ q s v) items value ↔
      Everywhere.eachItem p items value ∧ Everywhere.eachItem q items value
  | none, _ => by simp [Everywhere.eachItem]
  | some items, value => by
    rw [Everywhere.eachItem, Everywhere.eachItem, Everywhere.eachItem]
    simp only [everywhere_and items]
    constructor
    · intro h
      exact ⟨fun xs hv x hx => (h xs hv x hx).1, fun xs hv x hx => (h xs hv x hx).2⟩
    · rintro ⟨hp, hq⟩ xs hv x hx
      exact ⟨hp xs hv x hx, hq xs hv x hx⟩

end

theorem eachProperty_of_not_object {value : Json} (h : ∀ fields, value ≠ .obj fields)
    (properties : List (String × Schema)) : Everywhere.eachProperty p properties value := by
  induction properties with
  | nil => trivial
  | cons entry rest ih =>
    obtain ⟨key, sub⟩ := entry
    exact ⟨fun fields child hv _ => absurd hv (h fields), ih⟩

end Places

/-! ### Here -/

section Here

theorem satisfiedHere_iff (schema : Schema) (value : Json) :
    SatisfiedHere schema value ↔ OtherwiseHere schema value ∧ OwnsHere schema value := by
  cases schema with
  | any => simp [SatisfiedHere, OtherwiseHere, OwnsHere]
  | keywords type enum required properties items =>
    constructor
    · rintro ⟨htype, henum, howned⟩
      exact ⟨⟨htype, henum, fun keys fields hk hv key hmem _ =>
        howned keys fields hk hv key hmem trivial⟩,
        fun keys fields hk hv key hmem _ => howned keys fields hk hv key hmem trivial⟩
    · rintro ⟨⟨htype, henum, hnot⟩, howned⟩
      refine ⟨htype, henum, fun keys fields hk hv key hmem _ => ?_⟩
      by_cases hinherited : Inherited key
      · exact howned keys fields hk hv key hmem hinherited
      · exact hnot keys fields hk hv key hmem hinherited

variable {value : Json} {path : String}

theorem hasType_known {t : String} (h : HasType value t) : t ∈ JSON_TYPES := by
  unfold HasType at h
  split at h <;> first | decide | exact h.elim

theorem matchesType_iff {t : String} (ht : t ∈ JSON_TYPES) :
    matchesType (.json value) t = true ↔ HasType value t := by
  have hint (n : Rat) : n.den = 1 ↔ ∃ m : Int, Json.num n = .num m := by
    constructor
    · intro h
      exact ⟨n.num, congrArg Json.num (Rat.den_eq_one_iff n |>.mp h).symm⟩
    · rintro ⟨m, h⟩
      rw [Json.num.inj h]
      rfl
  simp only [JSON_TYPES, mem_cons, not_mem_nil, or_false] at ht
  rcases ht with rfl | rfl | rfl | rfl | rfl | rfl | rfl <;> cases value <;>
    simp [matchesType, HasType, typeOf, isInteger, hint]

theorem typeProblems_json {type : Option Json} :
    typeProblems type (.json value) path = [] ↔ TypeAllows type value := by
  have hknown (t : String) : t ∈ known type ↔ t ∈ typeNames type ∧ t ∈ JSON_TYPES := by
    simp [known]
  rw [typeProblems]
  split
  · rename_i h
    obtain ⟨hne, hany⟩ := h
    refine ⟨fun h => absurd h (cons_ne_nil _ _), fun hallows => absurd ?_ hany⟩
    obtain ⟨t, ht⟩ := exists_mem_of_ne_nil _ hne
    obtain ⟨t', hmem, htype⟩ := hallows ⟨t, (hknown t).mp ht⟩
    have hjson := hasType_known htype
    exact any_eq_true.mpr ⟨t', (hknown t').mpr ⟨hmem, hjson⟩, (matchesType_iff hjson).mpr htype⟩
  · rename_i h
    refine ⟨fun _ => ?_, fun _ => rfl⟩
    rintro ⟨t, ht⟩
    have hany : (known type).any (matchesType (.json value)) = true :=
      Classical.byContradiction fun hany => h ⟨ne_nil_of_mem ((hknown t).mpr ht), hany⟩
    obtain ⟨t', hmem, hmatch⟩ := any_eq_true.mp hany
    obtain ⟨hname, hjson⟩ := (hknown t').mp hmem
    exact ⟨t', hname, (matchesType_iff hjson).mp hmatch⟩

theorem strictEqual_iff {a : Json} :
    strictEqual (.json value) a = true ↔ IsScalar value ∧ value.Eqv a := by
  constructor
  · intro h
    cases a with
    | arr | obj => cases h
    | _ =>
      have heq := of_decide_eq_true h
      rw [At.json.inj heq]
      exact ⟨trivial, .refl _⟩
  · rintro ⟨hscalar, heqv⟩
    cases heqv with
    | arr | obj => exact hscalar.elim
    | _ => simp [strictEqual]

variable {numberText : Rat → String}

theorem enumProblems_json {enum : Option Json} :
    enumProblems numberText enum (.json value) path = [] ↔
      EnumAllows enum value ∧ (NoEnum enum ∨ IsScalar value) := by
  unfold enumProblems
  split
  · rename_i allowed
    split
    · rename_i h
      obtain ⟨a, ha, hequal⟩ := any_eq_true.mp h
      obtain ⟨hscalar, heqv⟩ := strictEqual_iff.mp hequal
      refine ⟨fun _ => ⟨fun allowed' hallowed => ?_, .inr hscalar⟩, fun _ => rfl⟩
      obtain rfl := Json.arr.inj (Option.some.inj hallowed)
      exact ⟨a, ha, heqv⟩
    · rename_i h
      refine ⟨fun h => absurd h (cons_ne_nil _ _), ?_⟩
      rintro ⟨hallows, hno | hscalar⟩
      · exact absurd rfl (hno allowed)
      · obtain ⟨a, ha, heqv⟩ := hallows allowed rfl
        exact absurd (any_eq_true.mpr ⟨a, ha, strictEqual_iff.mpr ⟨hscalar, heqv⟩⟩) h
  · rename_i hno
    refine ⟨fun _ => ⟨fun allowed hallowed => absurd hallowed (hno allowed), .inl hno⟩, fun _ => rfl⟩

theorem enumProblems_other {enum : Option Json} {value : At} (hvalue : ∀ v, value ≠ .json v) :
    enumProblems numberText enum value path = [] ↔ NoEnum enum := by
  unfold enumProblems
  split
  · rename_i allowed
    have hnone : ¬ allowed.any (strictEqual value) = true := by
      intro h
      obtain ⟨a, -, hequal⟩ := any_eq_true.mp h
      cases a with
      | arr | obj => cases hequal
      | _ => exact hvalue _ (of_decide_eq_true hequal)
    rw [if_neg hnone]
    exact ⟨fun h => absurd h (cons_ne_nil _ _), fun hno => absurd rfl (hno allowed)⟩
  · rename_i hno
    exact ⟨fun _ => hno, fun _ => rfl⟩

theorem requiredProblems_nil {required : Option Json} {value : At} :
    requiredProblems required value path = [] ↔ ∀ keys, required = some (.arr keys) →
      ∀ key, Json.str key ∈ keys → value.get key ≠ .undefined := by
  unfold requiredProblems
  split
  · rename_i keys
    rw [filterMap_eq_nil_iff]
    constructor
    · intro h keys' hkeys key hmem hundefined
      obtain rfl := Json.arr.inj (Option.some.inj hkeys)
      have hkey := h (.str key) hmem
      simp [hundefined] at hkey
    · intro h key hmem
      cases key with
      | str key => exact if_neg (h keys rfl key hmem)
      | _ => rfl
  · rename_i hno
    exact ⟨fun _ keys hkeys => absurd hkeys (hno keys), fun _ => rfl⟩

theorem get_inherited {fields : Fields} {key : String} (h : fields.lookup key = none) :
    (At.json (.obj fields)).get key =
      if key = "__proto__" then .objectPrototype
      else if Inherited key then .method else .undefined := by
  rw [At.get, h]
  rfl

theorem get_undefined_iff {fields : Fields} {key : String} :
    (At.json (.obj fields)).get key = .undefined ↔ fields.lookup key = none ∧ ¬ Inherited key := by
  cases hlookup : fields.lookup key with
  | some child => simp [At.get, hlookup]
  | none =>
    rw [get_inherited hlookup]
    by_cases hproto : key = "__proto__"
    · subst hproto
      have hin : Inherited "__proto__" := by decide
      simp [hin]
    · by_cases hin : Inherited key <;> simp [hproto, hin]

end Here

/-! ## The walk -/

section Walk

variable {numberText : Rat → String}

theorem itemsProblems_nil (items : Option Schema) (path : String) :
    itemsProblems numberText items [] path = [] := by
  cases items <;> simp [itemsProblems]

variable {path : String}

theorem schemaProblems_leaf {type enum required : Option Json} {properties : List (String × Schema)}
    {items : Option Schema} {value : At} (hobject : typeOf value ≠ "object")
    (harray : elements value = []) :
    schemaProblems numberText (.keywords type enum required properties items) value path = [] ↔
      typeProblems type value path = [] ∧ enumProblems numberText enum value path = [] := by
  rw [schemaProblems]
  by_cases htype : typeProblems type value path = []
  · rw [if_neg (not_not.mpr htype), if_neg hobject, append_nil, harray, itemsProblems_nil,
      append_nil]
    exact ⟨fun h => ⟨htype, h⟩, fun h => h.2⟩
  · rw [if_pos htype]
    exact ⟨fun h => absurd h htype, fun h => absurd h.1 htype⟩

theorem schemaProblems_method {schema : Schema} :
    schemaProblems numberText schema .method path = [] ↔ AcceptsMethod schema := by
  cases schema with
  | any => simp [schemaProblems, AcceptsMethod]
  | keywords type enum required properties items =>
    have htype : typeProblems type .method path = [] ↔ known type = [] := by
      have hany : ¬ (known type).any (matchesType .method) = true := by
        intro h
        obtain ⟨t, ht, hmatch⟩ := any_eq_true.mp h
        have hjson : t ∈ JSON_TYPES := by simpa using (mem_filter.mp ht).2
        simp only [JSON_TYPES, mem_cons, not_mem_nil, or_false] at hjson
        rcases hjson with rfl | rfl | rfl | rfl | rfl | rfl | rfl <;> revert hmatch <;> decide
      rw [typeProblems]
      by_cases hknown : known type = []
      · simp [hknown]
      · rw [if_pos ⟨hknown, hany⟩]
        exact ⟨fun h => absurd h (cons_ne_nil _ _), fun h => absurd h hknown⟩
    rw [schemaProblems_leaf (by decide) rfl, htype, enumProblems_other (fun v h => by cases h)]
    rfl

theorem schemaProblems_null {schema : Schema} :
    schemaProblems numberText schema (.json .null) path = [] ↔ Satisfies schema .null := by
  cases schema with
  | any => simp [schemaProblems, Satisfies, Everywhere]
  | keywords type enum required properties items =>
    have hproperties (properties : List (String × Schema)) :
        Everywhere.eachProperty SatisfiedHere properties .null :=
      eachProperty_of_not_object (fun fields h => by cases h) properties
    have hitems : Everywhere.eachItem SatisfiedHere items .null := by
      cases items with
      | none => trivial
      | some items => exact fun xs h => by cases h
    have howned : Owned (fun _ => True) required .null := fun keys fields _ h => by cases h
    rw [schemaProblems_leaf (by decide) rfl, typeProblems_json, enumProblems_json]
    constructor
    · rintro ⟨htype, henum, -⟩
      exact ⟨⟨htype, henum, howned⟩, hproperties properties, hitems⟩
    · rintro ⟨⟨htype, henum, -⟩, -, -⟩
      exact ⟨htype, henum, .inr trivial⟩

theorem schemaProblems_prototype {schema : Schema} :
    schemaProblems numberText schema .objectPrototype path = [] ↔ AcceptsPrototype schema := by
  cases schema with
  | any => simp [schemaProblems, AcceptsPrototype]
  | keywords type enum required properties items =>
    have htype : typeProblems type .objectPrototype path = [] ↔
        (known type ≠ [] → "object" ∈ known type) := by
      have hmatch (t : String) (ht : t ∈ known type) :
          matchesType .objectPrototype t = true ↔ t = "object" := by
        have hjson : t ∈ JSON_TYPES := by simpa using (mem_filter.mp ht).2
        simp only [JSON_TYPES, mem_cons, not_mem_nil, or_false] at hjson
        rcases hjson with rfl | rfl | rfl | rfl | rfl | rfl | rfl <;> decide
      have hany : (known type).any (matchesType .objectPrototype) = true ↔
          "object" ∈ known type := by
        rw [any_eq_true]
        constructor
        · rintro ⟨t, ht, h⟩
          rwa [← (hmatch t ht).mp h]
        · intro h
          exact ⟨"object", h, (hmatch _ h).mpr rfl⟩
      unfold typeProblems
      split
      · rename_i h
        exact ⟨fun h => absurd h (cons_ne_nil _ _), fun hin => absurd (hany.mpr (hin h.1)) h.2⟩
      · rename_i h
        exact ⟨fun _ hne => hany.mp (Classical.byContradiction fun hout => h ⟨hne, hout⟩),
          fun _ => rfl⟩
    have hget (key : String) : At.objectPrototype.get key =
        if key = "__proto__" then .json .null else if Inherited key then .method else .undefined := by
      rw [At.get, Js.inherited]
      by_cases hproto : key = "__proto__"
      · simp [hproto]
      · rw [if_neg hproto, if_neg hproto, if_neg hproto]
        rfl
    have hrequired : requiredProblems required .objectPrototype path = [] ↔
        ∀ keys, required = some (.arr keys) → ∀ key, Json.str key ∈ keys → Inherited key := by
      have hkey (key : String) : At.objectPrototype.get key ≠ .undefined ↔ Inherited key := by
        rw [hget]
        by_cases hproto : key = "__proto__"
        · subst hproto
          have hin : Inherited "__proto__" := by decide
          simp [hin]
        · by_cases hin : Inherited key <;> simp [hproto, hin]
      rw [requiredProblems_nil]
      simp only [hkey]
    have hproperties (properties : List (String × Schema)) :
        propertiesProblems numberText properties .objectPrototype path = [] ↔
          ∀ key sub, (key, sub) ∈ properties → (key = "__proto__" → Satisfies sub .null) ∧
            (Inherited key → key ≠ "__proto__" → AcceptsMethod sub) := by
      induction properties with
      | nil => simp [propertiesProblems]
      | cons entry rest ih =>
        obtain ⟨key, sub⟩ := entry
        have hhead : (if At.objectPrototype.get key = .undefined then []
            else schemaProblems numberText sub (At.objectPrototype.get key) (path ++ "." ++ key)) =
              [] ↔ (key = "__proto__" → Satisfies sub .null) ∧
            (Inherited key → key ≠ "__proto__" → AcceptsMethod sub) := by
          rw [hget]
          by_cases hproto : key = "__proto__"
          · subst hproto
            simp [schemaProblems_null]
          · by_cases hin : Inherited key
            · simp [hproto, hin, schemaProblems_method]
            · simp [hproto, hin]
        rw [propertiesProblems, append_eq_nil_iff, hhead, ih]
        constructor
        · rintro ⟨hfirst, hrest⟩ key' sub' hmem
          rcases mem_cons.mp hmem with heq | hmem
          · obtain ⟨rfl, rfl⟩ := Prod.mk.inj heq
            exact hfirst
          · exact hrest key' sub' hmem
        · intro h
          exact ⟨h key sub mem_cons_self,
            fun key' sub' hmem => h key' sub' (mem_cons_of_mem _ hmem)⟩
    rw [schemaProblems]
    by_cases hproblems : typeProblems type .objectPrototype path = []
    · have htyped := htype.mp hproblems
      have hnone : elements .objectPrototype = [] := rfl
      rw [if_neg (not_not.mpr hproblems), if_pos (by decide), hnone, itemsProblems_nil,
        append_nil, append_eq_nil_iff, append_eq_nil_iff,
        enumProblems_other (fun v h => by cases h), hrequired, hproperties]
      exact ⟨fun h => ⟨htyped, h.1, h.2.1, h.2.2⟩, fun h => ⟨h.2.1, h.2.2.1, h.2.2.2⟩⟩
    · rw [if_pos hproblems]
      exact ⟨fun h => absurd h hproblems, fun h => absurd (htype.mpr h.1) hproblems⟩

/-- What the check asks for at a place. -/
def AcceptedHere (schema : Schema) (value : Json) : Prop :=
  OtherwiseHere schema value ∧ ReadableHere schema value

theorem requiredProblems_json {required : Option Json} {value : Json}
    (hobject : typeOf (.json value) = "object") :
    requiredProblems required (.json value) path = [] ↔ Owned (¬ Inherited ·) required value := by
  cases value with
  | obj fields =>
    rw [requiredProblems_nil]
    simp only [ne_eq, get_undefined_iff]
    constructor
    · intro h keys fields' hkeys hvalue key hmem hout hnone
      obtain rfl := Json.obj.inj hvalue
      exact h keys hkeys key hmem ⟨hnone, hout⟩
    · rintro h keys hkeys key hmem ⟨hnone, hout⟩
      exact h keys fields hkeys rfl key hmem hout hnone
  | _ => exact absurd hobject (by simp [typeOf])

mutual

theorem schemaProblems_json : (schema : Schema) → ∀ (value : Json) (path : String),
    schemaProblems numberText schema (.json value) path = [] ↔ Everywhere AcceptedHere schema value
  | .any, value, path => by simp [schemaProblems, Everywhere]
  | .keywords type enum required properties items, value, path => by
    rw [schemaProblems, Everywhere]
    by_cases htype : typeProblems type (.json value) path = []
    · have hallows := typeProblems_json.mp htype
      rw [if_neg (not_not.mpr htype), append_eq_nil_iff, append_eq_nil_iff,
        enumProblems_json, itemsProblems_json items value path]
      by_cases hobject : ∃ fields, value = .obj fields
      · obtain ⟨fields, rfl⟩ := hobject
        have htypeOf : typeOf (.json (.obj fields)) = "object" := rfl
        rw [if_pos htypeOf, append_eq_nil_iff, requiredProblems_json htypeOf,
          propertiesProblems_json properties fields path]
        constructor
        · rintro ⟨⟨⟨henum, hscalar⟩, howned, hproperties, hinherited⟩, hitems⟩
          refine ⟨⟨⟨hallows, henum, howned⟩, hscalar, fun fields' hfields => ?_⟩, hproperties, hitems⟩
          rwa [← Json.obj.inj hfields]
        · rintro ⟨⟨⟨-, henum, howned⟩, hscalar, hinherited⟩, hproperties, hitems⟩
          exact ⟨⟨⟨henum, hscalar⟩, howned, hproperties, hinherited fields rfl⟩, hitems⟩
      · have hnot : ∀ fields, value ≠ .obj fields := fun fields h => hobject ⟨fields, h⟩
        have htypeOf : typeOf (.json value) ≠ "object" := by
          cases value with
          | obj fields => exact absurd rfl (hnot fields)
          | _ => simp [typeOf]
        rw [if_neg htypeOf]
        constructor
        · rintro ⟨⟨⟨henum, hscalar⟩, -⟩, hitems⟩
          exact ⟨⟨⟨hallows, henum, fun keys fields _ hv => absurd hv (hnot fields)⟩, hscalar,
            fun fields hv => absurd hv (hnot fields)⟩,
            eachProperty_of_not_object hnot properties, hitems⟩
        · rintro ⟨⟨⟨-, henum, -⟩, hscalar, -⟩, -, hitems⟩
          exact ⟨⟨⟨henum, hscalar⟩, rfl⟩, hitems⟩
    · rw [if_pos htype]
      exact ⟨fun h => absurd h htype, fun h => absurd (typeProblems_json.mpr h.1.1.1) htype⟩

theorem propertiesProblems_json : (properties : List (String × Schema)) →
    ∀ (fields : Fields) (path : String),
    propertiesProblems numberText properties (.json (.obj fields)) path = [] ↔
      Everywhere.eachProperty AcceptedHere properties (.obj fields) ∧
        AcceptsInherited properties fields
  | [], fields, path => by
    simp [propertiesProblems, Everywhere.eachProperty, AcceptsInherited]
  | (key, sub) :: rest, fields, path => by
    have hcons : AcceptsInherited ((key, sub) :: rest) fields ↔
        AcceptsInherited [(key, sub)] fields ∧ AcceptsInherited rest fields := by
      constructor
      · intro h
        exact ⟨fun k t hmem => h k t (by rw [mem_singleton.mp hmem]; exact mem_cons_self),
          fun k t hmem => h k t (mem_cons_of_mem _ hmem)⟩
      · rintro ⟨hfirst, hrest⟩ k t hmem
        rcases mem_cons.mp hmem with heq | hmem
        · exact hfirst k t (mem_singleton.mpr heq)
        · exact hrest k t hmem
    have hfirst : (if (At.json (.obj fields)).get key = .undefined then []
        else schemaProblems numberText sub ((At.json (.obj fields)).get key) (path ++ "." ++ key)) =
          [] ↔ (∀ fields' child, Json.obj fields = .obj fields' → fields'.lookup key = some child →
            Everywhere AcceptedHere sub child) ∧ AcceptsInherited [(key, sub)] fields := by
      cases hlookup : fields.lookup key with
      | some child =>
        have hget : (At.json (.obj fields)).get key = .json child := by rw [At.get, hlookup]
        rw [hget, if_neg (by simp), schemaProblems_json sub child (path ++ "." ++ key)]
        constructor
        · intro h
          refine ⟨fun fields' child' hv hl => ?_, fun k t hmem hnone => ?_⟩
          · obtain rfl := Json.obj.inj hv
            rwa [← Option.some.inj (hlookup.symm.trans hl)]
          · rw [(Prod.mk.inj (mem_singleton.mp hmem)).1, hlookup] at hnone
            cases hnone
        · rintro ⟨h, -⟩
          exact h fields child rfl hlookup
      | none =>
        have howned : ∀ fields' child, Json.obj fields = .obj fields' →
            fields'.lookup key = some child → Everywhere AcceptedHere sub child := by
          intro fields' child hv hl
          obtain rfl := Json.obj.inj hv
          rw [hlookup] at hl
          cases hl
        have hsingle : AcceptsInherited [(key, sub)] fields ↔
            (key = "__proto__" → AcceptsPrototype sub) ∧
              (Inherited key → key ≠ "__proto__" → AcceptsMethod sub) := by
          constructor
          · intro h
            exact h key sub mem_cons_self hlookup
          · intro h k t hmem _
            obtain ⟨rfl, rfl⟩ := Prod.mk.inj (mem_singleton.mp hmem)
            exact h
        rw [get_inherited hlookup, hsingle]
        by_cases hproto : key = "__proto__"
        · subst hproto
          rw [if_pos rfl, if_neg (by simp), schemaProblems_prototype]
          exact ⟨fun h => ⟨howned, fun _ => h, fun _ hne => absurd rfl hne⟩, fun h => h.2.1 rfl⟩
        · rw [if_neg hproto]
          by_cases hin : Inherited key
          · rw [if_pos hin, if_neg (by simp), schemaProblems_method]
            exact ⟨fun h => ⟨howned, fun heq => absurd heq hproto, fun _ _ => h⟩,
              fun h => h.2.2 hin hproto⟩
          · rw [if_neg hin, if_pos rfl]
            exact ⟨fun _ => ⟨howned, fun heq => absurd heq hproto, fun h => absurd h hin⟩,
              fun _ => rfl⟩
    rw [propertiesProblems, append_eq_nil_iff, hfirst, propertiesProblems_json rest fields path,
      hcons, Everywhere.eachProperty]
    constructor
    · rintro ⟨⟨hchild, hone⟩, hrest, hinherited⟩
      exact ⟨⟨hchild, hrest⟩, hone, hinherited⟩
    · rintro ⟨⟨hchild, hrest⟩, hone, hinherited⟩
      exact ⟨⟨hchild, hone⟩, hrest, hinherited⟩

theorem itemsProblems_json : (items : Option Schema) → ∀ (value : Json) (path : String),
    itemsProblems numberText items (elements (.json value)) path = [] ↔
      Everywhere.eachItem AcceptedHere items value
  | none, value, path => by simp [itemsProblems, Everywhere.eachItem]
  | some items, value, path => by
    rw [itemsProblems, Everywhere.eachItem, flatMap_eq_nil_iff]
    constructor
    · rintro h xs rfl x hx
      obtain ⟨i, hi⟩ := List.mem_iff_getElem?.mp hx
      have hmem : (x, i) ∈ xs.zipIdx := List.mem_zipIdx_iff_getElem?.mpr hi
      exact (schemaProblems_json items x _).mp (h (x, i) hmem)
    · rintro h ⟨x, i⟩ hmem
      have hx : x ∈ elements (.json value) :=
        List.mem_of_getElem? (List.mem_zipIdx_iff_getElem?.mp hmem)
      refine (schemaProblems_json items x _).mpr ?_
      cases value with
      | arr xs => exact h xs rfl x hx
      | _ => cases hx

end

theorem satisfies_iff (schema : Schema) (value : Json) :
    Satisfies schema value ↔
      Everywhere OtherwiseHere schema value ∧ Everywhere OwnsHere schema value := by
  have hhere : SatisfiedHere = fun s v => OtherwiseHere s v ∧ OwnsHere s v := by
    funext s v
    exact propext (satisfiedHere_iff s v)
  rw [Satisfies, hhere, everywhere_and]

/-- **A schema is checked as it says**, unless one inherited key or one container in an `enum` is
all that decides. -/
theorem schemaProblems_iff (numberText : Rat → String) (schema : Schema) (value : Json)
    (path : String) :
    (schemaProblems numberText schema (.json value) path = [] ↔ Satisfies schema value) ↔
      (Everywhere OtherwiseHere schema value →
        (Everywhere OwnsHere schema value ↔ Everywhere ReadableHere schema value)) := by
  have haccepted : Everywhere AcceptedHere schema value ↔
      Everywhere OtherwiseHere schema value ∧ Everywhere ReadableHere schema value :=
    everywhere_and schema value
  rw [schemaProblems_json, satisfies_iff, haccepted]
  constructor
  · intro h hotherwise
    exact ⟨fun howns => (h.mpr ⟨hotherwise, howns⟩).2, fun hreadable => (h.mp ⟨hotherwise, hreadable⟩).2⟩
  · intro h
    exact ⟨fun ⟨hotherwise, hreadable⟩ => ⟨hotherwise, (h hotherwise).mpr hreadable⟩,
      fun ⟨hotherwise, howns⟩ => ⟨hotherwise, (h hotherwise).mp howns⟩⟩

/-- An object that the `enum` lists is refused, and a key that is not there is found. -/
theorem object_in_enum_is_refused :
    (schemaProblems (fun n => toString n.num)
        (.keywords none (some (.arr [.obj [("a", .num 1)]])) none [] none)
        (.json (.obj [("a", .num 1)])) "input" =
        ["input must be one of \x7b\"a\":1\x7d"] ∧
      Satisfies (.keywords none (some (.arr [.obj [("a", .num 1)]])) none [] none)
        (.obj [("a", .num 1)])) ∧
    (schemaProblems (fun n => toString n.num)
        (.keywords (some (.str "object")) none (some (.arr [.str "toString"])) [] none)
        (.json (.obj [])) "input" = [] ∧
      ¬ Satisfies (.keywords (some (.str "object")) none (some (.arr [.str "toString"])) [] none)
        (.obj [])) := by
  refine ⟨⟨by decide, ⟨?_, ?_, ?_⟩, trivial, trivial⟩, by decide, ?_⟩
  · rintro ⟨t, ht, -⟩
    cases ht
  · intro allowed hallowed
    obtain rfl := Json.arr.inj (Option.some.inj hallowed)
    exact ⟨_, mem_cons_self, .refl _⟩
  · intro keys fields hkeys
    cases hkeys
  · rintro ⟨⟨-, -, howned⟩, -⟩
    exact howned _ _ rfl rfl "toString" mem_cons_self trivial rfl

end Walk

end Meaning

end Almyty.Agents.InputSchema
