import Almyty.Lib.Assoc

/-!
# JSON values, and objects read the way JavaScript reads them

`Json` keeps an object's entries in order, because the text `JSON.stringify` writes depends on it;
two values have the same text exactly when they are the same tree, so comparing texts is `=` here.
`Json.Eqv` is the coarser relation, equality up to the order of object keys at every depth.

A `JsonValue` is a tree whose objects have unique keys: the only trees `JSON.parse` and a program's
objects can hold.

The second half is property access.
-/

namespace Almyty.Lib

open Option

inductive Json
  | null
  | bool (b : Bool)
  | num (n : Rat)
  | str (s : String)
  | arr (items : List Json)
  | obj (fields : List (String × Json))

/-- The entries of an object. -/
abbrev Fields := List (String × Json)

namespace Json

mutual

/-- Structural equality, tree against tree. -/
def decEq : (a b : Json) → Decidable (a = b)
  | .null, .null => isTrue rfl
  | .bool a, .bool b => decidable_of_iff (a = b) (by simp)
  | .num a, .num b => decidable_of_iff (a = b) (by simp)
  | .str a, .str b => decidable_of_iff (a = b) (by simp)
  | .arr a, .arr b =>
    match decEqList a b with
    | isTrue h => isTrue (by rw [h])
    | isFalse h => isFalse fun e => h (Json.arr.inj e)
  | .obj a, .obj b =>
    match decEqFields a b with
    | isTrue h => isTrue (by rw [h])
    | isFalse h => isFalse fun e => h (Json.obj.inj e)
  | .null, .bool _ | .null, .num _ | .null, .str _ | .null, .arr _ | .null, .obj _
  | .bool _, .null | .bool _, .num _ | .bool _, .str _ | .bool _, .arr _ | .bool _, .obj _
  | .num _, .null | .num _, .bool _ | .num _, .str _ | .num _, .arr _ | .num _, .obj _
  | .str _, .null | .str _, .bool _ | .str _, .num _ | .str _, .arr _ | .str _, .obj _
  | .arr _, .null | .arr _, .bool _ | .arr _, .num _ | .arr _, .str _ | .arr _, .obj _
  | .obj _, .null | .obj _, .bool _ | .obj _, .num _ | .obj _, .str _ | .obj _, .arr _ =>
    isFalse nofun

def decEqList : (a b : List Json) → Decidable (a = b)
  | [], [] => isTrue rfl
  | [], _ :: _ | _ :: _, [] => isFalse nofun
  | x :: xs, y :: ys =>
    match decEq x y, decEqList xs ys with
    | isTrue h, isTrue hs => isTrue (by rw [h, hs])
    | isFalse h, _ => isFalse fun e => h (List.cons.inj e).1
    | _, isFalse hs => isFalse fun e => hs (List.cons.inj e).2

/-- Structural equality of object entries. -/
def decEqFields : (a b : List (String × Json)) → Decidable (a = b)
  | [], [] => isTrue rfl
  | [], _ :: _ | _ :: _, [] => isFalse nofun
  | (k, x) :: xs, (l, y) :: ys =>
    match decEq x y, decEqFields xs ys with
    | isTrue h, isTrue hs =>
      decidable_of_iff (k = l) ⟨fun e => by rw [e, h, hs],
        fun e => (Prod.mk.inj (List.cons.inj e).1).1⟩
    | isFalse h, _ => isFalse fun e => h (Prod.mk.inj (List.cons.inj e).1).2
    | _, isFalse hs => isFalse fun e => hs (List.cons.inj e).2

end

instance : DecidableEq Json := decEq

mutual

def uniqueKeys : Json → Bool
  | .arr items => uniqueKeysList items
  | .obj fields => decide (Assoc.keys fields).Nodup && uniqueKeysFields fields
  | .null | .bool _ | .num _ | .str _ => true

def uniqueKeysList : List Json → Bool
  | [] => true
  | x :: xs => uniqueKeys x && uniqueKeysList xs

def uniqueKeysFields : List (String × Json) → Bool
  | [] => true
  | (_, v) :: fs => uniqueKeys v && uniqueKeysFields fs

end

theorem uniqueKeys_of_mem {items : List Json} (h : uniqueKeysList items = true) :
    ∀ x ∈ items, x.uniqueKeys = true := by
  induction items with
  | nil => intro x hx; simp at hx
  | cons y ys ih =>
    simp only [uniqueKeysList, Bool.and_eq_true] at h
    intro x hx
    rcases List.mem_cons.mp hx with rfl | hx
    · exact h.1
    · exact ih h.2 x hx

theorem nodup_of_uniqueKeys {fields : Fields} (h : (Json.obj fields).uniqueKeys = true) :
    (Assoc.keys fields).Nodup := by
  simp only [uniqueKeys, Bool.and_eq_true, decide_eq_true_eq] at h
  exact h.1

/-- `!!v && typeof v === 'object' && !Array.isArray(v)`. -/
def isPlainObject : Json → Bool
  | .obj _ => true
  | _ => false

def fieldsOrEmpty : Json → Fields
  | .obj fields => fields
  | _ => []

def itemsOrEmpty : Json → List Json
  | .arr items => items
  | _ => []

/-- Whether a value used as a condition counts as true. -/
def truthy : Json → Bool
  | .null => false
  | .bool b => b
  | .num n => n != 0
  | .str s => s != ""
  | .arr _ | .obj _ => true

def sameKey : Json → Json → Bool
  | .arr _, _ | .obj _, _ => false
  | a, b => a == b

def spread : Json → Fields
  | .obj fields => fields
  | .arr items => items.zipIdx.map fun p => (toString p.2, p.1)
  | .str s => s.toList.zipIdx.map fun p => (toString p.2, .str p.1.toString)
  | .null | .bool _ | .num _ => []

/-- Equality up to the order of object keys, at every depth. -/
inductive Eqv : Json → Json → Prop
  | null : Eqv .null .null
  | bool (b : Bool) : Eqv (.bool b) (.bool b)
  | num (n : Rat) : Eqv (.num n) (.num n)
  | str (s : String) : Eqv (.str s) (.str s)
  | arr {xs ys : List Json} (hlen : xs.length = ys.length)
      (hitem : ∀ (i : Nat) x y, xs[i]? = some x → ys[i]? = some y → Eqv x y) :
      Eqv (.arr xs) (.arr ys)
  | obj {fs gs : Fields} (hkeys : ∀ k, fs.lookup k = none ↔ gs.lookup k = none)
      (hval : ∀ k v w, fs.lookup k = some v → gs.lookup k = some w → Eqv v w) :
      Eqv (.obj fs) (.obj gs)

theorem Eqv.refl : (j : Json) → Eqv j j
  | .null => .null
  | .bool b => .bool b
  | .num n => .num n
  | .str s => .str s
  | .arr xs => by
    refine .arr rfl fun i x y hx hy => ?_
    have hmem : x ∈ xs := List.mem_of_getElem? hx
    rw [hx] at hy
    rw [← some.inj hy]
    exact Eqv.refl x
  | .obj fs => by
    refine .obj (fun k => Iff.rfl) fun k v w hv hw => ?_
    have hmem : (k, v) ∈ fs := Assoc.mem_of_lookup hv
    rw [hv] at hw
    rw [← some.inj hw]
    exact Eqv.refl v
  termination_by j => sizeOf j
  decreasing_by
    · have := List.sizeOf_lt_of_mem hmem
      simp only [Json.arr.sizeOf_spec]
      omega
    · have := List.sizeOf_lt_of_mem hmem
      simp only [Json.obj.sizeOf_spec, Prod.mk.sizeOf_spec] at this ⊢
      omega

theorem Eqv.symm {a b : Json} (h : Eqv a b) : Eqv b a := by
  induction h with
  | null => exact .null
  | bool b => exact .bool b
  | num n => exact .num n
  | str s => exact .str s
  | arr hlen _ ih => exact .arr hlen.symm fun i x y hx hy => ih i y x hy hx
  | obj hkeys _ ih => exact .obj (fun k => (hkeys k).symm) fun k v w hv hw => ih k w v hw hv

theorem Eqv.trans {a b c : Json} (h : Eqv a b) (h' : Eqv b c) : Eqv a c := by
  induction h generalizing c with
  | null | bool | num | str => exact h'
  | @arr xs ys hlen _ ih =>
    cases h' with
    | arr hlen' hitem' =>
      refine .arr (hlen.trans hlen') fun i x z hx hz => ?_
      have hi : i < ys.length := by
        rw [← hlen]
        exact (List.getElem?_eq_some_iff.mp hx).1
      exact ih i x _ hx (List.getElem?_eq_getElem hi)
        (hitem' i _ z (List.getElem?_eq_getElem hi) hz)
  | obj hkeys _ ih =>
    cases h' with
    | @obj _ hs hkeys' hval' =>
      refine .obj (fun k => (hkeys k).trans (hkeys' k)) fun k v w hv hw => ?_
      -- the middle object has the key too, so the two steps compose at it
      cases hm : List.lookup k _ with
      | none => rw [(hkeys k).mpr hm] at hv; simp at hv
      | some u => exact ih k v u hv hm (hval' k u w hm hw)

/-- `Eqv` of two optional values: both there and equal up to key order, or
neither there. -/
def EqvAt : Option Json → Option Json → Prop
  | none, none => True
  | some v, some w => Eqv v w
  | _, _ => False

theorem eqv_obj_iff {fs gs : Fields} :
    Eqv (.obj fs) (.obj gs) ↔ ∀ k, EqvAt (fs.lookup k) (gs.lookup k) := by
  constructor
  · intro h k
    cases h with
    | obj hkeys hval =>
      cases hf : fs.lookup k with
      | none => rw [(hkeys k).mp hf]; trivial
      | some v =>
        cases hg : gs.lookup k with
        | none => rw [(hkeys k).mpr hg] at hf; simp at hf
        | some w => exact hval k v w hf hg
  · intro h
    refine .obj (fun k => ?_) fun k v w hv hw => ?_
    · have hk := h k
      cases hf : fs.lookup k <;> cases hg : gs.lookup k <;> simp_all [EqvAt]
    · have hk := h k
      rw [hv, hw] at hk
      exact hk

@[simp] theorem eqv_arr_nil : Eqv (.arr []) (.arr []) := .refl _

theorem eqv_arr_cons {x y : Json} {xs ys : List Json} :
    Eqv (.arr (x :: xs)) (.arr (y :: ys)) ↔ Eqv x y ∧ Eqv (.arr xs) (.arr ys) := by
  constructor
  · intro h
    cases h with
    | arr hlen hitem =>
      refine ⟨hitem 0 x y rfl rfl, .arr (Nat.succ.inj hlen) fun i u v hu hv => ?_⟩
      exact hitem (i + 1) u v hu hv
  · rintro ⟨hxy, h⟩
    cases h with
    | arr hlen hitem =>
      refine .arr (congrArg Nat.succ hlen) fun i u v hu hv => ?_
      cases i with
      | zero =>
        rw [← some.inj hu, ← some.inj hv]
        exact hxy
      | succ i => exact hitem i u v hu hv

theorem Eqv.length_eq {xs ys : List Json} (h : Eqv (.arr xs) (.arr ys)) :
    xs.length = ys.length := by
  cases h with
  | arr hlen _ => exact hlen

end Json

/-! ## Property access -/

namespace Js

/-- The UTF-16 code units of a character. -/
def charUnits (c : Char) : List Nat :=
  if c.toNat < 0x10000 then [c.toNat]
  else [0xd800 + (c.toNat - 0x10000) / 0x400, 0xdc00 + (c.toNat - 0x10000) % 0x400]

/-- A string as JavaScript indexes, measures and orders it. -/
def codeUnits (s : String) : List Nat := s.toList.flatMap charUnits

def objectPrototype : List String :=
  ["constructor", "__proto__", "__defineGetter__", "__defineSetter__", "__lookupGetter__",
    "__lookupSetter__", "hasOwnProperty", "isPrototypeOf", "propertyIsEnumerable",
    "toLocaleString", "toString", "valueOf"]

def hasProperty (fields : Fields) (key : String) : Bool :=
  (fields.lookup key).isSome || objectPrototype.contains key

/-- What `JSON.stringify(object[key] ?? null)` is the text of. A missing key
reads as `undefined`, hence `null`; an inherited method has no text at all
(`none`); `Object.prototype` itself, read through `__proto__`, is the text of
`{}`. -/
def propertyText (fields : Fields) (key : String) : Option Json :=
  match fields.lookup key with
  | some v => some v
  | none =>
    if key = "__proto__" then some (.obj [])
    else if key ∈ objectPrototype then none
    else some .null

/-- `object[key] = value`. Without an own entry, `__proto__` is the inherited
setter: it replaces the prototype and adds no entry. -/
def assign {α : Type} (fields : List (String × α)) (key : String) (value : α) : List (String × α) :=
  if key = "__proto__" ∧ fields.lookup key = none then fields else Assoc.put fields key value

variable {α : Type} {fields : List (String × α)}

theorem lookup_assign_of_ne (fields : List (String × α)) {key key' : String} (h : key' ≠ key)
    (value : α) : (assign fields key value).lookup key' = fields.lookup key' := by
  unfold assign
  split
  · rfl
  · rw [Assoc.lookup_put, if_neg h]

theorem lookup_assign_self (fields : List (String × α)) {key : String} (h : key ≠ "__proto__")
    (value : α) : (assign fields key value).lookup key = some value := by
  rw [assign, if_neg fun hp => h hp.1, Assoc.lookup_put, if_pos rfl]

theorem eq_of_lookup_assign {key : String} {value v : α}
    (h : (assign fields key value).lookup key = some v) : v = value := by
  unfold assign at h
  split at h
  · next hp => cases hp.2.symm.trans h
  · rw [Assoc.lookup_put, if_pos rfl] at h
    exact (some.inj h).symm

theorem mem_assign {key : String} {value : α} {p : String × α} (h : p ∈ assign fields key value) :
    p = (key, value) ∨ p ∈ fields := by
  unfold assign at h
  split at h
  · exact .inr h
  · exact Assoc.mem_put h

def assignAll (fields entries : Fields) : Fields :=
  entries.foldl (fun acc e => assign acc e.1 e.2) fields

/-- Assigned entries win, except that `__proto__` is never created. -/
theorem lookup_assignAll {entries : Fields} (hn : (Assoc.keys entries).Nodup) (fields : Fields)
    (key : String) :
    (assignAll fields entries).lookup key =
      if key = "__proto__" ∧ fields.lookup key = none then none
      else (entries.lookup key).or (fields.lookup key) := by
  unfold assignAll
  induction entries generalizing fields with
  | nil =>
    simp only [List.foldl_nil, List.lookup_nil, none_or]
    split
    next h => exact h.2
    next => rfl
  | cons e es ih =>
    obtain ⟨k, v⟩ := e
    obtain ⟨hnot, hn'⟩ := List.nodup_cons.mp hn
    rw [List.foldl_cons, ih hn', Assoc.lookup_cons]
    by_cases hskip : k = "__proto__" ∧ fields.lookup k = none
    · rw [assign, if_pos hskip]
      by_cases hk : key = k
      · subst hk
        rw [if_pos hskip, if_pos hskip]
      · rw [if_neg hk]
    · rw [assign, if_neg hskip, Assoc.lookup_put]
      by_cases hk : key = k
      · subst hk
        have hes : es.lookup key = none := (Assoc.lookup_eq_none_iff es key).mpr hnot
        rw [if_neg hskip, hes]
        simp
      · rw [if_neg hk, if_neg hk]

theorem assign_keys_nodup (h : (Assoc.keys fields).Nodup) (key : String) (value : α) :
    (Assoc.keys (assign fields key value)).Nodup := by
  unfold assign
  split
  · exact h
  · exact Assoc.put_keys_nodup h key value

theorem assignAll_keys_nodup (entries : Fields) {fields : Fields}
    (h : (Assoc.keys fields).Nodup) : (Assoc.keys (assignAll fields entries)).Nodup := by
  unfold assignAll
  induction entries generalizing fields with
  | nil => exact h
  | cons e es ih => exact ih (assign_keys_nodup h e.1 e.2)

theorem hasProperty_eq_false_iff (fields : Fields) (key : String) :
    hasProperty fields key = false ↔ fields.lookup key = none ∧ key ∉ objectPrototype := by
  unfold hasProperty
  rw [Bool.or_eq_false_iff, isSome_eq_false_iff, isNone_iff_eq_none,
    List.contains_eq_mem, decide_eq_false_iff_not]

end Js

/-- A JSON value as a program can hold it: no object repeats a key. -/
abbrev JsonValue := { j : Json // j.uniqueKeys = true }

theorem uniqueKeys_null : Json.null.uniqueKeys = true := rfl

theorem uniqueKeys_nil : (Json.arr []).uniqueKeys = true := rfl

instance : Inhabited JsonValue := ⟨.null, uniqueKeys_null⟩

end Almyty.Lib
