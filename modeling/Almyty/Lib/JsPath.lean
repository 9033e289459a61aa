import Almyty.Lib.Json

/-!
# Reading a dot path out of a JavaScript value

`a.b.c` read one key at a time, as a loop over `path.split('.')` reads it: anything
but an object or an array ends the walk with `undefined`. A key an object does not
have itself is looked up in its prototypes, so a path can end in a method, or go
through a prototype; none of these is a JSON value.
-/

namespace Almyty.Lib.Js

def arrayMethods : List String :=
  ["at", "concat", "copyWithin", "entries", "every", "fill", "filter", "find", "findIndex",
    "findLast", "findLastIndex", "flat", "flatMap", "forEach", "includes", "indexOf", "join",
    "keys", "lastIndexOf", "map", "pop", "push", "reduce", "reduceRight", "reverse", "shift",
    "slice", "some", "sort", "splice", "toReversed", "toSorted", "toSpliced", "unshift", "values",
    "with"]

inductive At
  | undefined
  | json (value : Json)
  /-- A function some prototype has. -/
  | method
  | objectPrototype
  | arrayPrototype
  deriving DecidableEq

def arrayIndex (key : String) : Option Nat :=
  match key.toList with
  | [] => none
  | c :: cs =>
    if (c :: cs).all Char.isDigit && (c ≠ '0' || cs.isEmpty) then
      some ((c :: cs).foldl (fun n d => n * 10 + (d.toNat - '0'.toNat)) 0)
    else none

/-- The place of a key among the integer keys of an object, which are listed before the others,
whatever order they were added in. -/
def keyIndex (key : String) : Option Nat := (arrayIndex key).filter (· < 4294967295)

def inherited (key : String) : At :=
  if key = "__proto__" then .objectPrototype
  else if key ∈ objectPrototype then .method
  else .undefined

/-- `at == null || typeof at !== 'object' ? undefined : at[key]`. -/
def At.get (at' : At) (key : String) : At :=
  match at' with
  | .json (.obj fields) =>
    match fields.lookup key with
    | some value => .json value
    | none => inherited key
  | .json (.arr items) =>
    if key = "length" then .json (.num items.length)
    else
      match arrayIndex key with
      | some i =>
        match items[i]? with
        | some value => .json value
        | none => .undefined
      | none =>
        if key = "__proto__" then .arrayPrototype
        else if key ∈ arrayMethods then .method
        else inherited key
  | .objectPrototype => if key = "__proto__" then .json .null else inherited key
  | .arrayPrototype =>
    if key = "length" then .json (.num 0)
    else if key ∈ arrayMethods then .method
    else inherited key
  | .json _ | .undefined | .method => .undefined

def dotParts (path : String) : List String := (path.toList.splitOn '.').map String.ofList

def readPath (root : Json) (path : String) : At := (dotParts path).foldl At.get (.json root)

theorem dotParts_of_key {key : String} (h : '.' ∉ key.toList) : dotParts key = [key] := by
  rw [dotParts, List.splitOn_eq_singleton h, List.map_cons, List.map_nil, String.ofList_toList]

end Almyty.Lib.Js
