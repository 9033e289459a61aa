import Almyty.Lib.Json

/-!
# JavaScript values and their trip through JSON

A program holds more than JSON can write. `JsValue` is what a function may return: the JSON values,
`undefined`, the numbers that are not finite, values that JSON writes as something else or not at
all (a function, a symbol, a `Date`, a `Map`, an object with `toJSON`), and values `JSON.stringify`
throws on (a cycle, a `BigInt`). `toJson` is `JSON.stringify` up to the text and `ofJson` is
`JSON.parse`; reading back what was written is the identity on JSON (`toJson_ofJson`), and that is
all that survives in general.
-/

namespace Almyty.Lib

inductive JsValue
  | undefined
  | null
  | bool (b : Bool)
  | num (n : Rat)
  | nan
  | infinite
  | str (s : String)
  | arr (items : List JsValue)
  | obj (fields : List (String × JsValue))
  | exotic (json : Option Json)
  | unserializable

namespace JsValue

mutual

def toJson : JsValue → Option (Option Json)
  | undefined => some none
  | null => some (some .null)
  | bool b => some (some (.bool b))
  | num n => some (some (.num n))
  | nan | infinite => some (some .null)
  | str s => some (some (.str s))
  | arr items => (itemsJson items).map fun js => some (.arr js)
  | obj fields => (fieldsJson fields).map fun js => some (.obj js)
  | exotic json => some json
  | unserializable => none

def itemsJson : List JsValue → Option (List Json)
  | [] => some []
  | item :: items =>
    match toJson item, itemsJson items with
    | some j, some js => some (j.getD .null :: js)
    | _, _ => none

def fieldsJson : List (String × JsValue) → Option Fields
  | [] => some []
  | (key, value) :: fields =>
    match toJson value, fieldsJson fields with
    | some (some j), some js => some ((key, j) :: js)
    | some none, some js => some js
    | _, _ => none

end

mutual

def ofJson : Json → JsValue
  | .null => null
  | .bool b => bool b
  | .num n => num n
  | .str s => str s
  | .arr items => arr (ofItems items)
  | .obj fields => obj (ofFields fields)

def ofItems : List Json → List JsValue
  | [] => []
  | item :: items => ofJson item :: ofItems items

def ofFields : Fields → List (String × JsValue)
  | [] => []
  | (key, value) :: fields => (key, ofJson value) :: ofFields fields

end

mutual

@[simp] theorem toJson_ofJson : (j : Json) → toJson (ofJson j) = some (some j)
  | .null | .bool _ | .num _ | .str _ => rfl
  | .arr items => by simp [ofJson, toJson, itemsJson_ofItems items]
  | .obj fields => by simp [ofJson, toJson, fieldsJson_ofFields fields]

theorem itemsJson_ofItems : (items : List Json) → itemsJson (ofItems items) = some items
  | [] => rfl
  | item :: items => by simp [ofItems, itemsJson, toJson_ofJson item, itemsJson_ofItems items]

theorem fieldsJson_ofFields : (fields : Fields) → fieldsJson (ofFields fields) = some fields
  | [] => rfl
  | (key, value) :: fields => by
    simp [ofFields, fieldsJson, toJson_ofJson value, fieldsJson_ofFields fields]

end

def truthy : JsValue → Bool
  | undefined | null | nan => false
  | bool b => b
  | num n => n != 0
  | str s => s != ""
  | infinite | arr _ | obj _ | exotic _ | unserializable => true

def get (value : JsValue) (key : String) : JsValue :=
  match value with
  | obj fields => (fields.lookup key).getD undefined
  | _ => undefined

end JsValue

/-! ## The text of a JSON value -/

namespace Json

/-- Four hexadecimal digits. -/
def hex4 (n : Nat) : String :=
  let digits := Nat.toDigits 16 n
  String.ofList (List.replicate (4 - digits.length) '0' ++ digits)

/-- A character inside a JSON string. -/
def escaped (c : Char) : String :=
  match c with
  | '"' => "\\\""
  | '\\' => "\\\\"
  | '\n' => "\\n"
  | '\r' => "\\r"
  | '\t' => "\\t"
  | c =>
    if c.toNat = 8 then "\\b"
    else if c.toNat = 12 then "\\f"
    else if c.toNat < 32 then "\\u" ++ hex4 c.toNat
    else c.toString

def quoted (s : String) : String := "\"" ++ String.join (s.toList.map escaped) ++ "\""

variable (numberText : Rat → String)

mutual

def text : Json → String
  | .null => "null"
  | .bool b => toString b
  | .num n => numberText n
  | .str s => quoted s
  | .arr items => "[" ++ ",".intercalate (itemTexts items) ++ "]"
  | .obj fields => "\x7b" ++ ",".intercalate (fieldTexts fields) ++ "\x7d"

def itemTexts : List Json → List String
  | [] => []
  | item :: items => text item :: itemTexts items

def fieldTexts : Fields → List String
  | [] => []
  | (key, value) :: fields => (quoted key ++ ":" ++ text value) :: fieldTexts fields

end

end Json

end Almyty.Lib
