import Mathlib

/-!
# JSON values

The values a JSON text is parsed to, and the untyped access to them: a field of something that is no
object, or text that is no string, is simply not there.
-/

namespace P256Index

inductive Json where
  | null
  | bool (value : Bool)
  | number (literal : String)
  | string (value : String)
  | array (items : List Json)
  | object (fields : List (String × Json))

namespace Json

/-- `Value::get`. -/
def get (key : String) : Json → Option Json
  | .object fields => fields.lookup key
  | _ => none

/-- `Value::as_str`. -/
def asStr : Json → Option String
  | .string value => some value
  | _ => none

/-- `Value::as_bool`. -/
def asBool : Json → Option Bool
  | .bool value => some value
  | _ => none

/-- `Value::as_array`. -/
def asArray : Json → Option (List Json)
  | .array items => some items
  | _ => none

/-- `get(key).and_then(Value::as_str)`. -/
def text (key : String) (value : Json) : Option String := (value.get key).bind asStr

/-- `get(key).and_then(Value::as_bool)`. -/
def flag (key : String) (value : Json) : Option Bool := (value.get key).bind asBool

/-- `get(key).and_then(Value::as_array).cloned().unwrap_or_default()`. -/
def items (key : String) (value : Json) : List Json := ((value.get key).bind asArray).getD []

end Json

end P256Index
