import WarmPool.Json.Basic

/-!
# JSON merge patch

`Json.merge target patch` lays a patch over a value: a patch that is an object changes the fields
it names, a null in it removes the field, and any other patch replaces the value.
-/

namespace WarmPool.Json

/-- The fields of an object; any other value counts as an empty object. -/
def fieldsOf : Json → List (String × Json)
  | .object fields => fields
  | _ => []

mutual

/-- Lays a patch over a value. -/
def merge (target : Json) : (patch : Json) → Json
  | .object fields => .object (mergeFields target.fieldsOf fields)
  | .null => .null
  | .bool b => .bool b
  | .number n => .number n
  | .string s => .string s
  | .array items => .array items

/-- Lays the fields of a patch over the fields of an object, one after the other. -/
def mergeFields (target : List (String × Json)) :
    (patch : List (String × Json)) → List (String × Json)
  | [] => target
  | (k, v) :: rest =>
    match v with
    | .null => mergeFields (removeField k target) rest
    | v => mergeFields (setField k (merge ((lookup? k target).getD .null) v) target) rest

end

end WarmPool.Json
