import WarmPool.Json.Numeral

/-!
# JSON literals

A `Literal` is JSON text as it was written: the fields of an object in order with repeated keys, and
numerals and strings that need not denote anything, since a number may be out of range and an escape
half a surrogate pair. `Literal.value?` is the JSON value that a literal denotes.
-/

namespace WarmPool

/-- JSON text as it was written. -/
inductive Literal where
  | null
  | bool (value : Bool)
  | number (numeral : Json.Numeral)
  /-- A string, none if it is not valid Unicode. -/
  | string (value : Option String)
  | array (items : List Literal)
  | object (fields : List (Option String × Literal))
deriving Inhabited

namespace Literal

mutual

/--
The value that a literal denotes, if containers are nested no deeper than `depth`. Of two fields
with one key the later one counts.
-/
def value? : (depth : Nat) → Literal → Option Json
  | _, null => some .null
  | _, bool b => some (.bool b)
  | _, number n => n.number?.map .number
  | _, string s => s.map .string
  | 0, array _ => none
  | 0, object _ => none
  | depth + 1, array items => (items? depth items).map .array
  | depth + 1, object fields => (fields? depth [] fields).map .object

/-- The values of the elements of an array. -/
def items? : (depth : Nat) → List Literal → Option (List Json)
  | _, [] => some []
  | depth, item :: rest =>
    match value? depth item, items? depth rest with
    | some v, some values => some (v :: values)
    | _, _ => none

/-- The fields of an object with their values, added to those before. -/
def fields? : (depth : Nat) → (before : List (String × Json)) →
    List (Option String × Literal) → Option (List (String × Json))
  | _, before, [] => some before
  | depth, before, (key, field) :: rest =>
    match key, value? depth field with
    | some key, some v => fields? depth (Json.setField key v before) rest
    | _, _ => none

end

end Literal

end WarmPool
