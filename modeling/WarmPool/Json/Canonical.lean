import WarmPool.Json.Printer

/-!
# The canonical form of a JSON value

Values that differ only in the order of fields or in how an integer is spelled share one canonical
form: fields sorted by key, and a float with an integral value between `-2 ^ 63` and `2 ^ 63`
written as an integer. `Json.canonicalText` is that form as compact text.
-/

namespace WarmPool

/--
A float with an integral value from `-2 ^ 63` to `2 ^ 63` as an integer; the upper end itself, one
past the signed integers of 64 bits, becomes the greatest of them. Other numbers stay.
-/
def Number.normalize : Number → Number
  | .integer i ge lt => .integer i ge lt
  | .float x =>
    let (num, den) := x.magnitude
    if x.isIntegral ∧ num ≤ 2 ^ (63 : Nat) * den then
      (Number.ofInt? (min x.truncate (2 ^ (63 : Nat) - 1))).getD (.float x)
    else .float x

namespace Json

/-- Puts a field in front of the first one with a greater key. -/
def insertSorted (field : String × Json) : List (String × Json) → List (String × Json)
  | [] => [field]
  | f :: rest => if f.1 < field.1 then f :: insertSorted field rest else field :: f :: rest

/-- The fields in the order of their keys by code point. -/
def sortFields (fields : List (String × Json)) : List (String × Json) :=
  fields.foldr insertSorted []

mutual

/-- The canonical form: fields sorted at every depth, numbers normalized. -/
def canonicalize : Json → Json
  | .number n => .number n.normalize
  | .array items => .array (canonicalizeItems items)
  | .object fields => .object (sortFields (canonicalizeFields fields))
  | .null => .null
  | .bool b => .bool b
  | .string s => .string s

/-- The canonical forms of the elements. -/
def canonicalizeItems : List Json → List Json
  | [] => []
  | v :: rest => v.canonicalize :: canonicalizeItems rest

/-- The fields with the canonical forms of their values. -/
def canonicalizeFields : List (String × Json) → List (String × Json)
  | [] => []
  | (k, v) :: rest => (k, v.canonicalize) :: canonicalizeFields rest

end

/-- The canonical form as compact text. -/
def canonicalText (v : Json) : String := v.canonicalize.compact

mutual

/-- The same value with the fields sorted at every depth and the numbers left as they are. -/
def sorted : Json → Json
  | .array items => .array (sortedItems items)
  | .object fields => .object (sortFields (sortedFields fields))
  | .null => .null
  | .bool b => .bool b
  | .number n => .number n
  | .string s => .string s

/-- The elements with their fields sorted. -/
def sortedItems : List Json → List Json
  | [] => []
  | v :: rest => v.sorted :: sortedItems rest

/-- The fields with their values sorted. -/
def sortedFields : List (String × Json) → List (String × Json)
  | [] => []
  | (k, v) :: rest => (k, v.sorted) :: sortedFields rest

end

end Json

end WarmPool
