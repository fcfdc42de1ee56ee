import WarmPool.Json.Decode
import WarmPool.Json.Parser

/-!
# Shapes of bodies

A `Shape` says what a body has to look like to be understood, and `Shape.read?` gives the part of a
body that is looked at. What stands in a field that nobody lists is passed over unread: its numbers
may be out of range and its containers nested however deep. Records differ in what a field given
twice means, which a plain record refuses, and an envelope alone reads what it does not list.
-/

namespace WarmPool.Http

/-- What a body has to look like. -/
inductive Shape where
  /-- A value that is read whole and passes a test. -/
  | whole (test : Json → Bool)
  /-- One of some names: a string, or an object with that single key and the value null. -/
  | choice (names : List String)
  /-- Null or another shape. -/
  | optional (shape : Shape)
  /-- One of two shapes, the first if a body has both. -/
  | either (first second : Shape)
  | list (item : Shape)
  /-- An object with any keys; of two fields with one key the later one counts. -/
  | map (value : Shape)
  /--
  An object with each listed field once at most, or an array of their values in order, at least
  `least` of them.
  -/
  | record (least : Nat) (fields : List (String × Shape))
  /-- An object with each listed field any number of times; the last one counts. -/
  | lenient (fields : List (String × Shape))
  /-- An object with each listed field once at most, and any other fields, which are read whole. -/
  | envelope (fields : List (String × Shape))

namespace Shape

/-! ### Plain shapes -/

/-- Any value, read whole. -/
def anything : Shape := whole fun _ => true

/-- No value at all. -/
def nothing : Shape := whole fun _ => false

/-- A string. -/
def text : Shape := whole fun v => v.toString?.isSome

/-- A given string. -/
def constant (s : String) : Shape := whole fun v => v.toString? = some s

/-- A boolean. -/
def flag : Shape := whole fun v => v.toBool?.isSome

/-- A number. -/
def number : Shape := whole fun
  | .number _ => true
  | _ => false

/-- An integer from 0 to `2 ^ 16 - 1`. -/
def nat16 : Shape := whole fun v => (v.toInt? 0 (2 ^ (16 : Nat) - 1)).isSome

/-- An integer from 0 to `2 ^ 32 - 1`. -/
def nat32 : Shape := whole fun v => v.toUInt32?.isSome

/-- A signed integer of 32 bits. -/
def int32 : Shape := whole fun v => v.toInt32?.isSome

/-- A signed integer of 64 bits. -/
def int64 : Shape := whole fun v => v.toInt64?.isSome

/-- An instant. -/
def instant : Shape := whole fun v => v.toTimestamp?.isSome

/-- An array of strings. -/
def texts : Shape := list text

/-- Fields that may all be null. -/
def optionals (fields : List (String × Shape)) : List (String × Shape) :=
  fields.map fun field => (field.1, optional field.2)

/-! ### Reading -/

/--
The fields of an object that are looked at, added to those before, which `repeats` lets them
replace. Every key has to be a string; `readField` gives nothing for a field that is passed over.
-/
def readObject? (repeats : Bool) (readField : String → Literal → Option (Option Json))
    (before : List (String × Json)) :
    List (Option String × Literal) → Option (List (String × Json))
  | [] => some before
  | (none, _) :: _ => none
  | (some key, literal) :: rest =>
    match readField key literal with
    | none => none
    | some none => readObject? repeats readField before rest
    | some (some v) =>
      if !repeats && (Json.lookup? key before).isSome then none
      else readObject? repeats readField (Json.setField key v before) rest

mutual

/--
The part of a body that is looked at, if the body has the shape and containers are nested no deeper
than `depth` as far as they are looked at.
-/
def read? : Shape → (depth : Nat) → Literal → Option Json
  | whole test, depth, literal => (literal.value? depth).filter test
  | choice names, depth, literal =>
    let chosen (name : String) : Option Json :=
      if names.contains name then some (.string name) else none
    match depth, literal with
    | _, .string (some name) => chosen name
    | _ + 1, .object [(some name, .null)] => chosen name
    | _, _ => none
  | optional shape, depth, literal =>
    match literal with
    | .null => some .null
    | literal => read? shape depth literal
  | either first second, depth, literal =>
    (read? first depth literal).or (read? second depth literal)
  | list item, depth, literal =>
    match depth, literal with
    | depth + 1, .array items => (items.mapM fun literal => read? item depth literal).map .array
    | _, _ => none
  | map value, depth, literal =>
    match depth, literal with
    | depth + 1, .object fields =>
      (readObject? true (fun _ literal => (read? value depth literal).map some) [] fields).map
        .object
    | _, _ => none
  | record least fields, depth, literal =>
    match depth, literal with
    | depth + 1, .object values =>
      (readObject? false (fun key literal => readField? fields depth key literal) [] values).map
        .object
    | depth + 1, .array items =>
      if least ≤ items.length then (readItems? fields depth items).map .object else none
    | _, _ => none
  | lenient fields, depth, literal =>
    match depth, literal with
    | depth + 1, .object values =>
      (readObject? true (fun key literal => readField? fields depth key literal) [] values).map
        .object
    | _, _ => none
  | envelope fields, depth, literal =>
    match depth, literal with
    | depth + 1, .object values =>
      let readField (key : String) (literal : Literal) : Option (Option Json) :=
        (readField? fields depth key literal).filter fun found =>
          found.isSome || (literal.value? depth).isSome
      (readObject? false readField [] values).map .object
    | _, _ => none

/-- The value of a field with a key, or nothing if no field of that key is listed. -/
def readField? : List (String × Shape) → (depth : Nat) → (key : String) → Literal →
    Option (Option Json)
  | [], _, _, _ => some none
  | (name, shape) :: rest, depth, key, literal =>
    if name = key then (read? shape depth literal).map some
    else readField? rest depth key literal

/-- The listed fields with the elements of an array, of which there may be fewer. -/
def readItems? : List (String × Shape) → (depth : Nat) → List Literal →
    Option (List (String × Json))
  | _, _, [] => some []
  | [], _, _ :: _ => none
  | (name, shape) :: rest, depth, item :: items =>
    match read? shape depth item, readItems? rest depth items with
    | some v, some fields => some ((name, v) :: fields)
    | _, _ => none

end

end Shape

/-- How a body is understood: what it has to look like, and what is made of what is looked at. -/
structure Body (α : Type) where
  shape : Shape
  decode : Json → Option α

/-- Understands a body. -/
def Body.read? (b : Body α) (text : String) : Option α :=
  (Literal.parse? text).bind fun literal =>
    (b.shape.read? Json.maxDepth literal).bind b.decode

end WarmPool.Http
