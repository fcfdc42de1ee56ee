import WarmPool.Json.Basic
import WarmPool.StringMap
import WarmPool.Timestamp

/-!
# Reading and writing typed values as JSON

Decoders take a JSON value to an optional value of some type and never convert between kinds of
value. A record is read from an object, fields it does not know being ignored, or from an array of
its fields in order; either way `recordFields?` delivers fields by name. A field is `required?`,
`optional?` (absent or null for none) or `defaulted?` (absent for its default, never null).
-/

namespace WarmPool.Json

/-! ### Plain values -/

/-- A string. -/
def toString? : Json → Option String
  | .string s => some s
  | _ => none

/-- A boolean. -/
def toBool? : Json → Option Bool
  | .bool b => some b
  | _ => none

/-- An integer between two bounds, both included. -/
def toInt? (least greatest : Int) : Json → Option Int
  | .number (.integer i _ _) => if least ≤ i ∧ i ≤ greatest then some i else none
  | _ => none

/-- A signed integer of 32 bits. -/
def toInt32? (v : Json) : Option Int32 :=
  (toInt? (-2 ^ (31 : Nat)) (2 ^ (31 : Nat) - 1) v).map Int32.ofInt

/-- A signed integer of 64 bits. -/
def toInt64? (v : Json) : Option Int64 :=
  (toInt? (-2 ^ (63 : Nat)) (2 ^ (63 : Nat) - 1) v).map Int64.ofInt

/-- An unsigned integer of 32 bits. -/
def toUInt32? (v : Json) : Option UInt32 :=
  (toInt? 0 (2 ^ (32 : Nat) - 1) v).map fun i => UInt32.ofNat i.toNat

/-- An instant. -/
def toTimestamp? : Json → Option Timestamp
  | .string s => Timestamp.parse? s
  | _ => none

/-- The elements of an array, each read by `decode`. -/
def toList? (decode : Json → Option α) : Json → Option (List α)
  | .array items => items.mapM decode
  | _ => none

/-- An array of strings. -/
def toStrings? : Json → Option (List String) := toList? toString?

/-- An object whose values are strings. -/
def toStringMap? : Json → Option StringMap
  | .object fields =>
    let entry (f : String × Json) : Option (String × String) :=
      (toString? f.2).map fun s => (f.1, s)
    (fields.mapM entry).map StringMap.ofList
  | _ => none

/-- One of a list of names: its string, or an object with that single key and the value null. -/
def toChoice? (choices : List (String × α)) : Json → Option α
  | .string s => (choices.find? fun c => c.1 = s).map Prod.snd
  | .object [(s, .null)] => (choices.find? fun c => c.1 = s).map Prod.snd
  | _ => none

/-! ### Records -/

/-- The fields of a record by name, from an object or from an array of the fields in order. -/
def recordFields? (names : List String) : Json → Option (List (String × Json))
  | .object fields => some fields
  | .array items => if items.length ≤ names.length then some (names.zip items) else none
  | _ => none

/-- The fields of an object. -/
def objectFields? : Json → Option (List (String × Json))
  | .object fields => some fields
  | _ => none

/-- A field that has to be there. -/
def required? (decode : Json → Option α) (key : String) (fields : List (String × Json)) :
    Option α :=
  (lookup? key fields).bind decode

/-- A field that may be absent or null. -/
def optional? (decode : Json → Option α) (key : String) (fields : List (String × Json)) :
    Option (Option α) :=
  match lookup? key fields with
  | none | some .null => some none
  | some v => (decode v).map some

/-- A field that may be absent, but not null unless `decode` reads null. -/
def defaulted? (default : α) (decode : Json → Option α) (key : String)
    (fields : List (String × Json)) : Option α :=
  match lookup? key fields with
  | none => some default
  | some v => decode v

/-! ### Writing -/

/-- A field, if there is a value. -/
def optionalField (key : String) (encode : α → Json) : Option α → List (String × Json)
  | some a => [(key, encode a)]
  | none => []

/-- A signed integer of 32 bits as a number. -/
def ofInt32 (n : Int32) : Json := ofInt n.toInt

/-- A signed integer of 64 bits as a number. -/
def ofInt64 (n : Int64) : Json := ofInt n.toInt

/-- An unsigned integer of 32 bits as a number. -/
def ofUInt32 (n : UInt32) : Json := ofNat n.toNat

/-- A string field. -/
def stringField (key value : String) : String × Json := (key, .string value)

/-- A map of strings as an object. -/
def ofStringMap (m : StringMap) : Json := .object (m.entries.map fun e => (e.1, .string e.2))

end WarmPool.Json
