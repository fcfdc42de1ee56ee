import WarmPool.Json.Canonical

/-!
# Schemas

A small vocabulary for the schemas by which an API server checks resources. A schema is the list of
its keywords; records name their required fields, which are the others' absence aside all there is
to check.
-/

namespace WarmPool.Manifest

/-- A schema by its keywords. -/
structure Schema where
  keywords : List (String × Json)
deriving DecidableEq, Repr

namespace Schema

/-- The schema as JSON. -/
def encode (s : Schema) : Json := .object s.keywords

/-- A schema of one type with further keywords. -/
def ofType (type : String) (keywords : List (String × Json)) : Schema :=
  ⟨("type", .string type) :: keywords⟩

/-- Any text. -/
def text : Schema := ofType "string" []

/-- An instant. -/
def instant : Schema := ofType "string" [("format", .string "date-time")]

/-- One of some words. -/
def choice (words : List String) : Schema := ofType "string" [("enum", Json.ofStrings words)]

/-- True or false. -/
def flag : Schema := ofType "boolean" []

/-- An integer of a format. -/
def integer (format : String) : Schema := ofType "integer" [("format", .string format)]

/-- A count of 32 bits, from zero. -/
def count : Schema :=
  ofType "integer"
    [("format", .string "uint32"), ("minimum", .number (.float (Binary64.zero false)))]

/-- A list of items. -/
def list (item : Schema) : Schema := ofType "array" [("items", item.encode)]

/-- A map from texts. -/
def map (value : Schema) : Schema := ofType "object" [("additionalProperties", value.encode)]

/-- A record with its fields, of which some are required. -/
def record (required : List String) (fields : List (String × Schema)) : Schema :=
  ofType "object" <|
    ("properties", .object (fields.map fun f => (f.1, f.2.encode))) ::
    if required.isEmpty then [] else [("required", Json.ofStrings required)]

/-- The schema with one more keyword. -/
def adding (s : Schema) (keyword : String) (value : Json) : Schema :=
  ⟨(keyword, value) :: s.keywords⟩

/-- The schema with a description. -/
def described (s : Schema) (description : String) : Schema :=
  s.adding "description" (.string description)

/-- The schema that allows null as well. -/
def nullable (s : Schema) : Schema := s.adding "nullable" (.bool true)

/-- The schema with a default. -/
def defaultingTo (s : Schema) (value : Json) : Schema := s.adding "default" value

end Schema

end WarmPool.Manifest
