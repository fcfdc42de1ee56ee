import WarmPool.Http.Shape.Resource
import WarmPool.Manifest.Definition
import WarmPool.Text.Base64

/-!
# Bodies that hold definitions

What the definition of a custom resource looks like in a body. Nothing in it is used, but a body
that does not look like this is not understood. A schema holds schemas: `Shape.schema n` is that of
schemas nested less than `n` deep, which is no restriction once `n` is above the greatest depth.
-/

namespace WarmPool.Http

open Manifest

namespace Shape

/-- Bytes in base64. -/
def bytes : Shape := whole fun v => (v.toString?.map fun s => Text.isBase64 s.toList).getD false

/-! ### Schemas -/

/-- The documentation of a schema elsewhere. -/
def externalDocs : Shape := lenient <| optionals [("description", text), ("url", text)]

/-- A rule that values have to obey. -/
def validation : Shape :=
  lenient <| optionals
    [("fieldPath", text), ("message", text), ("messageExpression", text),
      ("optionalOldSelf", flag), ("reason", text), ("rule", text)]

/-- The fields of a schema whose parts are schemas of a given shape. -/
def schemaFields (inner : Shape) : List (String × Shape) :=
  optionals
    [("$ref", text), ("$schema", text), ("additionalItems", either inner flag),
      ("additionalProperties", either inner flag), ("allOf", list inner), ("anyOf", list inner),
      ("default", anything), ("definitions", map inner),
      ("dependencies", map (either inner texts)), ("description", text),
      ("enum", list anything), ("example", anything), ("exclusiveMaximum", flag),
      ("exclusiveMinimum", flag), ("externalDocs", externalDocs), ("format", text), ("id", text),
      ("items", either inner (list inner)), ("maxItems", int64), ("maxLength", int64),
      ("maxProperties", int64), ("maximum", number), ("minItems", int64), ("minLength", int64),
      ("minProperties", int64), ("minimum", number), ("multipleOf", number), ("not", inner),
      ("nullable", flag), ("oneOf", list inner), ("pattern", text),
      ("patternProperties", map inner), ("properties", map inner), ("required", texts),
      ("title", text), ("type", text), ("uniqueItems", flag),
      ("x-kubernetes-embedded-resource", flag), ("x-kubernetes-int-or-string", flag),
      ("x-kubernetes-list-map-keys", texts), ("x-kubernetes-list-type", text),
      ("x-kubernetes-map-type", text), ("x-kubernetes-preserve-unknown-fields", flag),
      ("x-kubernetes-validations", list validation)]

/-- A schema with schemas nested less than `levels` deep in it. -/
def schema : (levels : Nat) → Shape
  | 0 => nothing
  | levels + 1 => lenient (schemaFields (schema levels))

/-! ### Definitions -/

/-- The names of a custom resource. -/
def resourceNames : Shape :=
  lenient <| optionals
    [("categories", texts), ("kind", text), ("listKind", text), ("plural", text),
      ("shortNames", texts), ("singular", text)]

/-- How the versions of a custom resource are made from each other. -/
def conversion : Shape :=
  let service :=
    lenient <| optionals [("name", text), ("namespace", text), ("path", text), ("port", int32)]
  let client := lenient <| optionals [("caBundle", bytes), ("service", service), ("url", text)]
  let webhook :=
    lenient <| optionals [("clientConfig", client), ("conversionReviewVersions", texts)]
  lenient <| optionals [("strategy", text), ("webhook", webhook)]

/-- A column in the listing of a custom resource. -/
def column : Shape :=
  lenient <| optionals
    [("description", text), ("format", text), ("jsonPath", text), ("name", text),
      ("priority", int32), ("type", text)]

/-- What a version of a custom resource offers beside the object. -/
def subresources : Shape :=
  let scale :=
    lenient <| optionals
      [("labelSelectorPath", text), ("specReplicasPath", text), ("statusReplicasPath", text)]
  lenient <| optionals [("scale", scale), ("status", anything)]

/-- A version of a custom resource. -/
def version : Shape :=
  let validated := lenient <| optionals [("openAPIV3Schema", schema (Json.maxDepth + 1))]
  lenient <| optionals
    [("additionalPrinterColumns", list column), ("deprecated", flag),
      ("deprecationWarning", text), ("name", text), ("schema", validated),
      ("selectableFields", list (lenient (optionals [("jsonPath", text)]))), ("served", flag),
      ("storage", flag), ("subresources", subresources)]

/-- The specification of a definition. -/
def definitionSpec : Shape :=
  lenient <| optionals
    [("conversion", conversion), ("group", text), ("names", resourceNames),
      ("preserveUnknownFields", flag), ("scope", text), ("versions", list version)]

/-- The status of a definition. -/
def definitionStatus : Shape :=
  let state :=
    lenient <| optionals
      [("lastTransitionTime", instant), ("message", text), ("reason", text), ("status", text),
        ("type", text)]
  lenient <| optionals
    [("acceptedNames", resourceNames), ("conditions", list state), ("storedVersions", texts)]

end Shape

/-- A definition, of which nothing is kept. -/
def Body.definition : Body Unit :=
  ⟨.kindOf Definition.definitionVersion Definition.definitionKind
      [("spec", .definitionSpec), ("status", .definitionStatus)],
    fun _ => some ()⟩

end WarmPool.Http
