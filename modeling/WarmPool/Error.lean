import WarmPool.Text.Quoted
import WarmPool.Number.Decimal

/-!
# Errors

`Error` lists the ways in which a reconcile fails; `Error.message?` holds the wording,
`Error.isConflict` and `Error.isRetryable` the class that decides the reaction. An answer of the API
server that reports a failure is an `ApiStatus`.
-/

namespace WarmPool

/-- A failure as the API server reports it. -/
structure ApiStatus where
  status : String
  message : String
  reason : String
  /-- An HTTP status code, or any other number of 16 bits. -/
  code : Nat
deriving DecidableEq, Repr, Inhabited

/-- The failure on one line: message and reason, and then all four parts. -/
def ApiStatus.text (s : ApiStatus) : String :=
  "ApiError: " ++ s.message ++ ": " ++ s.reason ++ " (ErrorResponse \x7b status: " ++
    Text.quoted s.status ++ ", message: " ++ Text.quoted s.message ++ ", reason: " ++
    Text.quoted s.reason ++ ", code: " ++ natText s.code ++ " \x7d)"

/-- Why a request to the API server failed. -/
inductive ApiFailure where
  /-- The server reported a failure. -/
  | status (status : ApiStatus)
  /-- No usable answer: the request was not made, got lost, or its answer was not understood. -/
  | noAnswer
deriving DecidableEq, Repr, Inhabited

namespace ApiFailure

/-- The code that the server reported. -/
def code? : ApiFailure → Option Nat
  | status s => some s.code
  | noAnswer => none

/-- Whether the server refused a write because the object exists or has changed. -/
def isConflict (f : ApiFailure) : Bool := f.code? = some 409

/-- Whether the server does not have the object. -/
def isNotFound (f : ApiFailure) : Bool := f.code? = some 404

/-- Whether trying again may help: the codes from 400 to 499 are final but for 409 and 429. -/
def isRetryable : ApiFailure → Bool
  | status s => !(400 ≤ s.code && s.code < 500) || s.code = 409 || s.code = 429
  | noAnswer => true

/-- The text of a reported failure. -/
def text? : ApiFailure → Option String
  | status s => some s.text
  | noAnswer => none

end ApiFailure

/-- Why a reconcile failed. -/
inductive Error where
  /-- A request to the API server failed. -/
  | api (failure : ApiFailure)
  /-- A write met a change by someone else. -/
  | conflict (kind name message : String)
  /-- An object that has to exist does not. -/
  | notFound (kind name : String)
  /-- The specification of a resource is wrong, in this field if one is to blame. -/
  | validation (resource message : String) (field : Option String)
  /-- A value has no JSON form, or a text none of the expected form. -/
  | serialization (message : String)
  /-- A reconcile ran past its deadline. -/
  | timeout (resource : String) (seconds : Nat)
  /-- Something that should always hold did not. -/
  | internal (context message : String)
deriving DecidableEq, Repr, Inhabited

namespace Error

/-- Stands for a resource or a context that is not known. -/
def unknown : String := "unknown"

/-- A wrong specification, no resource and no field known. -/
def invalid (message : String) : Error := validation unknown message none

/-- A wrong field of a specification, no resource known. -/
def invalidField (field message : String) : Error := validation unknown message (some field)

/-- An object without a UID cannot own another. -/
def ownerWithoutUid : Error := internal "owner-ref" "owner has no UID"

/-- Names the resource whose specification is wrong; other errors stay. -/
def forResource (resource : String) : Error → Error
  | validation _ message field => validation resource message field
  | e => e

/-- The error of a failed request on a named object: not found becomes an error of its own. -/
def ofNamed (kind name : String) (failure : ApiFailure) : Error :=
  if failure.isNotFound then notFound kind name else api failure

/-- The wording. A request without a usable answer has none of its own. -/
def message? : Error → Option String
  | api failure => failure.text?.map ("kubernetes error: " ++ ·)
  | conflict kind name message => some ("conflict on " ++ kind ++ " " ++ name ++ ": " ++ message)
  | notFound kind name => some (kind ++ " " ++ name ++ " not found")
  | validation resource message _ => some ("invalid spec for " ++ resource ++ ": " ++ message)
  | serialization message => some ("serialization error: " ++ message)
  | timeout resource seconds =>
    some ("reconciliation of " ++ resource ++ " timed out after " ++ natText seconds ++ "s")
  | internal context message => some ("internal error [" ++ context ++ "]: " ++ message)

/-- The wording, empty where there is none. -/
def message (e : Error) : String := e.message?.getD ""

/-- A short word for the kind of error. -/
def label : Error → String
  | api _ => "kube"
  | conflict .. => "conflict"
  | notFound .. => "not_found"
  | validation .. => "validation"
  | serialization _ => "serialization"
  | timeout .. => "timeout"
  | internal .. => "internal"

/-- The field to blame in a wrong specification. -/
def field? : Error → Option String
  | validation _ _ field => field
  | _ => none

/-- Whether a write met a change by someone else. -/
def isConflict : Error → Bool
  | conflict .. => true
  | api failure => failure.isConflict
  | _ => false

/-- Whether trying again may help. -/
def isRetryable : Error → Bool
  | api failure => failure.isRetryable
  | validation .. | serialization _ => false
  | conflict .. | notFound .. | timeout .. | internal .. => true

end Error

end WarmPool
