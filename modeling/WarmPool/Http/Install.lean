import WarmPool.Backoff
import WarmPool.Http.ApiClient
import WarmPool.Http.Shape.Definition

/-!
# Installing the definitions

Each definition is applied by force under the name of the operator, so that what the server has
always matches. A failure of any kind is tried again a few times, and then the installation ends.
-/

namespace WarmPool.Http.Install

open Manifest

/-- Why an installation ended early: the definition and its last failure. -/
structure Failure where
  definition : String
  failure : ApiFailure
deriving DecidableEq, Repr

/-- The wording, where the server has told one. -/
def Failure.message? (f : Failure) : Option String :=
  f.failure.text?.map fun text => "failed to install " ++ f.definition ++ " CRD: " ++ text

/-- The path of all definitions. -/
def collection : String := "/apis/" ++ Definition.definitionVersion ++ "/customresourcedefinitions"

/-- Applies a definition by force. -/
def apply (d : Definition) : Exchange (Except ApiFailure Unit) :=
  ApiClient.fetch .definition <| (ApiClient.member? collection d.name).bind fun path =>
    Request.ofTarget? .patch path [("fieldManager", "devinfra-operator"), ("force", "true")]
      (some (.applyPatch, d.encode))

/-- Makes attempts with an exchange. Where they are stuck, the last failure is the result. -/
def perform (action : Exchange (Except ε α)) : Backoff.Attempts ε α → Exchange (Except ε α)
  | .done result => .done result
  | .stuck e => .done (.error e)
  | .sleep delay next => .pause delay (perform action next)
  | .attempt next => action.bind fun outcome => perform action (next outcome)

/-- How often a definition is tried. -/
def backoff : Backoff := { maxAttempts := 5 }

/-- Installs definitions in order, up to the first that fails for good. -/
def installAll (draws : Nat → Backoff.Draw) : List Definition → Exchange (Except Failure Unit)
  | [] => .done (.ok ())
  | d :: rest => do
    match ← perform (apply d) (backoff.attemptsFrom draws 1) with
    | .ok () => installAll draws rest
    | .error f => pure (.error ⟨d.name, f⟩)

end WarmPool.Http.Install
