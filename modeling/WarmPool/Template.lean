import WarmPool.Condition
import WarmPool.Error
import WarmPool.Label

/-!
# Templates

A template lists the applications to provision, each with a job that brings it up and perhaps one
that tears it down. `Template.fault?` finds the first thing wrong with a template: applications in
order, and within one its name, a name used before, the provision image, the teardown image.
-/

namespace WarmPool

/-- A container job. -/
structure JobTemplate where
  image : String
  command : List String := []
  args : List String := []
  env : StringMap := .empty
  /-- Retries before the job counts as failed. -/
  backoffLimit : Option Int32 := none
  /-- The longest the job may run, in seconds. -/
  activeDeadlineSeconds : Option Int64 := none
deriving DecidableEq, Repr, Inhabited

namespace JobTemplate

/-- The fields in order. -/
def fieldNames : List String :=
  ["image", "command", "args", "env", "backoffLimit", "activeDeadlineSeconds"]

/-- Reads a job. -/
def decode? (v : Json) : Option JobTemplate := do
  let fields ← v.recordFields? fieldNames
  pure
    { image := ← Json.required? Json.toString? "image" fields
      command := ← Json.defaulted? [] Json.toStrings? "command" fields
      args := ← Json.defaulted? [] Json.toStrings? "args" fields
      env := ← Json.defaulted? .empty Json.toStringMap? "env" fields
      backoffLimit := ← Json.optional? Json.toInt32? "backoffLimit" fields
      activeDeadlineSeconds := ← Json.optional? Json.toInt64? "activeDeadlineSeconds" fields }

/-- Writes a job; empty lists and maps are left out. -/
def encode (j : JobTemplate) : Json :=
  .object <|
    [Json.stringField "image" j.image] ++
    (if j.command.isEmpty then [] else [("command", Json.ofStrings j.command)]) ++
    (if j.args.isEmpty then [] else [("args", Json.ofStrings j.args)]) ++
    (if j.env.isEmpty then [] else [("env", Json.ofStringMap j.env)]) ++
    Json.optionalField "backoffLimit" Json.ofInt32 j.backoffLimit ++
    Json.optionalField "activeDeadlineSeconds" Json.ofInt64 j.activeDeadlineSeconds

/-- Whether the image is there, blanks not counting. -/
def hasImage (j : JobTemplate) : Bool := !(Text.trimChars j.image.toList).isEmpty

end JobTemplate

/-- An application with the jobs that bring it up and down. -/
structure Application where
  name : String
  provision : JobTemplate
  teardown : Option JobTemplate := none
deriving DecidableEq, Repr, Inhabited

namespace Application

/-- The fields in order. -/
def fieldNames : List String := ["name", "provision", "teardown"]

/-- Reads an application. -/
def decode? (v : Json) : Option Application := do
  let fields ← v.recordFields? fieldNames
  pure
    { name := ← Json.required? Json.toString? "name" fields
      provision := ← Json.required? JobTemplate.decode? "provision" fields
      teardown := ← Json.optional? JobTemplate.decode? "teardown" fields }

/-- Writes an application. -/
def encode (a : Application) : Json :=
  .object <|
    [Json.stringField "name" a.name, ("provision", a.provision.encode)] ++
    Json.optionalField "teardown" JobTemplate.encode a.teardown

end Application

/-- What is to be provisioned. -/
structure Template where
  applications : List Application := []
deriving DecidableEq, Repr, Inhabited

namespace Template

/-- The fields in order. -/
def fieldNames : List String := ["applications"]

/-- Reads a template. -/
def decode? (v : Json) : Option Template := do
  let fields ← v.recordFields? fieldNames
  pure
    { applications := ←
        Json.defaulted? [] (Json.toList? Application.decode?) "applications" fields }

/-- Writes a template. -/
def encode (t : Template) : Json :=
  .object [("applications", .array (t.applications.map Application.encode))]

/-! ### Validation -/

/-- What is wrong with an application, given the names used before it. -/
inductive ApplicationFault where
  | name (fault : Label.Fault)
  | duplicateName
  | provisionImage
  | teardownImage
deriving DecidableEq, Repr

/-- What is wrong with a template. -/
inductive Fault where
  | noApplications
  | application (index : Nat) (name : String) (fault : ApplicationFault)
deriving DecidableEq, Repr

/-- The first thing wrong with an application, given the names used before it. -/
def applicationFault? (seen : List String) (a : Application) : Option ApplicationFault :=
  match Label.fault? a.name with
  | some fault => some (.name fault)
  | none =>
    if seen.contains a.name then some .duplicateName
    else if !a.provision.hasImage then some .provisionImage
    else
      match a.teardown with
      | some job => if job.hasImage then none else some .teardownImage
      | none => none

/-- The first thing wrong with the applications from `index` on. -/
def applicationsFault? : (index : Nat) → (seen : List String) → List Application → Option Fault
  | _, _, [] => none
  | index, seen, a :: rest =>
    match applicationFault? seen a with
    | some fault => some (.application index a.name fault)
    | none => applicationsFault? (index + 1) (a.name :: seen) rest

/-- The first thing wrong with a template. -/
def fault? (t : Template) : Option Fault :=
  if t.applications.isEmpty then some .noApplications
  else applicationsFault? 0 [] t.applications

/-- The field to blame. -/
def Fault.field : Fault → String
  | noApplications => "spec.template.applications"
  | application index _ fault =>
    "spec.template.applications[" ++ natText index ++ "]" ++
      match fault with
      | .name _ | .duplicateName => ".name"
      | .provisionImage => ".provision.image"
      | .teardownImage => ".teardown.image"

/-- The wording. -/
def Fault.message : Fault → String
  | noApplications => "template must contain at least one application"
  | application _ name fault =>
    match fault with
    | .name fault => fault.message name
    | .duplicateName => "duplicate application name '" ++ name ++ "'"
    | .provisionImage => "provision job image cannot be empty"
    | .teardownImage => "teardown job image cannot be empty"

/-- Passes a valid template. -/
def validate (t : Template) : Except Error Unit :=
  match t.fault? with
  | some fault => .error (.invalidField fault.field fault.message)
  | none => .ok ()

end Template

end WarmPool
