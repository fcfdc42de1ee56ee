import WarmPool.CommandLine.Parse
import WarmPool.Number.Decimal

/-!
# Usage

The texts with which the operator answers a command line that does not start it: the help, which
lists all arguments, the version, and a line for every mistake.
-/

namespace WarmPool.CommandLine

/-- The name of the operator. -/
def program : String := "devinfra-operator"

/-- The version of the operator. -/
def programVersion : String := "0.1.0"

/-- What a parameter is for. -/
def Parameter.about : Parameter → String
  | workers => "Maximum number of Requirements reconciled in parallel"
  | timeout => "Deadline for a single reconcile, in seconds"
  | keepAliveCount => "Pool size for Caches created without sizing hints"
  | keepAliveDuration =>
    "Idle TTL for Caches created without sizing hints (e.g. \"30m\", \"1h30m\")"
  | namespaceName => "Only watch this namespace (default: all namespaces)"

/-- What a switch is for. -/
def Switch.about : Switch → String
  | printDefinitions => "Print the Requirement, Cache and Operation CRD manifests and exit"
  | skipInstall => "Do not apply CRDs on startup"

/-- The default of a parameter as it would be given. -/
def Parameter.default? (p : Parameter) : Option String :=
  let defaults : Arguments := {}
  match p with
  | workers => some (natText defaults.workers.toNat)
  | timeout => some (natText defaults.timeoutSeconds.toNat)
  | keepAliveCount => some (natText defaults.keepAliveCount.toNat)
  | keepAliveDuration => some defaults.keepAliveDuration
  | namespaceName => none

/-- The lines on an argument. -/
def entry (shown about : String) : List String := ["  " ++ shown, "          " ++ about]

/-- The lines on a parameter. -/
def Parameter.usage (p : Parameter) : List String :=
  let notes :=
    " [env: " ++ p.variable ++ "]" ++ ((p.default?.map fun d => " [default: " ++ d ++ "]").getD "")
  entry ("    --" ++ p.name ++ " <VALUE>") (p.about ++ notes)

/-- The lines on a switch. -/
def Switch.usage (s : Switch) : List String := entry ("    --" ++ s.name) s.about

/-- The lines of the help. -/
def usage : List String :=
  ["devinfra - Requirement reconciler with a content-addressed Operation cache", "",
    "Usage: " ++ program ++ " [OPTIONS] [COMMAND]", "", "Commands:"] ++
  entry Command.controller.name "Run the Requirement controller (default mode)" ++
  entry helpName "Print this message" ++ ["", "Options:"] ++
  Switch.all.flatMap Switch.usage ++ Parameter.all.flatMap Parameter.usage ++
  entry "-h, --help" "Print help" ++ entry "-V, --version" "Print version"

/-- Whether the user asked for what stopped the operator. -/
def Stop.isAsked (s : Stop) : Bool := s = help || s = version

/-- What the user is told. -/
def Stop.text : Stop → String
  | help => String.intercalate "\n" usage
  | version => program ++ " " ++ programVersion
  | unfitValue => "error: a value does not fit its argument"
  | noValue => "error: an argument needs a value"
  | unknownArgument => "error: unexpected argument"
  | repeatedArgument => "error: an argument cannot be used multiple times"
  | unexpectedValue => "error: a value for an argument that takes none"
  | unknownCommand => "error: unrecognized command"

/-- The exit code: 2 for a mistake. -/
def Stop.exitCode (s : Stop) : UInt32 := if s.isAsked then 0 else 2

end WarmPool.CommandLine
