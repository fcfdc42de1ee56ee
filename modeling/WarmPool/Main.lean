import WarmPool.CommandLine.Usage
import WarmPool.Manifest.Yaml

/-!
# The command

Reads the command line and prints what it asks for. A controller needs an API server to talk to,
and there is none here.
-/

namespace WarmPool.CommandLine

/-- The variables that are looked at. -/
def consulted : List String := skipInstallVariable :: Parameter.all.map Parameter.variable

/-- The variables looked at as far as they are set. -/
def currentEnvironment : IO Environment := do
  let entries ← consulted.filterMapM fun name => do
    pure ((← IO.getEnv name).map fun value => (name, value))
  pure (.ofList entries)

/-- Reads the command line, prints and tells the exit code. -/
def run (words : List String) : IO UInt32 := do
  match parse (← currentEnvironment) words with
  | .error stop =>
    if stop.isAsked then IO.println stop.text else IO.eprintln stop.text
    pure stop.exitCode
  | .ok arguments =>
    if arguments.printDefinitions then
      IO.print Manifest.Yaml.definitions
      pure 0
    else
      IO.eprintln "Error: failed to create Kubernetes client: no cluster is configured"
      pure 1

end WarmPool.CommandLine

/-- The command. -/
def main (words : List String) : IO UInt32 := WarmPool.CommandLine.run words
