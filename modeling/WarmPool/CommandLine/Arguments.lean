import WarmPool.Reconcile.Settings
import WarmPool.Telemetry

/-!
# Arguments

What a command line can ask for. A `Parameter` takes a value, a `Switch` does not; both but the
switch that prints may be given by the environment too. `Given` holds what was given so far, already
read, and `Given.arguments` fills in the rest.
-/

namespace WarmPool.CommandLine

/-- What the operator is told to do. -/
inductive Command where
  /-- Run the controller, as it does without a command. -/
  | controller
deriving DecidableEq, Repr

/-- The name of a command. -/
def Command.name : Command → String
  | controller => "controller"

/-- An argument with a value. -/
inductive Parameter where
  /-- How many requirements are reconciled at a time. -/
  | workers
  /-- The longest a reconcile may take, in seconds. -/
  | timeout
  /-- The size of the pool of a cache made without one. -/
  | keepAliveCount
  /-- The duration text of a cache made without one. -/
  | keepAliveDuration
  /-- The only namespace to watch. -/
  | namespaceName
deriving DecidableEq, Repr

/-- An argument without a value. -/
inductive Switch where
  /-- Print the resource definitions and end. -/
  | printDefinitions
  /-- Do not install the resource definitions. -/
  | skipInstall
deriving DecidableEq, Repr

/-- The name of a parameter behind two hyphens. -/
def Parameter.name : Parameter → String
  | workers => "workers"
  | timeout => "reconcile-timeout-secs"
  | keepAliveCount => "default-keep-alive-count"
  | keepAliveDuration => "default-keep-alive-duration"
  | namespaceName => "namespace"

/-- The variable that holds a parameter. -/
def Parameter.variable : Parameter → String
  | workers => "DEVINFRA_WORKERS"
  | timeout => "DEVINFRA_RECONCILE_TIMEOUT_SECS"
  | keepAliveCount => "DEVINFRA_DEFAULT_KEEP_ALIVE_COUNT"
  | keepAliveDuration => "DEVINFRA_DEFAULT_KEEP_ALIVE_DURATION"
  | namespaceName => "DEVINFRA_NAMESPACE"

/-- The variable that says whether the definitions are installed. -/
def skipInstallVariable : String := "DEVINFRA_SKIP_CRD_INSTALL"

/-- The name of a switch behind two hyphens. -/
def Switch.name : Switch → String
  | printDefinitions => "crd"
  | skipInstall => "skip-crd-install"

/-! ### Values -/

/-- The number that one or more ASCII digits denote. -/
def digitsValue? (cs : List Char) : Option Nat :=
  if cs.isEmpty || !cs.all Char.isDigit then none
  else some (cs.foldl (fun n c => 10 * n + (c.toNat - '0'.toNat)) 0)

/-- An integer in digits, which a sign may precede. -/
def integer? (text : String) : Option Int :=
  match text.toList with
  | '-' :: cs => (digitsValue? cs).map fun n => -(n : Int)
  | '+' :: cs => (digitsValue? cs).map Int.ofNat
  | cs => (digitsValue? cs).map Int.ofNat

/-- A natural number in digits, which a plus sign may precede. -/
def natural? (text : String) : Option Nat :=
  match text.toList with
  | '+' :: cs => digitsValue? cs
  | cs => digitsValue? cs

/-- A count of 32 bits. -/
def count? (text : String) : Option UInt32 := do
  let n ← integer? text
  if 0 ≤ n ∧ n < 2 ^ (32 : Nat) then some (UInt32.ofNat n.toNat) else none

/-- A number of workers: of 16 bits and not zero. -/
def workers? (text : String) : Option UInt16 := do
  let n ← integer? text
  if 1 ≤ n ∧ n < 2 ^ (16 : Nat) then some (UInt16.ofNat n.toNat) else none

/-- A number of seconds, of 64 bits. -/
def seconds? (text : String) : Option UInt64 := do
  let n ← natural? text
  if n < 2 ^ (64 : Nat) then some (UInt64.ofNat n) else none

/-- A text that stands for a duration. -/
def durationText? (text : String) : Option String := (Duration.parse? text).map fun _ => text

/-- A truth value, in lower case only. -/
def truth? (text : String) : Option Bool :=
  if text = "true" then some true else if text = "false" then some false else none

/-! ### What was given -/

/-- What was given so far. -/
structure Given where
  printDefinitions : Bool := false
  skipInstall : Option Bool := none
  workers : Option UInt16 := none
  timeoutSeconds : Option UInt64 := none
  keepAliveCount : Option UInt32 := none
  keepAliveDuration : Option String := none
  namespaceName : Option String := none
deriving DecidableEq, Repr

namespace Given

/-- Whether a parameter was given. -/
def has (g : Given) : Parameter → Bool
  | .workers => g.workers.isSome
  | .timeout => g.timeoutSeconds.isSome
  | .keepAliveCount => g.keepAliveCount.isSome
  | .keepAliveDuration => g.keepAliveDuration.isSome
  | .namespaceName => g.namespaceName.isSome

/-- Gives a parameter the value that a text stands for. -/
def read? (g : Given) (p : Parameter) (text : String) : Option Given :=
  match p with
  | .workers => (workers? text).map fun n => { g with workers := some n }
  | .timeout => (seconds? text).map fun n => { g with timeoutSeconds := some n }
  | .keepAliveCount => (count? text).map fun n => { g with keepAliveCount := some n }
  | .keepAliveDuration => (durationText? text).map fun t => { g with keepAliveDuration := some t }
  | .namespaceName => some { g with namespaceName := some text }

/-- Whether a switch was set. -/
def isSet (g : Given) : Switch → Bool
  | .printDefinitions => g.printDefinitions
  | .skipInstall => g.skipInstall.isSome

/-- Sets a switch. -/
def set (g : Given) : Switch → Given
  | .printDefinitions => { g with printDefinitions := true }
  | .skipInstall => { g with skipInstall := some true }

end Given

/-! ### Arguments -/

/-- What a command line asks for. -/
structure Arguments where
  command : Option Command := none
  printDefinitions : Bool := false
  skipInstall : Bool := false
  workers : UInt16 := 4
  timeoutSeconds : UInt64 := 30
  keepAliveCount : UInt32 := 1
  keepAliveDuration : String := "30m"
  namespaceName : Option String := none
deriving DecidableEq, Repr

/-- What was given, and otherwise the defaults. -/
def Given.arguments (g : Given) (command : Option Command) : Arguments :=
  let defaults : Arguments := {}
  { command
    printDefinitions := g.printDefinitions
    skipInstall := g.skipInstall.getD defaults.skipInstall
    workers := g.workers.getD defaults.workers
    timeoutSeconds := g.timeoutSeconds.getD defaults.timeoutSeconds
    keepAliveCount := g.keepAliveCount.getD defaults.keepAliveCount
    keepAliveDuration := g.keepAliveDuration.getD defaults.keepAliveDuration
    namespaceName := g.namespaceName }

/-- The settings of the reconciler that arguments ask for. -/
def Arguments.settings (a : Arguments) : Reconcile.Settings where
  timeout := .ofSeconds a.timeoutSeconds.toNat
  defaultKeepAliveCount := a.keepAliveCount
  defaultKeepAliveDuration := a.keepAliveDuration

end WarmPool.CommandLine
