import WarmPool.CommandLine.Arguments

/-!
# Reading a command line

`parse` reads the words of a command line from left to right. The value of a parameter stands behind
an equals sign, and is read at once, or in the next word, and is read only once the next argument or
the end has come: until then the parameter is pending. What the command line leaves open is taken
from the environment.
-/

namespace WarmPool.CommandLine

/-- Why a command line does not start the operator. -/
inductive Stop where
  /-- A value that does not fit its parameter. -/
  | unfitValue
  /-- A parameter without a value, or a variable of a switch that is no truth value. -/
  | noValue
  /-- An argument that does not exist, or not in this place. -/
  | unknownArgument
  /-- An argument that was given before. -/
  | repeatedArgument
  /-- A value for an argument that takes none. -/
  | unexpectedValue
  /-- A word that is no command. -/
  | unknownCommand
  /-- The user asks for help. -/
  | help
  /-- The user asks for the version. -/
  | version
deriving DecidableEq, Repr

/-- The name of a reason. -/
def Stop.name : Stop → String
  | unfitValue => "ValueValidation"
  | noValue => "InvalidValue"
  | unknownArgument => "UnknownArgument"
  | repeatedArgument => "ArgumentConflict"
  | unexpectedValue => "TooManyValues"
  | unknownCommand => "InvalidSubcommand"
  | help => "DisplayHelp"
  | version => "DisplayVersion"

/-! ### Words -/

/-- What a word looks like. -/
inductive Word where
  /-- Two hyphens alone: no arguments from here on. -/
  | ending
  /-- A name behind two hyphens, perhaps with a value. -/
  | long (name : String) (value : Option String)
  /-- A letter behind one hyphen, whatever follows it. -/
  | short (letter : Char)
  /-- Anything else. -/
  | plain
deriving DecidableEq, Repr

/-- A long argument without its hyphens: a name up to the first equals sign, and a value. -/
def Word.ofLong (cs : List Char) : Word :=
  let name := String.ofList (cs.takeWhile (· ≠ '='))
  match cs.dropWhile (· ≠ '=') with
  | _ :: value => long name (some (String.ofList value))
  | [] => long name none

/-- Looks at a word. -/
def Word.ofString (s : String) : Word :=
  match s.toList with
  | ['-', '-'] => ending
  | '-' :: '-' :: cs => ofLong cs
  | '-' :: c :: _ => short c
  | _ => plain

/-- What a name behind two hyphens stands for. -/
inductive LongArgument where
  | parameter (parameter : Parameter)
  | switch (switch : Switch)
  | help
  | version
deriving DecidableEq, Repr

/-- All parameters, in the order in which the environment is asked for them. -/
def Parameter.all : List Parameter :=
  [.workers, .timeout, .keepAliveCount, .keepAliveDuration, .namespaceName]

/-- All switches. -/
def Switch.all : List Switch := [.printDefinitions, .skipInstall]

/-- The long arguments with their names. -/
def LongArgument.names : List (String × LongArgument) :=
  Parameter.all.map (fun p => (p.name, parameter p)) ++
    Switch.all.map (fun s => (s.name, switch s)) ++ [("help", help), ("version", version)]

/-- What a name behind two hyphens stands for. -/
def LongArgument.ofName? (name : String) : Option LongArgument :=
  (names.find? fun entry => entry.1 = name).map Prod.snd

/-! ### From left to right -/

/-- How far a command line has been read. -/
structure Progress where
  given : Given := {}
  /-- The parameter seen last and its value, neither of them read yet. -/
  pending : Option (Parameter × Option String) := none
deriving DecidableEq, Repr

namespace Progress

/-- The parameter whose value the next word may be. -/
def awaited? (s : Progress) : Option Parameter :=
  match s.pending with
  | some (p, none) => some p
  | _ => none

/-- Reads the value of a parameter that was not given before. -/
def take (g : Given) (p : Parameter) (text : String) : Except Stop Given :=
  if g.has p then .error .repeatedArgument
  else
    match g.read? p text with
    | some g => .ok g
    | none => .error .unfitValue

/-- Reads the pending parameter. -/
def settle (s : Progress) : Except Stop Given :=
  match s.pending with
  | none => .ok s.given
  | some (_, none) => .error .noValue
  | some (p, some text) => take s.given p text

/-- Reads a long argument. -/
def long (s : Progress) (name : String) (value : Option String) : Except Stop Progress :=
  match LongArgument.ofName? name, value with
  | none, _ => .error .unknownArgument
  | some (.parameter p), none => do pure ⟨← s.settle, some (p, none)⟩
  | some (.parameter p), some text => do pure ⟨← take (← s.settle) p text, none⟩
  | some _, some _ => .error .unexpectedValue
  | some (.switch w), none => do
    let g ← s.settle
    if g.isSet w then .error .repeatedArgument else pure ⟨g.set w, none⟩
  | some .help, none => do
    let _ ← s.settle
    .error .help
  | some .version, none => do
    let _ ← s.settle
    .error .version

/-- Why a short argument stops the operator, which each of them does. -/
def short (s : Progress) (letter : Char) : Stop :=
  let reason : Option Stop :=
    if letter = 'h' then some .help else if letter = 'V' then some .version else none
  match reason, s.settle with
  | none, _ => .unknownArgument
  | some reason, .ok _ => reason
  | some _, .error earlier => earlier

end Progress

/-- The command that asks for help. -/
def helpName : String := "help"

/-- Whether a word is a command. -/
def isCommand (word : String) : Bool := word = helpName || word = Command.controller.name

/-- What comes of asking for help on commands: only the names of commands may follow. -/
def helpOn : List String → Stop
  | [] => .help
  | [word] => if isCommand word then .help else .unknownCommand
  | _ => .unknownCommand

/-- Checks what follows the command, which takes no arguments of its own but for help. -/
def checkCommandArguments : List String → Except Stop Unit
  | [] => .ok ()
  | word :: rest =>
    match Word.ofString word with
    | .ending => if rest.isEmpty then .ok () else .error .unknownArgument
    | .long name value =>
      if name = helpName then .error (if value.isSome then .unexpectedValue else .help)
      else .error .unknownArgument
    | .short letter => .error (if letter = 'h' then .help else .unknownArgument)
    | .plain => .error .unknownArgument

/-- Reads the words from here on. -/
def readWords (s : Progress) : List String → Except Stop (Given × Option Command)
  | [] => do pure (← s.settle, none)
  | word :: rest =>
    match s.awaited?, Word.ofString word with
    | _, .ending =>
      match rest with
      | [] => do pure (← s.settle, none)
      | next :: _ => .error (if isCommand next then .unknownArgument else .unknownCommand)
    | _, .long name value => do readWords (← s.long name value) rest
    | _, .short letter => .error (s.short letter)
    | some p, .plain => readWords { s with pending := some (p, some word) } rest
    | none, .plain =>
      if word = helpName then .error (helpOn rest)
      else if word = Command.controller.name then do
        checkCommandArguments rest
        pure (← s.settle, some .controller)
      else .error .unknownCommand

/-! ### The environment -/

/-- Takes a parameter that was not given from the environment. -/
def completeParameter (env : Environment) (g : Given) (p : Parameter) : Except Stop Given :=
  match env.get? p.variable with
  | none => .ok g
  | some text =>
    if g.has p then .ok g
    else
      match g.read? p text with
      | some g => .ok g
      | none => .error .unfitValue

/-- Takes the switch for the installation from the environment if it was not set. -/
def completeSwitch (env : Environment) (g : Given) : Except Stop Given :=
  match env.get? skipInstallVariable with
  | none => .ok g
  | some text =>
    if g.isSet .skipInstall then .ok g
    else
      match truth? text with
      | some b => .ok { g with skipInstall := some b }
      | none => .error .noValue

/-- Takes from the environment what was not given. -/
def complete (env : Environment) (g : Given) : Except Stop Given := do
  completeSwitch env (← Parameter.all.foldlM (completeParameter env) g)

/-- Reads the words of a command line, which stand behind the name of the program. -/
def parse (env : Environment) (words : List String) : Except Stop Arguments := do
  let (given, command) ← readWords {} words
  pure ((← complete env given).arguments command)

end WarmPool.CommandLine
