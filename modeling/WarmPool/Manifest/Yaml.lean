import WarmPool.Json.Printer
import WarmPool.Manifest.Definition

/-!
# YAML

JSON values as YAML in block style. A text stands plain wherever that is read back as the same text;
else it stands in single quotes, and a text of several lines as a literal block. Items of a list
stand as far in as the key that they belong to.
-/

namespace WarmPool.Manifest.Yaml

/-! ### Scalars -/

/-- Words that a reader may take for a truth value or for nothing. -/
def reserved : List String :=
  ["y", "Y", "yes", "Yes", "YES", "n", "N", "no", "No", "NO", "true", "True", "TRUE", "false",
    "False", "FALSE", "on", "On", "ON", "off", "Off", "OFF", "null", "Null", "NULL", "~"]

/-- The characters that may not begin a plain text. -/
def indicators : List Char :=
  ['#', ',', '[', ']', '{', '}', '&', '*', '!', '|', '>', '\'', '"', '%', '@', '\x60']

/-- Whether a text that begins like this is a number or close to one. -/
def looksNumeric (cs : List Char) : Bool :=
  let unsigned :=
    match cs with
    | '-' :: rest | '+' :: rest => rest
    | cs => cs
  let body :=
    match unsigned with
    | '.' :: rest => rest
    | cs => cs
  (body.head?.map Char.isDigit).getD false ||
    ["inf", "Inf", "INF", "nan", "NaN", "NAN"].any fun w => w.toList = body && body ≠ unsigned

/-- Whether a colon ends a text or has a blank behind it, or a number sign has one before it. -/
def hasSeparator : List Char → Bool
  | [] => false
  | [':'] => true
  | ':' :: ' ' :: _ => true
  | ' ' :: '#' :: _ => true
  | _ :: rest => hasSeparator rest

/-- Whether a text begins with a mark that is followed by a blank or by nothing. -/
def beginsWithMark : List Char → Bool
  | '-' :: '-' :: '-' :: _ | '.' :: '.' :: '.' :: _ => true
  | c :: rest =>
    (c = '-' || c = '?' || c = ':') && ((rest.head?.map fun d => decide (d = ' ')).getD true)
  | [] => false

/-- Whether a text of one line reads back as itself without quotes. -/
def isPlain (s : String) : Bool :=
  let cs := s.toList
  !cs.isEmpty && !reserved.contains s && !looksNumeric cs && !hasSeparator cs &&
    !beginsWithMark cs && !((cs.head?.map indicators.contains).getD false) &&
    cs.head? ≠ some ' ' && cs.getLast? ≠ some ' ' && cs.all fun c => 0x20 ≤ c.toNat && c ≠ '\x7f'

/-- A text in single quotes, in which such a quote is doubled. -/
def singleQuoted (cs : List Char) : List Char :=
  ['\''] ++ (cs.flatMap fun c => if c = '\'' then ['\'', '\''] else [c]) ++ ['\'']

/-- Blanks up to a column. -/
def pad (column : Nat) : List Char := List.replicate column ' '

/-- The lines of a text. -/
def linesOf : List Char → List (List Char)
  | [] => [[]]
  | c :: rest =>
    if c = '\n' then [] :: linesOf rest
    else
      match linesOf rest with
      | line :: lines => (c :: line) :: lines
      | [] => [[c]]

/-- A text as a literal block at a column; a sign tells how many line ends close it. -/
def literalBlock (column : Nat) (cs : List Char) : List Char :=
  let ends := (cs.reverse.takeWhile (· = '\n')).length
  let sign := if ends = 0 then ['-'] else if ends = 1 then [] else ['+']
  let lines := if ends = 0 then linesOf cs else (linesOf cs).dropLast
  let hint := if cs.head? = some ' ' ∨ cs.head? = some '\n' then ['2'] else []
  let body := lines.map fun line => if line.isEmpty then [] else pad column ++ line
  ['|'] ++ hint ++ sign ++ body.flatMap ('\n' :: ·)

/-- A text, whose further lines stand at a column. -/
def text (column : Nat) (s : String) : List Char :=
  if s.toList.contains '\n' then literalBlock column s.toList
  else if isPlain s then s.toList
  else if s.toList.all fun c => 0x20 ≤ c.toNat && c ≠ '\x7f' then singleQuoted s.toList
  else Json.stringChars s

/-! ### Blocks -/

mutual

/-- What follows a key or a hyphen at a column, from the blank to the end of the line. -/
def value (column : Nat) : Json → List Char
  | .null => " null\n".toList
  | .bool b => (if b then " true\n" else " false\n").toList
  | .number n => [' '] ++ Json.numberChars n ++ ['\n']
  | .string s => [' '] ++ text (column + 2) s ++ ['\n']
  | .array [] => " []\n".toList
  | .array items => '\n' :: list column items
  | .object [] => " \x7b\x7d\n".toList
  | .object fields => '\n' :: record (column + 2) fields

/-- What follows the hyphen of an item: the block of an item begins on the same line. -/
def item (column : Nat) : Json → List Char
  | .array (first :: rest) => ' ' :: (list (column + 2) (first :: rest)).drop (column + 2)
  | .object (first :: rest) => ' ' :: (record (column + 2) (first :: rest)).drop (column + 2)
  | v => value column v

/-- The items of a list at a column. -/
def list (column : Nat) : List Json → List Char
  | [] => []
  | v :: rest => pad column ++ ['-'] ++ item column v ++ list column rest

/-- The fields of a record at a column. -/
def record (column : Nat) : List (String × Json) → List Char
  | [] => []
  | (key, v) :: rest =>
    pad column ++ text column key ++ [':'] ++ value column v ++ record column rest

end

/-- A document. -/
def document : Json → String
  | .array (first :: rest) => String.ofList (list 0 (first :: rest))
  | .object (first :: rest) => String.ofList (record 0 (first :: rest))
  | v => String.ofList ((value 0 v).drop 1)

/-- All definitions as YAML documents with lines of hyphens between them. -/
def definitions : String :=
  String.intercalate "---\n" (Definition.all.map fun d => document d.encode)

end WarmPool.Manifest.Yaml
