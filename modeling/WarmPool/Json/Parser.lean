import WarmPool.Json.Literal

/-!
# Reading JSON text

`Literal.parse?` accepts one JSON text between blanks and nothing else, and `Json.parse?` gives the
value that it denotes, if it denotes one and its containers are nested no deeper than
`Json.maxDepth`.
-/

namespace WarmPool

namespace Json

/-- How deep containers may be nested. -/
def maxDepth : Nat := 127

end Json

namespace Literal

/-- The characters between tokens. -/
def isBlank (c : Char) : Bool := c = ' ' || c = '\n' || c = '\t' || c = '\r'

/-- Drops the blanks in front. -/
def skipBlanks : List Char → List Char
  | [] => []
  | c :: rest => if isBlank c then skipBlanks rest else c :: rest

/-! ### Strings -/

/-- The value of a hexadecimal digit of either case. -/
def hexValue? (c : Char) : Option Nat :=
  if '0' ≤ c && c ≤ '9' then some (c.toNat - '0'.toNat)
  else if 'a' ≤ c && c ≤ 'f' then some (c.toNat - 'a'.toNat + 10)
  else if 'A' ≤ c && c ≤ 'F' then some (c.toNat - 'A'.toNat + 10)
  else none

/-- The unit that four hexadecimal digits denote. -/
def parseUnit? : List Char → Option (Nat × List Char)
  | a :: b :: c :: d :: rest => do
    let a ← hexValue? a
    let b ← hexValue? b
    let c ← hexValue? c
    let d ← hexValue? d
    pure (4096 * a + 256 * b + 16 * c + d, rest)
  | _ => none

/-- The low surrogate that the next escape denotes, with what follows it. -/
def lowSurrogate? : List Char → Option (Nat × List Char)
  | '\\' :: 'u' :: rest =>
    (parseUnit? rest).filter fun (unit, _) => 0xDC00 ≤ unit && unit ≤ 0xDFFF
  | _ => none

/-- The character of a `u` escape, none for a surrogate without its partner in the next escape. -/
def parseCodePoint? (cs : List Char) : Option (Option Char × List Char) := do
  let (unit, rest) ← parseUnit? cs
  if unit < 0xD800 || 0xDFFF < unit then pure (some (Char.ofNat unit), rest)
  else if 0xDC00 ≤ unit then pure (none, rest)
  else
    match lowSurrogate? rest with
    | some (low, rest) =>
      pure (some (Char.ofNat (0x10000 + (unit - 0xD800) * 0x400 + (low - 0xDC00))), rest)
    | none => pure (none, rest)

/-- The character that a backslash and the characters after it denote, if it is one. -/
def parseEscape? : List Char → Option (Option Char × List Char)
  | '"' :: rest => some (some '"', rest)
  | '\\' :: rest => some (some '\\', rest)
  | '/' :: rest => some (some '/', rest)
  | 'b' :: rest => some (some '\x08', rest)
  | 'f' :: rest => some (some '\x0c', rest)
  | 'n' :: rest => some (some '\n', rest)
  | 'r' :: rest => some (some '\r', rest)
  | 't' :: rest => some (some '\t', rest)
  | 'u' :: rest => parseCodePoint? rest
  | _ => none

/--
The characters up to the closing quote, in reverse in front of `acc`, or none once one of them is
no character; `fuel` of them at most.
-/
def parseStringTail? : (fuel : Nat) → (acc : Option (List Char)) → List Char →
    Option (Option (List Char) × List Char)
  | 0, _, _ => none
  | fuel + 1, acc, cs =>
    match cs with
    | [] => none
    | '"' :: rest => some (acc.map List.reverse, rest)
    | '\\' :: rest =>
      match parseEscape? rest with
      | some (c, rest) =>
        parseStringTail? fuel (acc.bind fun before => c.map (· :: before)) rest
      | none => none
    | c :: rest =>
      if c.toNat < 0x20 then none else parseStringTail? fuel (acc.map (c :: ·)) rest

/-- The string after its opening quote. -/
def parseString? (cs : List Char) : Option (Option String × List Char) :=
  (parseStringTail? (cs.length + 1) (some []) cs).map
    fun (chars, rest) => (chars.map String.ofList, rest)

/-! ### Values -/

mutual

/-- A literal, blanks in front of it allowed, inside `depth` more levels of nesting. -/
def parseValue? : (fuel : Nat) → (depth : Nat) → List Char → Option (Literal × List Char)
  | 0, _, _ => none
  | fuel + 1, depth, cs =>
    match skipBlanks cs with
    | 'n' :: 'u' :: 'l' :: 'l' :: rest => some (.null, rest)
    | 't' :: 'r' :: 'u' :: 'e' :: rest => some (.bool true, rest)
    | 'f' :: 'a' :: 'l' :: 's' :: 'e' :: rest => some (.bool false, rest)
    | '"' :: rest => (parseString? rest).map fun (s, rest) => (.string s, rest)
    | '[' :: rest =>
      match depth with
      | 0 => none
      | depth + 1 =>
        match skipBlanks rest with
        | ']' :: rest => some (.array [], rest)
        | rest => (parseItems? fuel depth rest).map fun (items, rest) => (.array items, rest)
    | '{' :: rest =>
      match depth with
      | 0 => none
      | depth + 1 =>
        match skipBlanks rest with
        | '}' :: rest => some (.object [], rest)
        | rest => (parseFields? fuel depth rest).map fun (fields, rest) => (.object fields, rest)
    | cs => (Json.Numeral.parse? cs).map fun (n, rest) => (.number n, rest)

/-- The elements of an array that has one, up to its closing bracket. -/
def parseItems? : (fuel : Nat) → (depth : Nat) → List Char → Option (List Literal × List Char)
  | 0, _, _ => none
  | fuel + 1, depth, cs =>
    match parseValue? fuel depth cs with
    | none => none
    | some (v, rest) =>
      match skipBlanks rest with
      | ',' :: rest => (parseItems? fuel depth rest).map fun (items, rest) => (v :: items, rest)
      | ']' :: rest => some ([v], rest)
      | _ => none

/-- The fields of an object that has one, up to its closing brace. -/
def parseFields? : (fuel : Nat) → (depth : Nat) → List Char →
    Option (List (Option String × Literal) × List Char)
  | 0, _, _ => none
  | fuel + 1, depth, cs =>
    match skipBlanks cs with
    | '"' :: rest =>
      match parseString? rest with
      | none => none
      | some (key, rest) =>
        match skipBlanks rest with
        | ':' :: rest =>
          match parseValue? fuel depth rest with
          | none => none
          | some (v, rest) =>
            match skipBlanks rest with
            | ',' :: rest =>
              (parseFields? fuel depth rest).map fun (fields, rest) => ((key, v) :: fields, rest)
            | '}' :: rest => some ([(key, v)], rest)
            | _ => none
        | _ => none
    | _ => none

end

/-- The literal that some characters are, if containers are nested no deeper than `depth`. -/
def parseChars? (depth : Nat) (cs : List Char) : Option Literal :=
  match parseValue? (2 * cs.length + 2) depth cs with
  | some (v, rest) => if (skipBlanks rest).isEmpty then some v else none
  | none => none

/-- The literal that a text is, nested however deep. -/
def parse? (text : String) : Option Literal :=
  let cs := text.toList
  parseChars? cs.length cs

end Literal

namespace Json

/-- The JSON value that some characters denote, if they denote one. -/
def parseChars? (cs : List Char) : Option Json :=
  (Literal.parseChars? maxDepth cs).bind (Literal.value? maxDepth)

/-- The JSON value that a text denotes, if it denotes one. -/
def parse? (text : String) : Option Json := parseChars? text.toList

end Json

end WarmPool
