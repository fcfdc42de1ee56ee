import WarmPool.Json.Printer

/-!
# Requests and responses

What goes over the wire to the API server. A request is made from a target, which is a path and a
query in one text; `Request.ofTarget?` parts them and refuses a target with a character that no
target may have. Query pairs are written as in a web form.
-/

namespace WarmPool.Http

/-- What a request does. -/
inductive Verb where
  | get
  | post
  | patch
deriving DecidableEq, Repr

/-- The name of a verb. -/
def Verb.name : Verb → String
  | get => "GET"
  | post => "POST"
  | patch => "PATCH"

/-- How a body is to be taken. -/
inductive ContentType where
  /-- A whole object. -/
  | object
  /-- A merge patch. -/
  | mergePatch
  /-- The fields that the sender wants, taken from others if need be. -/
  | applyPatch
deriving DecidableEq, Repr

/-- The name of a content type. -/
def ContentType.name : ContentType → String
  | object => "application/json"
  | mergePatch => "application/merge-patch+json"
  | applyPatch => "application/apply-patch+yaml"

/-- A request. -/
structure Request where
  verb : Verb
  path : String
  /-- The pairs of the query as they are sent. -/
  query : List String
  body : Option (ContentType × Json)
deriving DecidableEq, Repr

/-- An answer to a request. -/
structure Response where
  /-- The status code. -/
  status : Nat
  /-- The body. -/
  text : String
deriving DecidableEq, Repr

/-! ### Form encoding -/

/-- Whether a byte stands for itself in a form. -/
def isPlainByte (b : UInt8) : Bool :=
  let c := Char.ofNat b.toNat
  b < 128 && (c.isAlphanum || c = '*' || c = '-' || c = '.' || c = '_')

/-- A hexadecimal digit in upper case. -/
def upperHexDigit (n : Nat) : Char := (Json.hexDigit n).toUpper

/-- A byte in a form: itself, a plus for a blank, or a percent sign and two digits. -/
def formByte (b : UInt8) : List Char :=
  if isPlainByte b then [Char.ofNat b.toNat]
  else if b = 0x20 then ['+']
  else ['%', upperHexDigit (b.toNat / 16), upperHexDigit (b.toNat % 16)]

/-- A text in a form. -/
def formText (s : String) : String := String.ofList (s.toUTF8.toList.flatMap formByte)

/-- A pair in a query. -/
def formPair (pair : String × String) : String := formText pair.1 ++ "=" ++ formText pair.2

/-! ### Targets -/

/-- Whether a character may be in a path. -/
def isPathChar (c : Char) : Bool :=
  let n := c.toNat
  n = 0x21 || n = 0x22 || (0x24 ≤ n && n ≤ 0x3B) || n = 0x3D || (0x40 ≤ n && n ≤ 0x5F) ||
    (0x61 ≤ n && n ≤ 0x7E) || 0x80 ≤ n

/-- Whether a character may be in a query. -/
def isQueryChar (c : Char) : Bool :=
  let n := c.toNat
  n = 0x21 || (0x24 ≤ n && n ≤ 0x3B) || n = 0x3D || (0x3F ≤ n && n ≠ 0x7F)

/-- The parts of a text between the places where a character stands. -/
def splitAtChar (sep : Char) : List Char → List (List Char)
  | [] => [[]]
  | c :: rest =>
    if c = sep then [] :: splitAtChar sep rest
    else
      match splitAtChar sep rest with
      | part :: parts => (c :: part) :: parts
      | [] => [[c]]

/-- The text of a target: only an object that is read has no query, not even an empty one. -/
def targetText (verb : Verb) (path : String) (pairs : List (String × String)) : String :=
  if verb = .get && pairs.isEmpty then path
  else path ++ "?" ++ String.join (pairs.map fun pair => "&" ++ formPair pair)

/-- The request for a path with these pairs, if it can be sent; the path may bring its own query. -/
def Request.ofTarget? (verb : Verb) (path : String) (pairs : List (String × String))
    (body : Option (ContentType × Json)) : Option Request :=
  let visible := (targetText verb path pairs).toList.takeWhile (· ≠ '#')
  let path := visible.takeWhile (· ≠ '?')
  let query := (visible.dropWhile (· ≠ '?')).drop 1
  if path.all isPathChar && query.all isQueryChar then
    let parts := (splitAtChar '&' query).filter fun part => !part.isEmpty
    some ⟨verb, String.ofList path, parts.map String.ofList, body⟩
  else none

end WarmPool.Http
