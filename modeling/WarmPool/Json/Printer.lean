import WarmPool.Json.Basic

/-!
# Writing JSON text

`Json.compact` writes a value without blanks, its fields in the order they are held. In a string
only the quote, the backslash and the control characters are escaped; a number is written with the
fewest digits that read back.
-/

namespace WarmPool.Json

/-- Numbers are positional from a hundred-thousandth to below `10 ^ 16`; an exponent has a sign. -/
def numberLayout : DecimalLayout where
  positionalFrom := -5
  positionalTo := 15
  markIntegral := true
  exponentMark := 'e'
  plusSign := true

/-- A number as text. -/
def numberChars : Number → List Char
  | .integer i _ _ => if i < 0 then '-' :: Decimal.numeral i.natAbs else Decimal.numeral i.natAbs
  | .float x => numberLayout.render x

/-- A hexadecimal digit in lower case. -/
def hexDigit (n : Nat) : Char :=
  if n < 10 then Char.ofNat ('0'.toNat + n) else Char.ofNat ('a'.toNat + (n - 10))

/-- A character inside quotes. -/
def escapedChar (c : Char) : List Char :=
  if c = '"' then ['\\', '"']
  else if c = '\\' then ['\\', '\\']
  else if c = '\x08' then ['\\', 'b']
  else if c = '\t' then ['\\', 't']
  else if c = '\n' then ['\\', 'n']
  else if c = '\x0c' then ['\\', 'f']
  else if c = '\r' then ['\\', 'r']
  else if c.toNat < 0x20 then
    ['\\', 'u', '0', '0', hexDigit (c.toNat / 16), hexDigit (c.toNat % 16)]
  else [c]

/-- A string in quotes. -/
def stringChars (s : String) : List Char :=
  '"' :: (s.toList.flatMap escapedChar ++ ['"'])

mutual

/-- A value as text in front of `rest`. -/
def writeValue : Json → (rest : List Char) → List Char
  | .null, rest => 'n' :: 'u' :: 'l' :: 'l' :: rest
  | .bool true, rest => 't' :: 'r' :: 'u' :: 'e' :: rest
  | .bool false, rest => 'f' :: 'a' :: 'l' :: 's' :: 'e' :: rest
  | .number n, rest => numberChars n ++ rest
  | .string s, rest => stringChars s ++ rest
  | .array items, rest => '[' :: writeItems items true rest
  | .object fields, rest => '{' :: writeFields fields true rest

/-- The elements and the closing bracket. -/
def writeItems : List Json → (first : Bool) → (rest : List Char) → List Char
  | [], _, rest => ']' :: rest
  | v :: items, first, rest =>
    let tail := writeValue v (writeItems items false rest)
    if first then tail else ',' :: tail

/-- The fields and the closing brace. -/
def writeFields : List (String × Json) → (first : Bool) → (rest : List Char) → List Char
  | [], _, rest => '}' :: rest
  | (k, v) :: fields, first, rest =>
    let tail := stringChars k ++ ':' :: writeValue v (writeFields fields false rest)
    if first then tail else ',' :: tail

end

/-- A value as text without blanks. -/
def compact (v : Json) : String := String.ofList (writeValue v [])

end WarmPool.Json
